import Fieldwise.Expansion
import Fieldwise.Text.Lines

/-!
# Scanning source files

The annotated structs of a source file, at the top of the file or of a module written out in it, in the order
of the source. Each is expanded on its own and reported with the constructor that it gets, or with the fault
that keeps it from getting one.
-/

namespace Fieldwise

open Fieldwise.Grammar

/-- The name that the path of an annotation ends in. -/
def annotationName : String := "memberwise_init"

/-- Whether an attribute is an annotation. -/
def Grammar.Attribute.isAnnotation (attr : Attribute) : Bool :=
  match attr.path.names.getLast? with
  | some name => name.name == annotationName
  | none => false

/-- The arguments of an annotation. -/
def Grammar.Attribute.arguments (attr : Attribute) : Tokens :=
  match attr.value with
  | .list _ body _ _ => body
  | _ => []

/-- A struct that is to be expanded. -/
structure Annotated where
  /-- The arguments of the annotation. -/
  args : Tokens
  /-- The struct without its first annotation. -/
  decl : Struct
  deriving Inhabited

/-- A constructor as a report shows it. -/
structure Listed where
  /-- The constructor in one line. -/
  signature : String
  /-- The implementation with the constructor. -/
  listing : String
  deriving DecidableEq, Inhabited

/-- What came of an annotated struct. -/
structure StructReport where
  /-- The name of the struct. -/
  name : String
  /-- The line of the struct, or of the fault. -/
  line : Nat
  /-- The constructor or the fault. -/
  outcome : Except Fault Listed

namespace Annotated

/-- The first annotation of some attributes, and the attributes without it. -/
def split? : List Attribute → Option (Attribute × List Attribute)
  | [] => none
  | attr :: rest =>
    if attr.isAnnotation then some (attr, rest)
    else (split? rest).map fun (found, others) => (found, attr :: others)

/-- The struct as one to be expanded, if it is annotated. -/
def ofStruct? (decl : Struct) : Option Annotated :=
  (split? decl.attrs).map fun (attr, rest) => ⟨attr.arguments, { decl with attrs := rest }⟩

/-- The name of the struct. -/
def name (found : Annotated) : String := found.decl.ident.name

/-- The line that the name of the struct stands in. -/
def line (found : Annotated) : Nat := found.decl.ident.pos.line

mutual

/-- The annotated structs of an item. -/
def ofItem : Item → List Annotated
  | .struct decl => (ofStruct? decl).toList
  | .module items _ => ofItems items
  | .other _ => []

/-- The annotated structs of items in order. -/
def ofItems : List Item → List Annotated
  | [] => []
  | item :: rest => ofItem item ++ ofItems rest

end

/-- The first line of the implementation, without its brace. -/
def header (decl : Struct) : String :=
  Tokens.text (term "impl" ++ decl.generics.tokens .implemented ++ [decl.ident.token] ++
    decl.generics.tokens .applied ++ decl.generics.whereTokens)

/-- The implementation with the constructor of a plan. -/
def listing (decl : Struct) (plan : Plan) : String :=
  header decl ++ " \x7b\n" ++
    String.join ((Text.lines plan.render).map (Text.indented "    ")) ++ "\x7d\n"

/-- The constructor of an annotated struct. The struct is expanded as a whole, so a value that is no
expression is a fault although the constructor does not show it. -/
def list (found : Annotated) : Except Fault Listed := do
  let analysis ← analyze found.args found.decl.tokens
  let _ ← Expansion.ofAnalysis analysis
  return ⟨analysis.plan.describe, listing found.decl analysis.plan⟩

/-- The line to report: that of the fault if it has one, else that of the struct. -/
def reportLine (found : Annotated) : Except Fault Listed → Nat
  | .ok _ => found.line
  | .error fault => if fault.pos.line > 0 then fault.pos.line else found.line

/-- The report of an annotated struct. -/
def report (found : Annotated) : StructReport :=
  let outcome := found.list
  ⟨found.name, found.reportLine outcome, outcome⟩

end Annotated

/-- The annotated structs of a source text. -/
def annotatedIn (source : String) : Except SyntaxError (List Annotated) :=
  Annotated.ofItems <$> parseFile source

/-- The reports of a source text. -/
def scan (source : String) : Except SyntaxError (List StructReport) :=
  List.map Annotated.report <$> annotatedIn source

/-- Whether a struct got no constructor. -/
def StructReport.failed (report : StructReport) : Bool :=
  match report.outcome with
  | .ok _ => false
  | .error _ => true

/-- The reports of a file. -/
structure FileReport where
  /-- The file, as it was named. -/
  path : String
  /-- The reports of its structs in order. -/
  structs : List StructReport

namespace FileReport

/-- How many structs of the file got no constructor. -/
def failures (file : FileReport) : Nat := file.structs.countP StructReport.failed

/-- A place in the file with the name of a struct. -/
def heading (path : String) (report : StructReport) : String :=
  path ++ ":" ++ toString report.line ++ " " ++ report.name

/-- The constructor of a struct under its place in the file; nothing for a fault. -/
def entry (path : String) (report : StructReport) : String :=
  match report.outcome with
  | .ok found => "\n// " ++ heading path report ++ "\n" ++ found.listing
  | .error _ => ""

/-- The constructors of the file. -/
def listing (file : FileReport) : String :=
  "\n// " ++ file.path ++ "\n" ++ String.join (file.structs.map (entry file.path))

/-- The constructor or the fault of a struct, as it is shown for a single file. -/
def shown (path : String) (report : StructReport) : String :=
  match report.outcome with
  | .ok found => "// " ++ heading path report ++ "\n" ++ found.listing ++ "\n"
  | .error fault =>
    "// " ++ heading path report ++ ": error\n" ++
      String.join ((Text.lines fault.report).map fun line => "//   " ++ line ++ "\n") ++ "\n"

/-- The constructors and faults of the file. -/
def text (file : FileReport) : String := String.join (file.structs.map (shown file.path))

/-- The lines that tell of a fault. -/
def diagnostic (path : String) (report : StructReport) : String :=
  match report.outcome with
  | .ok _ => ""
  | .error fault =>
    "\nerror " ++ heading path report ++ "\n" ++
      String.join ((Text.lines fault.report).map fun line => "  " ++ line ++ "\n")

/-- The lines that tell of all faults of the file. -/
def diagnostics (file : FileReport) : String := String.join (file.structs.map (diagnostic file.path))

end FileReport

/-- The constructors of some files. -/
def listing (files : List FileReport) : String := String.join (files.map FileReport.listing)

end Fieldwise
