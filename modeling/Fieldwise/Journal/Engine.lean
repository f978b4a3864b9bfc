import Fieldwise.Journal
import Fieldwise.Survey

/-!
# What is told about a declaration

The journal entries of the analysis of a declaration, in the order of its steps and up to the step that fails:
directives that are passed over and what came of the others, the role of each member, and the types of values.
-/

namespace Fieldwise

open Fieldwise.Journal Fieldwise.Grammar

/-- The part of the program that reads directives. -/
def directiveTarget : String := "memberwise_core::analyzer::directives"

/-- The part of the program that finds roles. -/
def roleTarget : String := "memberwise_core::analyzer::classify"

/-- The part of the program that finds types. -/
def typeTarget : String := "memberwise_core::analyzer::infer"

/-- The part of the program that runs the analysis. -/
def analysisTarget : String := "memberwise_core::analyzer"

namespace Directive

/-- An entry about directives. -/
def note (message : String) (details : List (String × Detail)) : Entry :=
  entry .debug directiveTarget message details

/-- What is told about an element of `exclude`. -/
def exclusionNote? : Value → Option Entry
  | .text _ _ => none
  | other => some (note "skipping non-string `exclude` element" [("element", .text other.source)])

/-- What is told about a key of `defaults`. -/
def defaultNote? : Value → Option Entry
  | .text _ _ => none
  | other => some (note "skipping non-string `defaults` key" [("key", .text other.source)])

/-- What is told about a directive. -/
def entries (directive : Directive) : List Entry :=
  match directive.name.name with
  | "access" => []
  | "exclude" =>
    match directive.value with
    | .array elements => elements.filterMap exclusionNote?
    | _ => [note "`exclude` is not an array literal, ignoring it" []]
  | "defaults" =>
    match directive.value with
    | .map pairs => pairs.filterMap fun pair => defaultNote? pair.1
    | _ => [note "`defaults` is not a map literal, ignoring it" []]
  | other => [note "ignoring unknown directive" [("directive", .text other)]]

end Directive

/-- What is told about resolved directives. -/
def Directives.entry (directives : Directives) : Entry :=
  Directive.note "resolved directives"
    [("access", .text directives.access.name), ("excluded", .number directives.excluded.length),
      ("defaults", .number directives.defaults.length)]

/-- What is told about the arguments of an annotation. -/
def Directives.entries (args : Tokens) : List Entry :=
  match Directive.parseAll args with
  | .error _ => []
  | .ok found =>
    found.flatMap Directive.entries ++ [Directives.entry (found.foldl Directive.apply .initial)]

namespace Value

/-- A type as a diagnostic shows it. -/
def shownType : Option Descriptor → String
  | some type => "Some(" ++ Text.quoteShown type.text ++ ")"
  | none => "None"

/-- What is told about the type of a value itself. -/
def typeEntry (value : Value) : List Entry :=
  if value.infer.isSome || value.isAbsent then
    [Journal.entry .trace typeTarget "inferred literal type"
      [("literal", .text value.source), ("inferred", .text (shownType value.infer))]]
  else []

mutual

/-- What is told while the type of a value is found: first about its parts. -/
def typeEntries : Value → List Entry
  | array elements => firstEntries elements ++ typeEntry (array elements)
  | map pairs => presentEntries pairs ++ typeEntry (map pairs)
  | cast inner type conditional => typeEntry (cast inner type conditional)
  | bool value => typeEntry (bool value)
  | text literal pos => typeEntry (text literal pos)
  | char literal => typeEntry (char literal)
  | whole negative literal => typeEntry (whole negative literal)
  | fraction negative literal => typeEntry (fraction negative literal)
  | absent => typeEntry absent
  | other tokens => typeEntry (other tokens)

/-- What is told about the first of several values. -/
def firstEntries : List Value → List Entry
  | [] => []
  | value :: _ => value.typeEntries

/-- What is told about the first pair whose value is present. -/
def presentEntries : List (Value × Value) → List Entry
  | [] => []
  | (key, value) :: rest =>
    if value.isAbsent then presentEntries rest
    else if key.infer.isSome then key.typeEntries ++ value.typeEntries
    else key.typeEntries

end

end Value

namespace Member

/-- An entry about the role of a member. -/
def note (member : Member) (message : String) (details : List (String × Detail)) : Entry :=
  Journal.entry .debug roleTarget message (("member", .text member.name) :: details)

/-- What is told while the type of a stored member is found. -/
def storedEntries (member : Member) : List Entry :=
  match member.explicit, member.options.initial with
  | none, some value => value.typeEntries
  | _, _ => []

/-- What is told about the role of a member. -/
def roleEntries (directives : Directives) (member : Member) : List Entry :=
  let initialised := member.options.initial.isSome
  if (directives.excluded? member.name).isSome then
    if initialised then member.note "excluded" [] :: member.storedEntries else []
  else if member.options.isStatic then
    member.note "static member, not a parameter" [] :: member.storedEntries
  else if member.options.isConstant && initialised then
    member.note "initialized constant, not a parameter" [] :: member.storedEntries
  else if member.options.computed.isSome then
    [member.note "computed member, not a parameter" []]
  else
    member.note "parameter" [("defaulted", .flag (directives.default? member.name).isSome)] ::
      member.storedEntries

/-- What is told about a default value of a member with a role. -/
def defaultEntries (directives : Directives) (member : Member) (role : Role) : List Entry :=
  if !role.isParameter && (directives.default? member.name).isSome then
    [member.note "default value ignored, member is not a parameter" []]
  else []

end Member

/-- What is told about members in order, up to the first without a role. -/
def classifyEntries (directives : Directives) : List Member → List Entry
  | [] => []
  | member :: rest =>
    member.roleEntries directives ++
      match member.role directives with
      | .error _ => []
      | .ok role => member.defaultEntries directives role ++ classifyEntries directives rest

/-- What is going on while the members of a host are classified. -/
def classifySpan (host : Host) : Span :=
  ⟨.debug, analysisTarget, "classify", [("host", .text host.name)]⟩

/-- What is told while a declaration is analysed. -/
def analysisEntries (args item : Tokens) : List Entry :=
  Directives.entries args ++
    match Directives.resolve args with
    | .error _ => []
    | .ok directives =>
      match (readHost directives item).bind Host.ofStruct with
      | .error _ => []
      | .ok host =>
        (classifyEntries directives host.members).map (Entry.during (classifySpan host))

/-- The part of the program that scans files. -/
def surveyTarget : String := "memberwise_codegen::scanner"

/-- What is told about an annotated struct. -/
def Annotated.entries (found : Annotated) : List Entry :=
  Journal.entry .debug surveyTarget "expanding"
      [("name", .text found.name), ("line", .number found.line)] ::
    analysisEntries found.args found.decl.tokens

/-- What is told about a file. -/
def fileEntries (disk : Disk) (path : Path) : List Entry :=
  match disk.readText path with
  | .error _ => []
  | .ok source =>
    match annotatedIn source with
    | .error _ => []
    | .ok found => found.flatMap Annotated.entries

namespace Survey

/-- What is told at the end of a scan. -/
def finished (survey : Survey) : Entry :=
  Journal.entry .info surveyTarget "scan finished"
    [("files", .number survey.files.length),
      ("structs", .number ((survey.files.map fun file => file.structs.length).foldl (· + ·) 0)),
      ("failures", .number survey.failures)]

/-- What is told during a scan. -/
def scanEntries (survey : Survey) (disk : Disk) (config : Config) : List Entry :=
  match sources disk config.paths with
  | .error _ => []
  | .ok paths =>
    let readable := paths.takeWhile fun path => (Visit.of disk path).isReadable
    let outcome := survey.scan disk config
    readable.flatMap (fileEntries disk) ++
      match outcome.result with
      | .ok _ => [outcome.survey.finished]
      | .error _ => []

/-- What is told while constructors are generated. -/
def generateEntries (survey : Survey) (disk : Disk) (config : Config) : List Entry :=
  survey.scanEntries disk config ++
    match (survey.check disk config).result, config.output with
    | .error _, _ => []
    | .ok _, none => [Journal.entry .info surveyTarget "no output path configured, skipping listing" []]
    | .ok _, some path =>
      match (survey.generate disk config).result with
      | .error _ => []
      | .ok _ =>
        [Journal.entry .info surveyTarget "wrote expansion listing" [("path", .text path.text)]]

end Survey

end Fieldwise
