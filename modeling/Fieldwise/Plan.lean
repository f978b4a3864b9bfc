import Fieldwise.Analysis
import Fieldwise.Lowering

/-!
# The constructor as a plan

The constructor of a host: its access level and, for every stored field in order, the parameter that
supplies it or the value that it is assigned. A plan is written out as source text here; a parameter with a
default is optional for the caller.
-/

namespace Fieldwise

open Fieldwise.Grammar

/-- A parameter of the constructor. -/
structure Parameter where
  /-- Its name, which is the field's. -/
  ident : Ident
  /-- The type of the field. -/
  type : Descriptor
  /-- What the field gets when the caller gives nothing. -/
  default : Option Default
  deriving Inhabited

namespace Parameter

/-- The type of the parameter: optional if there is a default. -/
def typeText (parameter : Parameter) : String :=
  match parameter.default with
  | some _ => "Option<" ++ parameter.type.text ++ ">"
  | none => parameter.type.parameterText

/-- The parameter as it stands in the parameter list. -/
def text (parameter : Parameter) : String := parameter.ident.name ++ ": " ++ parameter.typeText

/-- The value the field is assigned, if it is not the parameter itself. -/
def valueText? (parameter : Parameter) : Option String :=
  match parameter.default with
  | some default =>
    some (parameter.ident.name ++ ".unwrap_or_else(|| " ++
      default.value.lower (some parameter.type) ++ ")")
  | none =>
    if parameter.type.escapes then
      some ("::std::boxed::Box::new(" ++ parameter.ident.name ++ ")")
    else none

/-- The parameter as users see it: the type of the field, and the default as it was written. -/
def signature (parameter : Parameter) : String :=
  let plain := parameter.ident.name ++ ": " ++ parameter.type.text
  match parameter.default with
  | some default => plain ++ " = " ++ default.raw
  | none => plain

end Parameter

/-- How a stored field gets its value. -/
inductive FieldInit where
  | parameter (parameter : Parameter)
  | value (ident : Ident) (value : String)
  deriving Inhabited

namespace FieldInit

/-- The field that gets a value. -/
def ident : FieldInit → Ident
  | parameter p => p.ident
  | value ident _ => ident

/-- The value the field is assigned, if it is not the parameter of its name. -/
def valueText? : FieldInit → Option String
  | parameter p => p.valueText?
  | value _ shown => some shown

/-- The assignment inside the struct value. -/
def assignment (init : FieldInit) : String :=
  match init.valueText? with
  | some shown => init.ident.name ++ ": " ++ shown
  | none => init.ident.name

/-- The parameter that supplies the field. -/
def parameter? : FieldInit → Option Parameter
  | parameter p => some p
  | value _ _ => none

end FieldInit

/-- The constructor to be generated. -/
structure Plan where
  /-- How far it can be seen. -/
  access : Access
  /-- Its stored fields in order. -/
  fields : List FieldInit
  deriving Inhabited

/-- How a member's field gets its value; nothing for a member that is not stored. -/
def Classified.fieldInit? (classified : Classified) : Option FieldInit :=
  match classified.role with
  | .parameter type default => some (.parameter ⟨classified.member.ident, type, default⟩)
  | .initialized type =>
    classified.member.options.initial.map fun value =>
      .value classified.member.ident (value.lower (some type))
  | .static _ | .computed _ => none

namespace Plan

/-- The plan for classified members. -/
def ofMembers (access : Access) (members : List Classified) : Plan :=
  ⟨access, members.filterMap Classified.fieldInit?⟩

/-- The parameters in order. -/
def parameters (plan : Plan) : List Parameter := plan.fields.filterMap FieldInit.parameter?

/-- So many parameters stand on the line of the name. -/
def lineLimit : Nat := 2

/-- The line or lines up to the opening brace. -/
def header (plan : Plan) : String :=
  let params := plan.parameters.map Parameter.text
  if params.length ≤ lineLimit then
    plan.access.keyword ++ " fn new(" ++ String.intercalate ", " params ++ ") -> Self \x7b\n"
  else
    plan.access.keyword ++ " fn new(\n" ++
      String.join (params.map fun param => "    " ++ param ++ ",\n") ++ ") -> Self \x7b\n"

/-- The lines with the struct value. -/
def body (plan : Plan) : String :=
  if plan.fields.isEmpty then "    Self \x7b\x7d\n"
  else
    "    Self \x7b\n" ++
      String.join (plan.fields.map fun field => "        " ++ field.assignment ++ ",\n") ++
      "    \x7d\n"

/-- The constructor as source text. -/
def render (plan : Plan) : String := plan.header ++ plan.body ++ "\x7d\n"

/-- The constructor in one line, as users see it. -/
def describe (plan : Plan) : String :=
  plan.access.keyword ++ " fn new(" ++
    String.intercalate ", " (plan.parameters.map Parameter.signature) ++ ")"

end Plan

/-- The plan of an analysed declaration. -/
def Analysis.plan (analysis : Analysis) : Plan :=
  .ofMembers analysis.directives.access analysis.members

/-- The plan of the constructor for a declaration and the arguments of its annotation. -/
def plan (args item : Tokens) : Except Fault Plan := Analysis.plan <$> analyze args item

end Fieldwise
