import Fieldwise.Descriptor
import Fieldwise.Fault
import Fieldwise.Value

/-!
# The host declaration

The struct that is expanded, without the attributes that describe its members, and one record for each
field. The options of all member attributes of a field are taken together: the last value wins, and a mark
counts wherever it stands.
-/

namespace Fieldwise

open Fieldwise.Grammar

/-- What the attributes of a field say about its member. -/
structure MemberOptions where
  /-- The initial value. -/
  initial : Option Value
  /-- Whether it keeps its initial value. -/
  isConstant : Bool
  /-- Whether it belongs to the type rather than to its values. -/
  isStatic : Bool
  /-- The expression it is computed from. -/
  computed : Option Expr
  deriving Inhabited

/-- One option in a member attribute. -/
inductive MemberOption where
  | initial (value : Value)
  | constant
  | static
  | computed (value : Expr)

/-- A member of the host. -/
structure Member where
  /-- Its name. -/
  ident : Ident
  /-- The type it is declared with; nothing for the placeholder. -/
  explicit : Option Descriptor
  /-- What its attributes say. -/
  options : MemberOptions
  /-- Its own visibility. -/
  visibility : Visibility
  /-- Its place among the fields. -/
  index : Nat
  deriving Inhabited

namespace Member

/-- The name of a member. -/
def name (member : Member) : String := member.ident.name

end Member

/-- The struct that is expanded and its members in order. -/
structure Host where
  /-- The struct without member attributes. -/
  decl : Struct
  /-- The members. -/
  members : List Member
  deriving Inhabited

namespace MemberOptions

open Fieldwise.Grammar.Parser

/-- What a field without member attributes says. -/
def empty : MemberOptions := ⟨none, false, false, none⟩

/-- Take in one option. -/
def apply (options : MemberOptions) : MemberOption → MemberOptions
  | .initial value => { options with initial := some value }
  | .constant => { options with isConstant := true }
  | .static => { options with isStatic := true }
  | .computed value => { options with computed := some value }

/-- An option. -/
def optionParser (rules : Rules) : Parser MemberOption := do
  let name ← anyIdent
  match name.name with
  | "init" =>
    let _ ← op "="
    return .initial (← Value.parser rules)
  | "computed" =>
    let _ ← op "="
    return .computed (← rules.expr true)
  | "constant" => return .constant
  | "static" => return .static
  | other => failAt name.pos (.violated ("unknown member option `" ++ other ++ "`"))

/-- The name of the attribute that describes a member. -/
def attributeName : String := "member"

/-- Whether an attribute describes a member. -/
def describes (attr : Attribute) : Bool := attr.path.isWord attributeName

/-- Where the path of an attribute begins. -/
def pathPos (attr : Attribute) : Pos :=
  match attr.path.names with
  | name :: _ => name.pos
  | [] => attr.pos

/-- The options in a member attribute. -/
def parseAttribute (attr : Attribute) : Except SyntaxError (List MemberOption) :=
  match attr.value with
  | .word =>
    .error ⟨pathPos attr,
      .violated "expected attribute arguments in parentheses: #[member(...)]"⟩
  | .value equals _ => .error ⟨equals, .violated "expected parentheses: #[member(...)]"⟩
  | .list _ body _ closing =>
    Grammar.parseAll
      (Separated.items <$> terminated (optionParser (.forTokens body))) body closing

/-- The options of all member attributes among some. -/
def ofAttributes : List Attribute → MemberOptions → Except SyntaxError MemberOptions
  | [], options => .ok options
  | attr :: rest, options =>
    if describes attr then
      match parseAttribute attr with
      | .ok found => ofAttributes rest (found.foldl apply options)
      | .error error => .error error
    else ofAttributes rest options

end MemberOptions

/-- A field without its member attributes. -/
def Grammar.Field.stripped (field : Field) : Field :=
  { field with attrs := field.attrs.filter fun attr => !MemberOptions.describes attr }

/-- The member that a field declares, at its place among the fields. -/
def Member.ofField (index : Nat) (name : Ident) (field : Field) : Except SyntaxError Member :=
  match MemberOptions.ofAttributes field.attrs .empty with
  | .ok options =>
    .ok ⟨name, Descriptor.ofType? field.type, options, field.visibility, index⟩
  | .error error => .error error

/-- The members that fields declare, from a place on. -/
def Member.ofFields : Nat → List Field → Except SyntaxError (List Member)
  | _, [] => .ok []
  | index, field :: rest =>
    match field.ident with
    | none => ofFields (index + 1) rest
    | some name =>
      match Member.ofField index name field with
      | .error error => .error error
      | .ok member =>
        match ofFields (index + 1) rest with
        | .error error => .error error
        | .ok members => .ok (member :: members)

/-- The host that a struct declares. -/
def Host.ofStruct (decl : Struct) : Except Fault Host :=
  match decl.fields with
  | .named fields =>
    match Member.ofFields 0 fields.items with
    | .ok members =>
      .ok ⟨{ decl with fields := .named ⟨fields.items.map Field.stripped, fields.trailing⟩ },
        members⟩
    | .error error => .error (.malformed error)
  | _ => .ok ⟨decl, []⟩

/-- The name of the host. -/
def Host.name (host : Host) : String := host.decl.ident.name

end Fieldwise
