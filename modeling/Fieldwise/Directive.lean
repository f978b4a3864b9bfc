import Fieldwise.Fault
import Fieldwise.Value

/-!
# Directives

The arguments of an annotation: `access`, `exclude` and `defaults`. Only their form is checked here.
Values of the wrong shape contribute nothing, and whether a key names a member is decided later. A later
`access` replaces an earlier one, a key is excluded once, and a later default of a key replaces the earlier
one in its place.
-/

namespace Fieldwise

open Fieldwise.Grammar

/-- A key of `exclude`. -/
structure Exclusion where
  /-- The member it names. -/
  key : String
  /-- Where it is written. -/
  pos : Pos
  deriving DecidableEq, Inhabited

/-- A default value. -/
structure Default where
  /-- The member it is for. -/
  key : String
  /-- The value as source text. -/
  raw : String
  /-- The value. -/
  value : Value
  /-- Where the key is written. -/
  pos : Pos
  deriving Inhabited

/-- What the arguments of an annotation ask for. -/
structure Directives where
  /-- The access level of the constructor. -/
  access : Access
  /-- Where the access level is asked for. -/
  accessPos : Pos
  /-- The members left out of the parameters, in the order of their first mention. -/
  excluded : List Exclusion
  /-- The default values, in the order of the first mention of their keys. -/
  defaults : List Default
  deriving Inhabited

/-- One argument of an annotation. -/
structure Directive where
  /-- Its name. -/
  name : Ident
  /-- Its value. -/
  value : Value
  deriving Inhabited

namespace Directives

/-- What no arguments ask for. -/
def initial : Directives := ⟨.exported, Pos.callSite, [], []⟩

/-- The exclusion of a member. -/
def excluded? (directives : Directives) (name : String) : Option Exclusion :=
  directives.excluded.find? fun exclusion => exclusion.key == name

/-- The default value of a member. -/
def default? (directives : Directives) (name : String) : Option Default :=
  directives.defaults.find? fun default => default.key == name

/-- Exclude a member; a second mention changes nothing. -/
def exclude (directives : Directives) (exclusion : Exclusion) : Directives :=
  if (directives.excluded? exclusion.key).isSome then directives
  else { directives with excluded := directives.excluded ++ [exclusion] }

/-- Put a default value in the place of an earlier one for the same key, or at the end. -/
def putDefault (new : Default) : List Default → List Default
  | [] => [new]
  | old :: rest => if old.key == new.key then new :: rest else old :: putDefault new rest

/-- Set the default value of a member. -/
def setDefault (directives : Directives) (default : Default) : Directives :=
  { directives with defaults := putDefault default directives.defaults }

end Directives

namespace Directive

open Fieldwise.Grammar.Parser

/-- The value of a text literal. -/
def textOf (literal : String) : String :=
  match Literal.kind literal with
  | .text value => value
  | _ => ""

/-- The last word at the top of some tokens. -/
def lastWord? (tokens : Tokens) : Option String :=
  (tokens.filterMap fun | .ident name _ => some name | _ => none).getLast?

/-- The access level that a value asks for, by its last word. -/
def accessOf (value : Value) : Access :=
  match lastWord? value.tokens with
  | some word => if ["internal", "Internal", "crate"].contains word then .internal else .exported
  | none => .exported

/-- The keys of an `exclude` value: the texts of a list. -/
def exclusions : Value → List Exclusion
  | .array elements => elements.filterMap fun
    | .text literal pos => some ⟨textOf literal, pos⟩
    | _ => none
  | _ => []

/-- The default values of a `defaults` value: the entries of a map whose keys are texts. -/
def defaults : Value → List Default
  | .map entries => entries.filterMap fun
    | (.text literal pos, value) => some ⟨textOf literal, value.source, value, pos⟩
    | _ => none
  | _ => []

/-- What a directive changes. An unknown one changes nothing. -/
def apply (directives : Directives) (directive : Directive) : Directives :=
  match directive.name.name with
  | "access" =>
    { directives with access := accessOf directive.value, accessPos := directive.name.pos }
  | "exclude" => (exclusions directive.value).foldl Directives.exclude directives
  | "defaults" => (defaults directive.value).foldl Directives.setDefault directives
  | _ => directives

/-- A directive: a word, an equals sign, and a value. -/
def parser (rules : Rules) : Parser Directive := do
  let name ← anyIdent
  let _ ← op "="
  return ⟨name, ← Value.parser rules⟩

/-- The directives in the arguments of an annotation. -/
def parseAll (args : Tokens) : Except SyntaxError (List Directive) :=
  parseWith (fun rules => Separated.items <$> terminated (parser rules)) args

end Directive

/-- What the arguments of an annotation ask for. -/
def Directives.resolve (args : Tokens) : Except Fault Directives :=
  match Directive.parseAll args with
  | .ok found => .ok (found.foldl Directive.apply .initial)
  | .error error => .error (.malformed error)

end Fieldwise
