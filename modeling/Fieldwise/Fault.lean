import Fieldwise.Access
import Fieldwise.Text.Escape

/-!
# Faults

Everything that can keep a constructor from being generated, with the place a message points at, the
message itself, and a report that says what to do about it.
-/

namespace Fieldwise

open Fieldwise.Grammar

/-- Why a declaration cannot be expanded. -/
inductive Fault where
  /-- The arguments, the declaration or a generated piece of code is not well formed. -/
  | malformed (error : SyntaxError)
  /-- The declaration is no struct with named fields. -/
  | unsupported (pos : Pos)
  /-- The host type is confined to its module. -/
  | confinedHost (pos : Pos)
  /-- The constructor would be visible further than its type. -/
  | tooVisible (requested host : Access) (pos : Pos)
  /-- A member has no type, and no initial value that determines one. -/
  | untyped (member : String) (pos : Pos)
  /-- An excluded member has no initial value. -/
  | excludedWithoutValue (member : String) (pos : Pos)
  /-- A key names no member. -/
  | unknownKey (key : String) (pos : Pos)
  /-- A static member has no initial value. -/
  | staticWithoutValue (member : String) (pos : Pos)
  deriving DecidableEq, Inhabited

namespace Fault

/-- The place a message points at. -/
def pos : Fault → Pos
  | malformed error => error.pos
  | unsupported pos => pos
  | confinedHost pos => pos
  | tooVisible _ _ pos => pos
  | untyped _ pos => pos
  | excludedWithoutValue _ pos => pos
  | unknownKey _ pos => pos
  | staticWithoutValue _ pos => pos

/-- The message of a fault. -/
def message : Fault → String
  | malformed error => error.message
  | unsupported _ => "#[memberwise_init] can only be applied to a struct with named fields"
  | confinedHost _ => "#[memberwise_init] cannot be applied to a private type"
  | tooVisible requested host _ =>
    "cannot generate a " ++ requested.name ++ " constructor for a " ++ host.name ++ " type"
  | untyped member _ => "cannot infer the type of `" ++ member ++ "`"
  | excludedWithoutValue member _ => "cannot exclude `" ++ member ++ "`: it has no initial value"
  | unknownKey key _ => "no member named `" ++ key ++ "`"
  | staticWithoutValue member _ => "static member `" ++ member ++ "` has no initial value"

/-- What is wrong, in a heading. -/
def heading : Fault → String
  | malformed error => "Invalid attribute syntax: " ++ error.message
  | unsupported _ => "Unsupported declaration kind"
  | confinedHost _ => "Private host type"
  | tooVisible requested host _ =>
    "Cannot generate a " ++ requested.name ++ " constructor for a " ++ host.name ++ " type"
  | untyped member _ => "Cannot infer the type of `" ++ member ++ "`"
  | excludedWithoutValue member _ =>
    "Cannot exclude `" ++ member ++ "` because it has no initial value"
  | unknownKey key _ => "No member named `" ++ key ++ "`"
  | staticWithoutValue member _ => "Static member `" ++ member ++ "` has no initial value"

/-- What to do about a fault. -/
def suggestion : Fault → String
  | malformed _ => "Check the #[memberwise_init] and #[member] arguments."
  | unsupported _ => "Apply #[memberwise_init] to a struct with named fields."
  | confinedHost _ => "Declare the type `pub` or `pub(crate)`."
  | tooVisible _ _ _ => "Use `access = internal` or widen the type's visibility."
  | untyped _ _ =>
    "Replace `_` with an explicit type, or use a cast such as `init = 0 as u64`."
  | excludedWithoutValue _ _ => "Add #[member(init = ...)] or remove it from `exclude`."
  | unknownKey _ _ => "Check the spelling of the key in `exclude` or `defaults`."
  | staticWithoutValue _ _ => "Add #[member(init = ...)] to the static member."

/-- The report of a fault: what is wrong, and on the next line what to do. -/
def report (fault : Fault) : String :=
  fault.heading ++ "\nSuggestion: " ++ fault.suggestion

/-- The tokens that make a compiler show the message. -/
def compileError (fault : Fault) : Tokens :=
  let at_ := fault.pos
  Token.operator at_ [':', ':'] ++ [.ident "core" at_] ++ Token.operator at_ [':', ':'] ++
    [.ident "compile_error" at_, .punct '!' .alone at_,
      .group .brace [.literal (Text.quoteLiteral fault.message) at_] at_ at_]

end Fault

end Fieldwise
