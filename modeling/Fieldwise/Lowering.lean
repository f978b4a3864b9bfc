import Fieldwise.Inference

/-!
# Values as expressions

A value becomes an expression of a given type: a present value of an optional type is wrapped, a text of
the owned text type is converted, a list becomes a vector, and a map is collected from its entries. A type
that is only known by its name is first read for its container structure, at every depth.
-/

namespace Fieldwise

open Fieldwise.Grammar

namespace Descriptor

/-- A descriptor with the container structure of every name in it. -/
def resolve : Descriptor → Descriptor
  | named name => shape (named name)
  | array element => array element.resolve
  | map key value => map key.resolve value.resolve
  | optional inner => optional inner.resolve
  | callable shown bounds escapes => callable shown bounds escapes

/-- How many optional layers a descriptor has on its outside. -/
def layers : Descriptor → Nat
  | optional inner => inner.layers + 1
  | _ => 0

/-- A descriptor without its outer optional layers. -/
def core : Descriptor → Descriptor
  | optional inner => inner.core
  | other => other

end Descriptor

namespace Value

/-- An expression wrapped so many times as a present value. -/
def present : Nat → String → String
  | 0, shown => shown
  | n + 1, shown => "Some(" ++ present n shown ++ ")"

/-- The conversion of an expression that may fail. -/
def attempted (type shown : String) : String :=
  "<" ++ type ++ " as ::std::convert::TryFrom<_>>::try_from(" ++ shown ++ ").ok()"

/-- A map collected from its entries. -/
def collected (shown : List String) : String :=
  "::std::iter::FromIterator::from_iter([" ++ String.intercalate ", " shown ++ "])"

/-- The element type of a vector. -/
def elementOf? : Option Descriptor → Option Descriptor
  | some (.array element) => some element
  | _ => none

/-- The key type of a map. -/
def keyOf? : Option Descriptor → Option Descriptor
  | some (.map key _) => some key
  | _ => none

/-- The value type of a map. -/
def valueOf? : Option Descriptor → Option Descriptor
  | some (.map _ value) => some value
  | _ => none

/-- How many optional layers a target has; none without a target. -/
def layersOf (target : Option Descriptor) : Nat := (target.map Descriptor.layers).getD 0

/-- A target without its optional layers. -/
def coreOf (target : Option Descriptor) : Option Descriptor := target.map Descriptor.core

mutual

/-- A value as an expression of a type whose names are resolved. Layers of optional types wrap every
value but an absent one and a conversion that may fail, which is optional itself. -/
def fit (target : Option Descriptor) : Value → String
  | absent => "None"
  | cast value type true => attempted (Tokens.text type.tokens) (fit none value)
  | cast value type false =>
    present (layersOf target) ("(" ++ fit none value ++ " as " ++ Tokens.text type.tokens ++ ")")
  | text literal pos =>
    present (layersOf target)
      (if coreOf target = some .string then
        "::std::string::String::from(" ++ (text literal pos).source ++ ")"
      else (text literal pos).source)
  | array elements =>
    present (layersOf target)
      (match elementOf? (coreOf target) with
        | some element =>
          "vec![" ++ String.intercalate ", " (fitAll (some element) elements) ++ "]"
        | none => "[" ++ String.intercalate ", " (fitAll none elements) ++ "]")
  | map entries =>
    present (layersOf target)
      (collected (fitEntries (keyOf? (coreOf target)) (valueOf? (coreOf target)) entries))
  | bool value => present (layersOf target) (bool value).source
  | char literal => present (layersOf target) (char literal).source
  | whole negative literal => present (layersOf target) (whole negative literal).source
  | fraction negative literal => present (layersOf target) (fraction negative literal).source
  | other tokens => present (layersOf target) (other tokens).source

/-- Each of several values as an expression. -/
def fitAll (target : Option Descriptor) : List Value → List String
  | [] => []
  | value :: rest => fit target value :: fitAll target rest

/-- Each of several entries as a pair of expressions. -/
def fitEntries (key value : Option Descriptor) : List (Value × Value) → List String
  | [] => []
  | (k, v) :: rest => ("(" ++ fit key k ++ ", " ++ fit value v ++ ")") :: fitEntries key value rest

end

/-- A value as an expression, of the target type if there is one. -/
def lower (value : Value) (target : Option Descriptor) : String :=
  fit (target.map Descriptor.resolve) value

end Value

end Fieldwise
