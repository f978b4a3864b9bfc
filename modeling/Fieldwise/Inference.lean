import Fieldwise.Descriptor
import Fieldwise.Value

/-!
# Types of values

The type that a value determines on its own. A suffix decides the type of a number; without one whole
numbers and fractions have a type of their own. An absent value has no type, but makes the elements or the
values around it optional. An element list takes its type from its first element, a map from its first entry
whose value is present.
-/

namespace Fieldwise

open Fieldwise.Grammar

namespace Value

/-- The suffix of a number. -/
def suffix (literal : String) : String :=
  match Literal.numberKind literal.toList with
  | .whole suffix => suffix
  | .fraction suffix => suffix
  | _ => ""

/-- The type of a number: its suffix, or the given type without one. -/
def numberType (literal : String) (plain : Descriptor) : Descriptor :=
  if suffix literal == "" then plain else .named (suffix literal)

/-- The type that a cast gives; the placeholder gives none. -/
def castType? (type : Ty) (conditional : Bool) : Option Descriptor :=
  match type with
  | .infer => none
  | _ =>
    let named := Descriptor.named (Tokens.text type.tokens)
    some (if conditional then .optionally named else named)

/-- Make a type optional if asked. -/
def optionalIf (asked : Bool) (type : Descriptor) : Descriptor :=
  if asked then .optionally type else type

mutual

/-- The type of a value, if it determines one. -/
def infer : Value → Option Descriptor
  | bool _ => some .bool
  | text _ _ => some .string
  | char _ => some .char
  | whole _ literal => some (numberType literal .int)
  | fraction _ literal => some (numberType literal .double)
  | absent => none
  | array elements =>
    (inferFirst elements).map fun element =>
      .array (optionalIf (elements.any isAbsent) element)
  | map entries =>
    (inferPresent entries).map fun (key, value) =>
      .map key (optionalIf (entries.any fun entry => entry.2.isAbsent) value)
  | cast _ type conditional => castType? type conditional
  | other _ => none

/-- The type of the first of several values. -/
def inferFirst : List Value → Option Descriptor
  | [] => none
  | value :: _ => value.infer

/-- The types of the first entry whose value is present. -/
def inferPresent : List (Value × Value) → Option (Descriptor × Descriptor)
  | [] => none
  | (key, value) :: rest =>
    if value.isAbsent then inferPresent rest
    else
      match key.infer, value.infer with
      | some keyType, some valueType => some (keyType, valueType)
      | _, _ => none

end

end Value

end Fieldwise
