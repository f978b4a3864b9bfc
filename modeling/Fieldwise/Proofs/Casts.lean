import Fieldwise.Lowering

/-!
# Casts and the types they determine

A cast determines the type it names, and a conditional one the optional type over it. Written for that type, a
conditional cast is the conversion itself. An unconditional one is the cast itself unless the named type is read
as an optional one: then it is wrapped once for every optional layer of that type, although it has the type
already, and the expression gets as many layers too many.
-/

namespace Fieldwise

open Fieldwise.Grammar

/-! ## Types that are read as optional -/

/-- The type that an argument is, if it is one. -/
def Grammar.GenericArg.type? : GenericArg → Option Ty
  | .type found => some found
  | _ => none

/-- The type inside an optional type: the only one among the arguments of a path that ends in `Option`. -/
def Grammar.Ty.optionInner? : Ty → Option Ty
  | .path _ segments =>
    match segments.getLast? with
    | some (.mk name (.angle _ items _)) =>
      match name.name, items.filterMap GenericArg.type? with
      | "Option", [inner] => some inner
      | _, _ => none
    | _ => none
  | _ => none

/-- Whether a text is read as an optional type. -/
def readsAsOption (shown : String) : Bool :=
  (parseText parseType shown).toOption.any fun type => type.optionInner?.isSome

namespace Descriptor

/-- The structures of arguments are those of the types among them. -/
theorem itemShapes_eq (items : List GenericArg) :
    itemShapes leaf items = (items.filterMap GenericArg.type?).map fun type =>
      (shapeOf? type).getD (leaf type) := by
  induction items with
  | nil => simp [itemShapes]
  | cons item rest ih =>
    rw [itemShapes, ih]
    cases item with
    | type found => rfl
    | _ =>
      rw [List.filterMap_cons_none rfl]
      rfl

/-- The last segment of a path decides about its structure. -/
theorem lastShape?_eq (segments : List Segment) :
    lastShape? leaf segments = segments.getLast?.bind (segmentShape? leaf) := by
  induction segments with
  | nil => simp [lastShape?]
  | cons first rest ih =>
    cases rest with
    | nil => simp [lastShape?]
    | cons second others =>
      rw [lastShape?, ih, List.getLast?_cons_cons]
      simp

/-- A container with arguments is optional just under its one name, with one argument. -/
theorem container?_eq_optional {name : String} {args : List Descriptor} {inner : Descriptor} :
    container? name args = some (optional inner) ↔ name = "Option" ∧ args = [inner] := by
  unfold container?
  split <;> simp_all [string]

/-- The structure of a type is optional exactly when the type is a path that ends in `Option` with one type among
its arguments. -/
theorem shapeOf?_eq_optional (type : Ty) :
    (∃ inner, shapeOf? type = some (optional inner)) ↔ type.optionInner?.isSome = true := by
  cases type with
  | path rooted segments =>
    rw [shapeOf?_path, lastShape?_eq, Ty.optionInner?]
    cases hlast : segments.getLast? with
    | none => simp
    | some last =>
      obtain ⟨name, args⟩ := last
      cases args with
      | none => simp [segmentShape?, argShapes?, container?_eq_optional]
      | call inputs trailing output => simp [segmentShape?, argShapes?]
      | angle turbofish items trailing =>
        simp only [Option.bind_some, segmentShape?, argShapes?, container?_eq_optional,
          itemShapes_eq]
        split
        · rename_i inner hname hinner
          simp [hname, hinner]
        · rename_i hother
          simp only [Option.isSome_none, Bool.false_eq_true, iff_false, not_exists, not_and]
          intro inner hname hinner
          obtain ⟨type, htype, -⟩ := List.map_eq_singleton_iff.mp hinner
          exact hother type hname htype
  | _ => simp [shapeOf?, shapeWith?, Ty.optionInner?]

/-- A name has optional layers exactly when it is read as an optional type. -/
theorem layers_shape_eq_zero (shown : String) :
    (shape (named shown)).layers = 0 ↔ readsAsOption shown = false := by
  have hlayers : ∀ descriptor : Descriptor,
      descriptor.layers = 0 ↔ ∀ inner, descriptor ≠ optional inner := by
    intro descriptor
    cases descriptor <;> simp [layers]
  rw [hlayers, readsAsOption, shape_named]
  cases hparse : parseText parseType shown with
  | error error => simp [Except.toOption]
  | ok type =>
    have hoption := shapeOf?_eq_optional type
    cases hshape : shapeOf? type with
    | none => simpa [Except.toOption, hshape] using hoption
    | some found =>
      rw [hshape] at hoption
      simp only [Option.some.injEq] at hoption
      simp only [hshape, Option.getD_some, Except.toOption, Option.any_some, ne_eq]
      rw [← Bool.not_eq_true, ← hoption, not_exists]

end Descriptor

/-! ## The expressions of casts -/

/-- The expressions that casts are written as. -/
inductive Conversion where
  /-- An operand cast to a type. -/
  | cast (operand type : String)
  /-- An operand converted to a type, if it can be. -/
  | attempt (operand type : String)
  /-- A present value. -/
  | some (inner : Conversion)

namespace Conversion

/-- An expression as source text. -/
def text : Conversion → String
  | cast operand type => "(" ++ operand ++ " as " ++ type ++ ")"
  | attempt operand type =>
    "<" ++ type ++ " as ::std::convert::TryFrom<_>>::try_from(" ++ operand ++ ").ok()"
  | some inner => "Some(" ++ inner.text ++ ")"

/-- The type of an expression. -/
def type : Conversion → Descriptor
  | cast _ type => .named type
  | attempt _ type => .optional (.named type)
  | some inner => .optional inner.type

/-- An expression wrapped so many times as a present value. -/
def wrapped : Nat → Conversion → Conversion
  | 0, conversion => conversion
  | n + 1, conversion => some (wrapped n conversion)

theorem text_wrapped (n : Nat) (conversion : Conversion) :
    (wrapped n conversion).text = Value.present n conversion.text := by
  induction n with
  | zero => rfl
  | succ n ih => rw [wrapped, text, ih, Value.present]

/-- Every wrapping adds an optional layer to the type. -/
theorem layers_type_wrapped (n : Nat) (conversion : Conversion) :
    (wrapped n conversion).type.layers = conversion.type.layers + n := by
  induction n with
  | zero => rfl
  | succ n ih =>
    rw [wrapped, type, Descriptor.layers, ih]
    omega

/-- Only an expression that is not wrapped keeps its type. -/
theorem type_wrapped_eq (n : Nat) (conversion : Conversion) :
    (wrapped n conversion).type = conversion.type ↔ n = 0 := by
  constructor
  · intro h
    have hlayers := layers_type_wrapped n conversion
    rw [h] at hlayers
    omega
  · rintro rfl
    rfl

end Conversion

namespace Value

theorem length_present (n : Nat) (shown : String) :
    (present n shown).toList.length = shown.toList.length + 6 * n := by
  induction n with
  | zero => rfl
  | succ n ih =>
    simp only [present, String.toList_append, List.length_append, ih]
    have hopen : "Some(".toList.length = 5 := by decide
    have hclose : ")".toList.length = 1 := by decide
    omega

/-- Only an expression that is not wrapped stays as it is. -/
theorem present_eq_self (n : Nat) (shown : String) : present n shown = shown ↔ n = 0 := by
  constructor
  · intro h
    have hlength := length_present n shown
    rw [h] at hlength
    omega
  · rintro rfl
    rfl

/-- The cast of an operand that is written without a type of its own in view. -/
def asCast (operand : Value) (type : Ty) : Conversion :=
  .cast (operand.lower none) (Tokens.text type.tokens)

/-- The conversion of an operand that is written without a type of its own in view. -/
def asAttempt (operand : Value) (type : Ty) : Conversion :=
  .attempt (operand.lower none) (Tokens.text type.tokens)

section Cast

variable (operand : Value) (type : Ty)

theorem infer_cast (h : type ≠ .infer) :
    infer (cast operand type false) = some (asCast operand type).type ∧
      infer (cast operand type true) = some (asAttempt operand type).type := by
  cases type with
  | infer => exact absurd rfl h
  | _ => exact ⟨rfl, rfl⟩

/-- Whatever type is asked for, a conditional cast is the conversion itself. -/
theorem lower_conditional (target : Option Descriptor) :
    lower (cast operand type true) target = (asAttempt operand type).text := rfl

/-- Without a type in view, a cast is the cast itself. -/
theorem lower_cast_none : lower (cast operand type false) none = (asCast operand type).text := rfl

/-- A cast is wrapped once for every optional layer that its own type is read with. -/
theorem lower_cast_own :
    lower (cast operand type false) (some (asCast operand type).type) =
      (Conversion.wrapped (Descriptor.shape (asCast operand type).type).layers
        (asCast operand type)).text := by
  rw [Conversion.text_wrapped]
  rfl

end Cast

/-- A cast to a type other than the placeholder determines that type, and a conditional one the optional type over
it. Written for the type that it determines, a conditional cast is the conversion itself and so has that type; so
does a cast with no type in view, as the operand of another cast is. An unconditional cast is wrapped as often as
its type is read with optional layers: it is the cast itself, and has the type that it determines, exactly when its
type is not read as an optional one. -/
theorem cast_lowered_for_own_type (operand : Value) (type : Ty) (htype : type ≠ .infer) :
    (infer (cast operand type true) = some (.optional (.named (Tokens.text type.tokens))) ∧
        lower (cast operand type true) (infer (cast operand type true)) =
          (asAttempt operand type).text ∧
        some (asAttempt operand type).type = infer (cast operand type true)) ∧
      lower (cast operand type false) none = (asCast operand type).text ∧
      infer (cast operand type false) = some (.named (Tokens.text type.tokens)) ∧
      lower (cast operand type false) (infer (cast operand type false)) =
        (Conversion.wrapped (Descriptor.named (Tokens.text type.tokens)).shape.layers
          (asCast operand type)).text ∧
      (lower (cast operand type false) (infer (cast operand type false)) =
          (asCast operand type).text ↔
        readsAsOption (Tokens.text type.tokens) = false) ∧
      (some (Conversion.wrapped (Descriptor.named (Tokens.text type.tokens)).shape.layers
          (asCast operand type)).type = infer (cast operand type false) ↔
        readsAsOption (Tokens.text type.tokens) = false) := by
  obtain ⟨hcast, hattempt⟩ := infer_cast operand type htype
  have hread := Descriptor.layers_shape_eq_zero (Tokens.text type.tokens)
  have hlower := lower_cast_own operand type
  refine ⟨⟨hattempt, lower_conditional operand type _, hattempt.symm⟩,
    lower_cast_none operand type, hcast, ?_⟩
  rw [hcast]
  refine ⟨hlower, ?_, ?_⟩
  · rw [hlower, Conversion.text_wrapped, present_eq_self]
    exact hread
  · rw [Option.some.injEq, Conversion.type_wrapped_eq]
    exact hread

/-- The optional type over bytes. -/
def optionalByte : Ty :=
  .path false [.mk ⟨"Option", .callSite⟩
    (.angle false [.type (.path false [.mk ⟨"u8", .callSite⟩ .none])] false)]

/-- An absent value cast to an optional type is wrapped although it has that type, and as the operand of a
conversion it is not. -/
theorem absent_cast_wrapped :
    lower (cast absent optionalByte false) (infer (cast absent optionalByte false)) =
        "Some((None as Option<u8>))" ∧
      (asCast absent optionalByte).text = "(None as Option<u8>)" ∧
      lower (cast (cast absent optionalByte false) optionalByte true)
          (infer (cast (cast absent optionalByte false) optionalByte true)) =
        "<Option<u8> as ::std::convert::TryFrom<_>>::try_from((None as Option<u8>)).ok()" := by
  have htype : optionalByte ≠ .infer := Ty.noConfusion
  obtain ⟨-, -, -, hlower, -⟩ := cast_lowered_for_own_type absent optionalByte htype
  obtain ⟨⟨-, hattempt, -⟩, -⟩ :=
    cast_lowered_for_own_type (cast absent optionalByte false) optionalByte htype
  rw [hlower, hattempt]
  decide +kernel

end Value

end Fieldwise
