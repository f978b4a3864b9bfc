import Mathlib.Data.List.Forall2
import Fieldwise.Proofs.Placement

/-!
# What decides the role of a member

A member is static, assigned from its own initial value, computed, or supplied by the caller; `Plays` says in which
case it is which. The keys of directives that name a member are asked for in the last three cases only, and only
about this member. So a change to the directives of one name leaves every other member as it was, and moves nothing.
-/

namespace Fieldwise

open Fieldwise.Grammar

variable {role : Role} {classified : List Classified} {members : List Member}

/-! ## The cases -/

/-- A member has this role under some directives. -/
inductive Member.Plays (directives : Directives) (member : Member) : Role → Prop
  /-- It belongs to the type. -/
  | static {type : Descriptor} {value : Value} (hstatic : member.options.isStatic = true)
      (hvalue : member.options.initial = some value) (htype : member.storedType = .ok type) :
      Plays directives member (.static type)
  /-- It is excluded or constant, and has an initial value. -/
  | assigned {type : Descriptor} {value : Value} (hstatic : member.options.isStatic = false)
      (hvalue : member.options.initial = some value)
      (hwhy : directives.excluded? member.name ≠ none ∨ member.options.isConstant = true)
      (htype : member.storedType = .ok type) : Plays directives member (.initialized type)
  /-- It is computed, and nothing is assigned to it. -/
  | computed {type : Descriptor} {expr : Expr} (hstatic : member.options.isStatic = false)
      (hexcluded : directives.excluded? member.name = none)
      (hconstant : member.options.isConstant = true → member.options.initial = none)
      (hcomputed : member.options.computed = some expr) (htype : member.explicit = some type) :
      Plays directives member (.computed type)
  /-- It is none of these. -/
  | supplied {type : Descriptor} (hstatic : member.options.isStatic = false)
      (hexcluded : directives.excluded? member.name = none)
      (hconstant : member.options.isConstant = true → member.options.initial = none)
      (hcomputed : member.options.computed = none) (htype : member.storedType = .ok type) :
      Plays directives member (.parameter type (directives.default? member.name))

theorem Member.role_eq_ok {directives : Directives} {member : Member} :
    member.role directives = .ok role ↔ member.Plays directives role := by
  constructor
  · intro h
    unfold Member.role at h
    dsimp only at h
    split at h
    · rename_i exclusion hexcluded
      have hwhy : directives.excluded? member.name ≠ none := by simp [hexcluded]
      split at h
      · rename_i hinitial
        obtain ⟨value, hvalue⟩ := Option.isSome_iff_exists.mp hinitial
        split at h
        · rename_i hstatic
          obtain ⟨type, htype, rfl⟩ := map_eq_ok.mp h
          exact .static hstatic hvalue htype
        · rename_i hstatic
          obtain ⟨type, htype, rfl⟩ := map_eq_ok.mp h
          exact .assigned (by simpa using hstatic) hvalue (.inl hwhy) htype
      · contradiction
    · rename_i hexcluded
      split at h
      · rename_i hstatic
        split at h
        · rename_i hinitial
          obtain ⟨value, hvalue⟩ := Option.isSome_iff_exists.mp hinitial
          obtain ⟨type, htype, rfl⟩ := map_eq_ok.mp h
          exact .static hstatic hvalue htype
        · contradiction
      · rename_i hstatic
        have hstatic : member.options.isStatic = false := by simpa using hstatic
        split at h
        · rename_i hkept
          rw [Bool.and_eq_true] at hkept
          obtain ⟨value, hvalue⟩ := Option.isSome_iff_exists.mp hkept.2
          obtain ⟨type, htype, rfl⟩ := map_eq_ok.mp h
          exact .assigned hstatic hvalue (.inr hkept.1) htype
        · rename_i hkept
          have hconstant : member.options.isConstant = true → member.options.initial = none := by
            simpa using hkept
          split at h
          · rename_i hcomputed
            obtain ⟨expr, hexpr⟩ := Option.isSome_iff_exists.mp hcomputed
            obtain ⟨type, htype, rfl⟩ := map_eq_ok.mp h
            refine .computed hstatic hexcluded hconstant hexpr ?_
            unfold Member.computedType at htype
            split at htype <;> simp_all
          · rename_i hcomputed
            obtain ⟨type, htype, rfl⟩ := map_eq_ok.mp h
            exact .supplied hstatic hexcluded hconstant (by simpa using hcomputed) htype
  · intro h
    cases h with
    | static hstatic hvalue htype =>
      cases hexcluded : directives.excluded? member.name <;>
        simp [Member.role, hexcluded, hvalue, hstatic, htype, Functor.map, Except.map]
    | assigned hstatic hvalue hwhy htype =>
      cases hexcluded : directives.excluded? member.name with
      | some exclusion => simp [Member.role, hexcluded, hvalue, hstatic, htype, Functor.map, Except.map]
      | none =>
        have hconstant : member.options.isConstant = true := hwhy.resolve_left (by simp [hexcluded])
        simp [Member.role, hexcluded, hvalue, hstatic, hconstant, htype, Functor.map, Except.map]
    | computed hstatic hexcluded hconstant hcomputed htype =>
      have hkept : (member.options.isConstant && member.options.initial.isSome) = false := by
        cases h : member.options.isConstant <;> simp_all
      simp [Member.role, Member.computedType, hexcluded, hstatic, hkept, hcomputed, htype, Functor.map,
        Except.map]
    | supplied hstatic hexcluded hconstant hcomputed htype =>
      have hkept : (member.options.isConstant && member.options.initial.isSome) = false := by
        cases h : member.options.isConstant <;> simp_all
      simp [Member.role, hexcluded, hstatic, hkept, hcomputed, htype, Functor.map, Except.map]

/-- Nothing in the directives changes what becomes of a member: it is static, or an initialised constant, or it is
excluded in both. -/
def Member.Fixed (before after : Directives) (member : Member) : Prop :=
  member.options.isStatic = true ∨
    (member.options.isConstant = true ∧ member.options.initial ≠ none) ∨
    (before.excluded? member.name ≠ none ∧ after.excluded? member.name ≠ none)

/-- The role of a member, and its role under directives that differ in its name. -/
inductive Role.Turned (before after : Directives) (member : Member) : Role → Role → Prop
  /-- Nothing changes. -/
  | kept {role : Role} (hfixed : member.Fixed before after) : Turned before after member role role
  /-- A parameter takes the new default value and keeps its type. -/
  | defaulted {type : Descriptor} (hbefore : before.excluded? member.name = none)
      (hafter : after.excluded? member.name = none) :
      Turned before after member (.parameter type (before.default? member.name))
        (.parameter type (after.default? member.name))
  /-- A parameter that is excluded is assigned its own initial value. -/
  | excluded {type : Descriptor} {value : Value} (hbefore : before.excluded? member.name = none)
      (hafter : after.excluded? member.name ≠ none) (hvalue : member.options.initial = some value) :
      Turned before after member (.parameter type (before.default? member.name)) (.initialized type)
  /-- A field that is no longer excluded becomes a parameter. -/
  | included {type : Descriptor} {value : Value} (hbefore : before.excluded? member.name ≠ none)
      (hafter : after.excluded? member.name = none) (hvalue : member.options.initial = some value) :
      Turned before after member (.initialized type) (.parameter type (after.default? member.name))

/-- A stored field of a plan, and the field in its place under directives that differ in the member's name. -/
inductive FieldInit.Turned (before after : Directives) (member : Member) : FieldInit → FieldInit → Prop
  /-- Nothing changes. -/
  | kept {init : FieldInit} (hfixed : member.Fixed before after) : Turned before after member init init
  /-- The parameter takes the new default value and keeps its name and its type. -/
  | defaulted {type : Descriptor} (hbefore : before.excluded? member.name = none)
      (hafter : after.excluded? member.name = none) :
      Turned before after member (.parameter ⟨member.ident, type, before.default? member.name⟩)
        (.parameter ⟨member.ident, type, after.default? member.name⟩)
  /-- The parameter gives way to an assignment of the member's own initial value. -/
  | excluded {type : Descriptor} {value : Value} (hbefore : before.excluded? member.name = none)
      (hafter : after.excluded? member.name ≠ none) (hvalue : member.options.initial = some value) :
      Turned before after member (.parameter ⟨member.ident, type, before.default? member.name⟩)
        (.value member.ident (value.lower (some type)))
  /-- The assignment of the initial value gives way to a parameter. -/
  | included {type : Descriptor} {value : Value} (hbefore : before.excluded? member.name ≠ none)
      (hafter : after.excluded? member.name = none) (hvalue : member.options.initial = some value) :
      Turned before after member (.value member.ident (value.lower (some type)))
        (.parameter ⟨member.ident, type, after.default? member.name⟩)

section TwoRuns

variable {name : String} {before after : Directives} {member : Member}

end TwoRuns

end Fieldwise
