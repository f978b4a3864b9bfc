import Fieldwise.Analysis
import Fieldwise.Proofs.Outcome

/-!
# Hosts, members and roles

A host is a struct; its fields give a member for each named field, and the directives give a role to each
member. Each of these steps says exactly when it fails, by the first attribute, field or member that
something is wrong with.
-/

namespace Fieldwise

open Fieldwise.Grammar

variable {directives : Directives} {fault : Fault} {decl : Struct} {member : Member} {members : List Member}
  {error : SyntaxError}

/-! ## The host -/

theorem hostStruct_eq_ok {found : Item} (h : hostStruct found = .ok decl) : found = .struct decl := by
  unfold hostStruct at h
  split at h
  · split at h <;> cases h <;> rfl
  · simp at h

theorem readHost_eq_ok {item : Tokens} (h : readHost directives item = .ok decl) :
    parseItem item = .ok (.struct decl) := by
  unfold readHost at h
  split at h
  · simp at h
  · rename_i found hfound
    obtain ⟨kind, hkind, h⟩ := bind_eq_ok.mp h
    obtain ⟨-, -, h⟩ := bind_eq_ok.mp h
    cases h
    rw [hfound, hostStruct_eq_ok hkind]

/-- A host is read from a struct without a tuple, that can be seen outside its module and at least as far as the
access level that is asked for. -/
theorem readHost_eq_ok_iff {item : Tokens} :
    readHost directives item = .ok decl ↔
      parseItem item = .ok (.struct decl) ∧ (∀ fields, decl.fields ≠ .tuple fields) ∧
        Access.ofVisibility decl.visibility ≠ .confined ∧
        ¬Access.ofVisibility decl.visibility < directives.access := by
  have hkind : hostStruct (.struct decl) = .ok decl ↔ ∀ fields, decl.fields ≠ .tuple fields := by
    unfold hostStruct
    cases hfields : decl.fields <;> simp [hfields]
  have haccess : (∃ access, hostAccess decl directives = .ok access) ↔
      Access.ofVisibility decl.visibility ≠ .confined ∧
        ¬Access.ofVisibility decl.visibility < directives.access := by
    unfold hostAccess
    dsimp only
    split
    · simp_all
    · split <;> simp_all
  rw [← hkind, ← haccess]
  constructor
  · intro h
    have hparse := readHost_eq_ok h
    unfold readHost at h
    rw [hparse] at h
    obtain ⟨found, hfound, h⟩ := bind_eq_ok.mp h
    obtain ⟨access, haccess, h⟩ := bind_eq_ok.mp h
    cases h
    exact ⟨hparse, hfound, access, haccess⟩
  · rintro ⟨hparse, hfound, access, haccess⟩
    unfold readHost
    rw [hparse]
    exact bind_eq_ok.mpr ⟨decl, hfound, bind_eq_ok.mpr ⟨access, haccess, rfl⟩⟩

/-! ## Members of a host -/

/-- The members that fields with names declare have those names, in order. -/
theorem ofFields_idents {fields : List Field} {index : Nat}
    (hnamed : ∀ field ∈ fields, ∃ name, field.ident = some name) (h : Member.ofFields index fields = .ok members) :
    fields.map Field.ident = members.map fun member => some member.ident := by
  induction fields generalizing index members with
  | nil =>
    simp only [Member.ofFields, Except.ok.injEq] at h
    subst h
    rfl
  | cons field rest ih =>
    rw [List.forall_mem_cons] at hnamed
    obtain ⟨⟨name, hname⟩, hrest⟩ := hnamed
    simp only [Member.ofFields, hname] at h
    split at h
    · simp at h
    · rename_i member hmember
      split at h
      · simp at h
      · rename_i found hfound
        cases h
        have hident : member.ident = name := by
          unfold Member.ofField at hmember
          split at hmember
          · cases hmember
            rfl
          · simp at hmember
        simp [hname, hident, ih hrest hfound]

/-- A host has a member for every named field, with its name and in its place. -/
theorem ofStruct_idents {host : Host} (hnamed : ∀ field ∈ decl.namedFields, ∃ name, field.ident = some name)
    (h : Host.ofStruct decl = .ok host) :
    decl.namedFields.map Field.ident = host.members.map (fun member => some member.ident) ∧
      host.decl.namedFields.map Field.ident = decl.namedFields.map Field.ident := by
  unfold Host.ofStruct at h
  unfold Struct.namedFields at hnamed ⊢
  split at h
  · rename_i fields hfields
    split at h
    · rename_i members hmembers
      cases h
      simp only [hfields] at hnamed ⊢
      refine ⟨ofFields_idents hnamed hmembers, ?_⟩
      simp [Grammar.Field.stripped]
    · simp at h
  · cases h
    simp

/-- The names of the members are the names of the fields. -/
theorem ofStruct_names {host : Host} (hnamed : ∀ field ∈ decl.namedFields, ∃ name, field.ident = some name)
    (h : Host.ofStruct decl = .ok host) : host.members.map Member.name = decl.fieldNames := by
  have hidents := congrArg (List.filterMap fun ident => ident.map Ident.name)
    (ofStruct_idents hnamed h).1
  simp only [List.filterMap_map, Function.comp_def, Option.map_some] at hidents
  rw [Struct.fieldNames, hidents]
  exact (congrFun List.filterMap_eq_map' host.members).symm

/-- A member attribute that is not well formed. -/
def Grammar.Attribute.Refused (attr : Attribute) (error : SyntaxError) : Prop :=
  MemberOptions.describes attr = true ∧ MemberOptions.parseAttribute attr = .error error

/-- A field with a member attribute that is not well formed, the first one if there are several. -/
def Grammar.Field.Refused (field : Field) (error : SyntaxError) : Prop :=
  First Attribute.Refused field.attrs error

/-- The options of attributes fail with the first member attribute that is not well formed. -/
theorem ofAttributes_eq_error {attrs : List Attribute} (options : MemberOptions) :
    MemberOptions.ofAttributes attrs options = .error error ↔
      First Attribute.Refused attrs error := by
  induction attrs generalizing options with
  | nil => simp [MemberOptions.ofAttributes]
  | cons attr rest ih =>
    rw [first_cons]
    by_cases hattr : MemberOptions.describes attr = true
    · cases hparse : MemberOptions.parseAttribute attr with
      | error e => simp [MemberOptions.ofAttributes, Attribute.Refused, hattr, hparse]
      | ok found => simp [MemberOptions.ofAttributes, Attribute.Refused, hattr, hparse, ih]
    · simp [MemberOptions.ofAttributes, Attribute.Refused, hattr, ih]

/-- A field fails with its first member attribute that is not well formed. -/
theorem ofField_eq_error (index : Nat) (name : Ident) {field : Field} :
    Member.ofField index name field = .error error ↔ field.Refused error := by
  rw [Field.Refused, ← ofAttributes_eq_error .empty]
  unfold Member.ofField
  split <;> simp_all

/-- The members of fields fail with the first field that is not well formed. -/
theorem ofFields_eq_error (index : Nat) {fields : List Field}
    (hnamed : ∀ field ∈ fields, ∃ name, field.ident = some name) :
    Member.ofFields index fields = .error error ↔ First Field.Refused fields error := by
  induction fields generalizing index with
  | nil => simp [Member.ofFields]
  | cons field rest ih =>
    rw [List.forall_mem_cons] at hnamed
    obtain ⟨⟨name, hname⟩, hrest⟩ := hnamed
    simp only [first_cons, ← ofField_eq_error index name, ← ih (index + 1) hrest, Member.ofFields,
      hname]
    cases hfield : Member.ofField index name field with
    | error e => simp
    | ok member => cases hmore : Member.ofFields (index + 1) rest <;> simp

/-- A host fails with the first field that is not well formed. -/
theorem ofStruct_eq_error (hnamed : ∀ field ∈ decl.namedFields, ∃ name, field.ident = some name) :
    Host.ofStruct decl = .error fault ↔
      ∃ error, First Field.Refused decl.namedFields error ∧ fault = .malformed error := by
  unfold Host.ofStruct
  unfold Struct.namedFields at hnamed ⊢
  split
  · rename_i fields hfields
    simp only [hfields] at hnamed ⊢
    simp only [← ofFields_eq_error 0 hnamed]
    cases hmembers : Member.ofFields 0 fields.items <;> simp [eq_comm]
  · simp

/-! ## Roles of members -/

/-- Classification keeps the members in order and gives each one its own role. -/
theorem classify_ok {classified : List Classified} (h : classify directives members = .ok classified) :
    classified.map Classified.member = members ∧
      ∀ entry ∈ classified, entry.member.role directives = .ok entry.role := by
  induction members generalizing classified with
  | nil =>
    simp only [classify, Except.ok.injEq] at h
    subst h
    simp
  | cons member rest ih =>
    simp only [classify] at h
    split at h
    · simp at h
    · rename_i role hrole
      split at h
      · simp at h
      · rename_i found hfound
        cases h
        obtain ⟨hmembers, hroles⟩ := ih hfound
        refine ⟨by simp [hmembers], ?_⟩
        rw [List.forall_mem_cons]
        exact ⟨hrole, hroles⟩

theorem initial_of_initialized {type : Descriptor} (h : member.role directives = .ok (.initialized type)) :
    ∃ value, member.options.initial = some value := by
  cases hinitial : member.options.initial with
  | some value => exact ⟨value, rfl⟩
  | none =>
    -- Without an initial value every branch fails or gives another role.
    exfalso
    unfold Member.role at h
    simp only [hinitial, Option.isSome_none, Bool.and_false, Bool.false_eq_true, if_false] at h
    split at h
    · simp at h
    · split at h
      · simp at h
      · split at h
        · simp [map_eq_ok] at h
        · simp [map_eq_ok] at h

/-- A member is declared without a type, and no initial value determines one. -/
def Member.Untyped (member : Member) : Prop :=
  member.explicit = none ∧ ∀ value, member.options.initial = some value → value.infer = none

/-- A member has no role under some directives, for this fault. -/
inductive Member.AtFault (directives : Directives) (member : Member) : Fault → Prop
  /-- It is excluded and has no initial value. -/
  | excludedWithoutValue {exclusion}
      (hexcluded : directives.excluded? member.name = some exclusion)
      (hinitial : member.options.initial = none) :
      AtFault directives member (.excludedWithoutValue member.name exclusion.pos)
  /-- It is excluded and its initial value determines no type. -/
  | excludedUntyped {exclusion}
      (hexcluded : directives.excluded? member.name = some exclusion)
      (hinitial : member.options.initial ≠ none) (htype : member.Untyped) :
      AtFault directives member (.untyped member.name member.ident.pos)
  /-- It is static and has no initial value. -/
  | staticWithoutValue (hexcluded : directives.excluded? member.name = none)
      (hstatic : member.options.isStatic = true) (hinitial : member.options.initial = none) :
      AtFault directives member (.staticWithoutValue member.name member.ident.pos)
  /-- It is static and its initial value determines no type. -/
  | staticUntyped (hexcluded : directives.excluded? member.name = none)
      (hstatic : member.options.isStatic = true) (hinitial : member.options.initial ≠ none)
      (htype : member.Untyped) :
      AtFault directives member (.untyped member.name member.ident.pos)
  /-- It is computed, keeps no initial value, and is declared without a type. -/
  | computedUntyped (hexcluded : directives.excluded? member.name = none)
      (hstatic : member.options.isStatic = false)
      (hconstant : ¬(member.options.isConstant = true ∧ member.options.initial ≠ none))
      (hcomputed : member.options.computed ≠ none) (htype : member.explicit = none) :
      AtFault directives member (.untyped member.name member.ident.pos)
  /-- It is stored and nothing determines its type. -/
  | storedUntyped (hexcluded : directives.excluded? member.name = none)
      (hstatic : member.options.isStatic = false)
      (hstored : (member.options.isConstant = true ∧ member.options.initial ≠ none) ∨
        member.options.computed = none)
      (htype : member.Untyped) :
      AtFault directives member (.untyped member.name member.ident.pos)

/-- The type of a stored member is missing exactly when nothing determines it. -/
theorem storedType_eq_error : member.storedType = .error fault ↔ member.Untyped ∧ fault = member.untyped := by
  unfold Member.storedType Member.Untyped
  cases hexplicit : member.explicit with
  | some type => simp
  | none =>
    cases hinitial : member.options.initial with
    | none => simp [eq_comm]
    | some value => cases hinfer : value.infer <;> simp [hinfer, eq_comm]

/-- The type of a computed member is missing exactly when it is declared without one. -/
theorem computedType_eq_error :
    member.computedType = .error fault ↔ member.explicit = none ∧ fault = member.untyped := by
  unfold Member.computedType
  cases hexplicit : member.explicit <;> simp [eq_comm]

theorem atFault_of_role (h : member.role directives = .error fault) : member.AtFault directives fault := by
  unfold Member.role at h
  dsimp only at h
  split at h
  · rename_i exclusion hexcluded
    split at h
    · rename_i hinitial
      -- An excluded member needs the type of a stored one, whether it is static or not.
      have hstored : member.storedType = .error fault := by
        split at h <;> exact map_eq_error.mp h
      obtain ⟨htype, rfl⟩ := storedType_eq_error.mp hstored
      exact .excludedUntyped hexcluded (Option.isSome_iff_ne_none.mp hinitial) htype
    · rename_i hinitial
      cases h
      exact .excludedWithoutValue hexcluded (by simpa using hinitial)
  · rename_i hexcluded
    split at h
    · rename_i hstatic
      split at h
      · rename_i hinitial
        obtain ⟨htype, rfl⟩ := storedType_eq_error.mp (map_eq_error.mp h)
        exact .staticUntyped hexcluded hstatic (Option.isSome_iff_ne_none.mp hinitial) htype
      · rename_i hinitial
        cases h
        exact .staticWithoutValue hexcluded hstatic (by simpa using hinitial)
    · rename_i hstatic
      have hstatic : member.options.isStatic = false := by simpa using hstatic
      split at h
      · rename_i hkept
        rw [Bool.and_eq_true, Option.isSome_iff_ne_none] at hkept
        obtain ⟨htype, rfl⟩ := storedType_eq_error.mp (map_eq_error.mp h)
        exact .storedUntyped hexcluded hstatic (.inl hkept) htype
      · rename_i hkept
        rw [Bool.and_eq_true, Option.isSome_iff_ne_none] at hkept
        split at h
        · rename_i hcomputed
          obtain ⟨htype, rfl⟩ := computedType_eq_error.mp (map_eq_error.mp h)
          exact .computedUntyped hexcluded hstatic hkept (Option.isSome_iff_ne_none.mp hcomputed)
            htype
        · rename_i hcomputed
          obtain ⟨htype, rfl⟩ := storedType_eq_error.mp (map_eq_error.mp h)
          exact .storedUntyped hexcluded hstatic (.inr (by simpa using hcomputed)) htype

theorem role_of_atFault (h : member.AtFault directives fault) : member.role directives = .error fault := by
  cases h with
  | excludedWithoutValue hexcluded hinitial => simp [Member.role, hexcluded, hinitial]
  | excludedUntyped hexcluded hinitial htype =>
    have hstored := storedType_eq_error.mpr ⟨htype, rfl⟩
    simp only [Member.role, hexcluded, Option.isSome_iff_ne_none.mpr hinitial, if_true, hstored]
    split <;> rfl
  | staticWithoutValue hexcluded hstatic hinitial =>
    simp [Member.role, hexcluded, hstatic, hinitial]
  | staticUntyped hexcluded hstatic hinitial htype =>
    have hstored := storedType_eq_error.mpr ⟨htype, rfl⟩
    simp only [Member.role, hexcluded, hstatic, Option.isSome_iff_ne_none.mpr hinitial, if_true,
      hstored]
    rfl
  | computedUntyped hexcluded hstatic hkept hcomputed htype =>
    have hdeclared := computedType_eq_error.mpr ⟨htype, rfl⟩
    rw [← Option.isSome_iff_ne_none, ← Bool.and_eq_true] at hkept
    simp only [Member.role, hexcluded, hstatic, Bool.false_eq_true, if_false, if_neg hkept,
      Option.isSome_iff_ne_none.mpr hcomputed, if_true, hdeclared]
    rfl
  | storedUntyped hexcluded hstatic hkept htype =>
    have hstored := storedType_eq_error.mpr ⟨htype, rfl⟩
    rw [← Option.isSome_iff_ne_none, ← Bool.and_eq_true] at hkept
    simp only [Member.role, hexcluded, hstatic, Bool.false_eq_true, if_false, hstored]
    rcases hkept with hkept | hcomputed
    · rw [if_pos hkept]
      rfl
    · split
      · rfl
      · simp only [hcomputed, Option.isSome_none, Bool.false_eq_true, if_false]
        rfl

theorem role_eq_error : member.role directives = .error fault ↔ member.AtFault directives fault :=
  ⟨atFault_of_role, role_of_atFault⟩

/-- Classification fails with the first member at fault. -/
theorem classify_eq_error :
    classify directives members = .error fault ↔ First (Member.AtFault directives) members fault := by
  induction members with
  | nil => simp [classify]
  | cons member rest ih =>
    simp only [first_cons, ← role_eq_error, ← ih, classify]
    cases hrole : member.role directives with
    | error e => simp
    | ok role => cases hrest : classify directives rest <;> simp

end Fieldwise
