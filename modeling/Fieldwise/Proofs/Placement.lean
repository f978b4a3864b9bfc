import Fieldwise.Expansion
import Fieldwise.Proofs.Members
import Fieldwise.Proofs.NamedFields

/-!
# Every member has one place

Three passes look at the members of a host: one gives each member its role, one plans the constructor, and
one sorts the fields into the struct and the functions beside it. They agree member by member. The fields
that stay in the struct, the fields that the constructor assigns, and the members with a stored role are the
same list; the other members become functions, and nothing is lost or done twice.
-/

namespace Fieldwise

open Fieldwise.Grammar

/-! ## Roles -/

namespace Role

/-- Whether a member becomes a function of the type. -/
def isStatic : Role → Bool
  | static _ => true
  | _ => false

/-- Whether a member becomes a getter. -/
def isComputed : Role → Bool
  | computed _ => true
  | _ => false

end Role

/-- The names of the members whose role passes a test, in order. -/
def namesWhere (test : Role → Bool) (members : List Classified) : List Ident :=
  (members.filter fun classified => test classified.role).map fun classified =>
    classified.member.ident

@[simp] theorem namesWhere_nil (test : Role → Bool) : namesWhere test [] = [] := rfl

theorem namesWhere_cons (test : Role → Bool) (first : Classified) (rest : List Classified) :
    namesWhere test (first :: rest) =
      if test first.role then first.member.ident :: namesWhere test rest
      else namesWhere test rest := by
  by_cases h : test first.role <;> simp [namesWhere, h]

/-- The stored, the static and the computed members are all members, each of them once. -/
theorem namesWhere_perm (members : List Classified) :
    (namesWhere Role.isStored members ++ namesWhere Role.isStatic members ++
      namesWhere Role.isComputed members).Perm
      (members.map fun classified => classified.member.ident) := by
  induction members with
  | nil => simp
  | cons first rest ih =>
    simp only [namesWhere_cons, List.map_cons]
    cases hrole : first.role with
    | parameter type default => simpa [Role.isStored, Role.isStatic, Role.isComputed] using ih
    | initialized type => simpa [Role.isStored, Role.isStatic, Role.isComputed] using ih
    | static type =>
      simp only [Role.isStored, Role.isStatic, Role.isComputed, Bool.false_eq_true, if_false,
        if_true]
      rw [List.append_assoc, List.cons_append]
      refine List.perm_middle.trans (List.Perm.cons _ ?_)
      rwa [← List.append_assoc]
    | computed type =>
      simp only [Role.isStored, Role.isStatic, Role.isComputed, Bool.false_eq_true, if_false,
        if_true]
      exact List.perm_middle.trans (List.Perm.cons _ ih)

/-! ## The struct and the functions beside it -/

namespace Placement

/-- A field is placed as its role says, and keeps its name. -/
theorem of_ok {field : Field} {classified : Classified} {placement : Placement}
    (h : Placement.of field classified = .ok placement) :
    match classified.role with
    | .parameter _ _ | .initialized _ => ∃ kept, placement = stored kept ∧ kept.ident = field.ident
    | .static _ => ∃ accessor, placement = static accessor ∧
        accessor.ident = classified.member.ident
    | .computed _ => ∃ accessor, placement = getter accessor ∧
        accessor.ident = classified.member.ident := by
  have hkept : ∀ type, ofStored field type = .ok placement →
      ∃ kept, placement = stored kept ∧ kept.ident = field.ident := by
    intro type hstored
    unfold ofStored at hstored
    split at hstored
    · obtain ⟨found, -, hfound⟩ := bind_eq_ok.mp hstored
      cases hfound
      exact ⟨_, rfl, rfl⟩
    · cases hstored
      exact ⟨_, rfl, rfl⟩
  unfold Placement.of at h
  cases hrole : classified.role with
  | parameter type default => exact hkept type (by simpa [hrole] using h)
  | initialized type => exact hkept type (by simpa [hrole] using h)
  | static type =>
    simp only [hrole] at h
    split at h
    · simp at h
    · obtain ⟨body, -, hbody⟩ := bind_eq_ok.mp h
      obtain ⟨found, -, hfound⟩ := bind_eq_ok.mp hbody
      cases hfound
      exact ⟨_, rfl, rfl⟩
  | computed type =>
    simp only [hrole] at h
    obtain ⟨found, -, hfound⟩ := bind_eq_ok.mp h
    cases hfound
    exact ⟨_, rfl, rfl⟩

/-- Fields that line up with their members are sorted by the roles, each group in order. -/
theorem ofAll_ok {fields : List Field} {members : List Classified} {placements : List Placement}
    (hnames : fields.map Field.ident = members.map fun entry => some entry.member.ident)
    (h : ofAll fields members = .ok placements) :
    (placements.filterMap stored?).map Field.ident =
        (namesWhere Role.isStored members).map some ∧
      (placements.filterMap static?).map Accessor.ident = namesWhere Role.isStatic members ∧
      (placements.filterMap getter?).map Accessor.ident =
        namesWhere Role.isComputed members := by
  induction fields generalizing members placements with
  | nil =>
    have hempty : members = [] := by simpa using hnames.symm
    subst hempty
    cases h
    simp
  | cons field fields ih =>
    cases members with
    | nil => simp at hnames
    | cons first rest =>
      obtain ⟨hfirst, hrest⟩ := List.cons.inj hnames
      obtain ⟨placement, hplacement, hmore⟩ := bind_eq_ok.mp h
      obtain ⟨others, hothers, hall⟩ := bind_eq_ok.mp hmore
      cases hall
      obtain ⟨hstored, hstatic, hgetter⟩ := ih hrest hothers
      have hplace := of_ok hplacement
      cases hrole : first.role <;> simp only [hrole] at hplace <;>
        obtain ⟨target, rfl, htarget⟩ := hplace <;>
        simp [namesWhere_cons, hrole, Role.isStored, Role.isStatic, Role.isComputed,
          List.filterMap_cons, stored?, static?, getter?, hstored, hstatic, hgetter, htarget,
          hfirst]

end Placement

/-! ## The constructor -/

theorem Classified.fieldInit?_ident {entry : Classified} {field : FieldInit}
    (h : entry.fieldInit? = some field) : field.ident = entry.member.ident := by
  unfold Classified.fieldInit? at h
  split at h
  · cases h
    rfl
  · obtain ⟨value, -, rfl⟩ := Option.map_eq_some_iff.mp h
    rfl
  · contradiction
  · contradiction

namespace Constructor

/-- The part of a parameter has the name of the parameter. -/
theorem part_parameter {p : Parameter} {found : Part} (h : part (.parameter p) = .ok found) :
    found.field.1 = p.ident ∧ ∃ type, found.param = some (p.ident, type) := by
  obtain ⟨type, -, hvalue⟩ := bind_eq_ok.mp h
  split at hvalue
  · obtain ⟨value, -, hvalue⟩ := bind_eq_ok.mp hvalue
    cases hvalue
    exact ⟨rfl, type, rfl⟩
  · cases hvalue
    exact ⟨rfl, type, rfl⟩

/-- The parts of a constructor name the planned fields and the planned parameters, in order. -/
theorem parts_ok {fields : List FieldInit} {found : List Part} (h : parts fields = .ok found) :
    (found.map Part.field).map Prod.fst = fields.map FieldInit.ident ∧
      (found.filterMap Part.param).map Prod.fst =
        (fields.filterMap FieldInit.parameter?).map Parameter.ident := by
  induction fields generalizing found with
  | nil =>
    cases h
    simp
  | cons first rest ih =>
    obtain ⟨head, hhead, hmore⟩ := bind_eq_ok.mp h
    obtain ⟨others, hothers, hall⟩ := bind_eq_ok.mp hmore
    cases hall
    obtain ⟨hfields, hparams⟩ := ih hothers
    cases first with
    | parameter p =>
      obtain ⟨hfield, type, hparam⟩ := part_parameter hhead
      simp [hfield, hparam, hfields, hparams, FieldInit.ident, FieldInit.parameter?]
    | value ident shown =>
      obtain ⟨value, -, hvalue⟩ := bind_eq_ok.mp hhead
      cases hvalue
      simp [hfields, hparams, List.filterMap_cons, FieldInit.ident, FieldInit.parameter?]

/-- The plan assigns every stored member and takes a parameter for every parameter. A member that keeps
its initial value has one, so none is dropped. -/
theorem fieldInit_names {members : List Classified}
    (hinitial : ∀ entry ∈ members, ∀ type, entry.role = .initialized type →
      ∃ value, entry.member.options.initial = some value) :
    (members.filterMap Classified.fieldInit?).map FieldInit.ident =
        namesWhere Role.isStored members ∧
      ((members.filterMap Classified.fieldInit?).filterMap FieldInit.parameter?).map
        Parameter.ident = namesWhere Role.isParameter members := by
  induction members with
  | nil => simp
  | cons first rest ih =>
    rw [List.forall_mem_cons] at hinitial
    obtain ⟨hfirst, hrest⟩ := hinitial
    obtain ⟨hfields, hparams⟩ := ih hrest
    cases hrole : first.role with
    | initialized type =>
      obtain ⟨value, hvalue⟩ := hfirst type hrole
      simp [namesWhere_cons, hrole, hvalue, hfields, hparams, List.filterMap_cons, Role.isStored,
        Role.isParameter, Classified.fieldInit?, FieldInit.ident, FieldInit.parameter?]
    | _ =>
      simp [namesWhere_cons, hrole, hfields, hparams, Role.isStored, Role.isParameter,
        Classified.fieldInit?, FieldInit.ident, FieldInit.parameter?]

end Constructor

/-! ## The whole expansion -/

/-- An analysis ends well when the declaration is a struct whose fields declare the members, and each
member has a role. -/
theorem analyze_ok {args item : Tokens} {analysis : Analysis}
    (h : analyze args item = .ok analysis) :
    ∃ decl, parseItem item = .ok (.struct decl) ∧ Host.ofStruct decl = .ok analysis.host ∧
      classify analysis.directives analysis.host.members = .ok analysis.members := by
  obtain ⟨directives, -, h⟩ := bind_eq_ok.mp h
  obtain ⟨decl, hdecl, h⟩ := bind_eq_ok.mp h
  obtain ⟨host, hhost, h⟩ := bind_eq_ok.mp h
  obtain ⟨members, hmembers, h⟩ := bind_eq_ok.mp h
  obtain ⟨-, -, h⟩ := bind_eq_ok.mp h
  cases h
  exact ⟨decl, readHost_eq_ok hdecl, hhost, hmembers⟩

/-- A struct with other named fields has those; one without named fields takes none. -/
theorem withFields_namedFields {decl : Struct} {fields : List Field}
    (h : decl.namedFields = [] → fields = []) : (decl.withFields fields).namedFields = fields := by
  unfold Struct.withFields
  unfold Struct.namedFields at h ⊢
  cases hfields : decl.fields with
  | named own => rfl
  | tuple own =>
    simp only [hfields, forall_const] at h ⊢
    exact h.symm
  | unit =>
    simp only [hfields, forall_const] at h ⊢
    exact h.symm

/-- How an expansion accounts for the members of a declaration: every member is stored and assigned, or
lifted into a function, as its role says. -/
structure Accounts (decl : Struct) (analysis : Analysis) (expansion : Expansion) : Prop where
  /-- The members are the declared fields, in order. -/
  declared : decl.namedFields.map Field.ident =
    analysis.host.members.map fun member => some member.ident
  /-- Each member has one role, and it is its own. -/
  classified : analysis.members.map Classified.member = analysis.host.members ∧
    ∀ entry ∈ analysis.members, entry.member.role analysis.directives = .ok entry.role
  /-- The struct has the stored members as fields. -/
  stored : expansion.decl.namedFields.map Field.ident =
    (namesWhere Role.isStored analysis.members).map some
  /-- The struct value of the constructor assigns the same fields. -/
  assigned : expansion.constructor.fields.map Prod.fst =
    namesWhere Role.isStored analysis.members
  /-- The constructor takes the parameters. -/
  taken : expansion.constructor.params.map Prod.fst =
    namesWhere Role.isParameter analysis.members
  /-- The static members are lifted. -/
  statics : expansion.statics.map Accessor.ident = namesWhere Role.isStatic analysis.members
  /-- The computed members are lifted. -/
  getters : expansion.getters.map Accessor.ident = namesWhere Role.isComputed analysis.members
  /-- No member is lost, and none has two places. -/
  once : (expansion.constructor.fields.map Prod.fst ++ expansion.statics.map Accessor.ident ++
    expansion.getters.map Accessor.ident).Perm
      (analysis.host.members.map fun member => member.ident)
  /-- One struct is written and then one implementation: the constructor with its parameters and its
  struct value, the static members without a receiver, and the computed members with one. -/
  written : expansion.tokens =
    expansion.decl.tokens ++ term "impl" ++ expansion.decl.generics.tokens .implemented ++
      [expansion.decl.ident.token] ++ expansion.decl.generics.tokens .applied ++
      expansion.decl.generics.whereTokens ++
      wrap .brace
        (Constructor.accessTokens expansion.constructor.access ++ term "fn" ++ term "new" ++
          wrap .paren (joined (sign ",")
            (expansion.constructor.params.map fun param =>
              param.1.token :: sign ":" ++ param.2.tokens) false) ++
          sign "->" ++ term "Self" ++
          wrap .brace (term "Self" ++ wrap .brace (joined (sign ",")
            (expansion.constructor.fields.map Constructor.assignmentTokens) false)) ++
          expansion.statics.flatMap (fun lifted =>
            lifted.visibility.tokens ++ term "fn" ++ [lifted.ident.token] ++ wrap .paren [] ++
              sign "->" ++ lifted.type.tokens ++ wrap .brace lifted.body) ++
          expansion.getters.flatMap fun lifted =>
            lifted.visibility.tokens ++ term "fn" ++ [lifted.ident.token] ++
              wrap .paren (sign "&" ++ term "self") ++ sign "->" ++ lifted.type.tokens ++
              wrap .brace lifted.body)

/-- Every expansion accounts for all members of its declaration. -/
theorem expand_accounts_for_members {args item : Tokens} {expansion : Expansion}
    (h : expand args item = .ok expansion) :
    ∃ decl analysis, parseItem item = .ok (.struct decl) ∧ analyze args item = .ok analysis ∧
      Accounts decl analysis expansion := by
  obtain ⟨analysis, hanalysis, h⟩ := bind_eq_ok.mp h
  obtain ⟨decl, hparse, hhost, hclassify⟩ := analyze_ok hanalysis
  obtain ⟨hmembers, hroles⟩ := classify_ok hclassify
  obtain ⟨hdeclared, hkept⟩ := ofStruct_idents (parseItem_fieldsNamed hparse) hhost
  obtain ⟨placements, hplacements, h⟩ := bind_eq_ok.mp h
  obtain ⟨constructor, hconstructor, h⟩ := bind_eq_ok.mp h
  obtain ⟨parts, hparts, hbuilt⟩ := bind_eq_ok.mp hconstructor
  cases hbuilt
  cases h
  have hlined : analysis.host.decl.namedFields.map Field.ident =
      analysis.members.map fun entry => some entry.member.ident := by
    rw [hkept, hdeclared, ← hmembers, List.map_map]
    rfl
  obtain ⟨hstored, hstatics, hgetters⟩ := Placement.ofAll_ok hlined hplacements
  obtain ⟨hfields, hparams⟩ := Constructor.parts_ok hparts
  have hinitial : ∀ entry ∈ analysis.members, ∀ type, entry.role = .initialized type →
      ∃ value, entry.member.options.initial = some value := by
    intro entry hentry type hrole
    exact initial_of_initialized (by rw [hroles entry hentry, hrole])
  obtain ⟨hassigned, htaken⟩ := Constructor.fieldInit_names hinitial
  have hall : (analysis.host.members.map fun member => member.ident) =
      analysis.members.map fun entry => entry.member.ident := by
    rw [← hmembers, List.map_map]
    rfl
  refine ⟨decl, analysis, hparse, hanalysis, hdeclared, ⟨hmembers, hroles⟩, ?_, ?_, ?_, hstatics,
    hgetters, ?_, ?_⟩
  · rw [withFields_namedFields, hstored]
    intro hempty
    rw [hempty] at hplacements
    cases hplacements
    rfl
  · exact hfields.trans hassigned
  · exact hparams.trans htaken
  · rw [hall, hstatics, hgetters, hfields.trans hassigned]
    exact namesWhere_perm analysis.members
  · rfl

/-- A declaration with a member of every role. -/
def everyRole : String :=
  "pub struct A \x7b x: i32, #[member(static, init = 1)] y: _, " ++
    "#[member(computed = self.x)] z: i32, #[member(constant, init = 2)] w: _ \x7d"

/-- The members of a declaration with every role are accounted for. -/
theorem everyRole_accounts :
    ∃ item expansion, Tokens.read everyRole = .ok item ∧ expand [] item = .ok expansion ∧
      ∃ decl analysis, parseItem item = .ok (.struct decl) ∧ analyze [] item = .ok analysis ∧
        Accounts decl analysis expansion := by
  have h : ((Tokens.read everyRole).toOption.any fun item =>
      (expand [] item).toOption.isSome) = true := by
    decide +kernel
  cases hread : Tokens.read everyRole with
  | error e => simp [hread, Except.toOption] at h
  | ok item =>
    cases hexpand : expand [] item with
    | error e => simp [hread, hexpand, Except.toOption] at h
    | ok expansion =>
      exact ⟨item, expansion, rfl, hexpand, expand_accounts_for_members hexpand⟩

end Fieldwise
