import Fieldwise.Proofs.Roles

/-!
# Which computed members leave the struct

A computed member becomes a getter and leaves the struct, unless a value is assigned to it: it has an initial value,
and it is constant or excluded. Then it stays in the struct, and the constructor assigns the initial value; no getter
is written, and its expression is not used. The fields of the struct, the assignments of the constructor and the
getters are all lists of members in order, and three tests on the options of a member say which members they have.
-/

namespace Fieldwise

open Fieldwise.Grammar

namespace Member

/-- A member is assigned its own initial value: it has one, and it is constant or excluded. -/
def isAssigned (directives : Directives) (member : Member) : Bool :=
  member.options.initial.isSome &&
    (member.options.isConstant || (directives.excluded? member.name).isSome)

/-- A member is a field of the struct. -/
def isStored (directives : Directives) (member : Member) : Bool :=
  !member.options.isStatic && (member.options.computed.isNone || member.isAssigned directives)

/-- A member is a getter. -/
def isLifted (directives : Directives) (member : Member) : Bool :=
  !member.options.isStatic && member.options.computed.isSome && !member.isAssigned directives

/-- The name of a member and the tokens of the expression it is computed from. -/
def getter (member : Member) : Ident × Tokens :=
  (member.ident, (member.options.computed.map Expr.tokens).getD [])

variable {directives : Directives} {member : Member} {role : Role}

/-- A member that is neither excluded nor an initialised constant is assigned nothing. -/
theorem isAssigned_eq_false (hexcluded : directives.excluded? member.name = none)
    (hconstant : member.options.isConstant = true → member.options.initial = none) :
    member.isAssigned directives = false := by
  cases h : member.options.isConstant with
  | false => simp [isAssigned, hexcluded, h]
  | true => simp [isAssigned, hconstant h]

/-- The tests on the options of a member agree with its role. -/
theorem Plays.tests (h : member.Plays directives role) :
    role.isStored = member.isStored directives ∧ role.isComputed = member.isLifted directives := by
  cases h with
  | static hstatic hvalue htype => simp [isStored, isLifted, hstatic, Role.isStored, Role.isComputed]
  | assigned hstatic hvalue hwhy htype =>
    have hassigned : member.isAssigned directives = true := by
      rcases hwhy with hwhy | hwhy
      · simp [isAssigned, hvalue, Option.isSome_iff_ne_none.mpr hwhy]
      · simp [isAssigned, hvalue, hwhy]
    simp [isStored, isLifted, hstatic, hassigned, Role.isStored, Role.isComputed]
  | computed hstatic hexcluded hconstant hcomputed htype =>
    simp [isStored, isLifted, hstatic, hcomputed, isAssigned_eq_false hexcluded hconstant, Role.isStored,
      Role.isComputed]
  | supplied hstatic hexcluded hconstant hcomputed htype =>
    simp [isStored, isLifted, hstatic, hcomputed, Role.isStored, Role.isComputed]

/-- A computed member that is not static is a getter exactly if nothing is assigned to it, and else a field. -/
theorem isLifted_of_computed (directives : Directives) (hstatic : member.options.isStatic = false)
    (hcomputed : member.options.computed ≠ none) :
    (member.isLifted directives = true ↔ member.options.initial = none ∨
      member.options.isConstant = false ∧ directives.excluded? member.name = none) ∧
    member.isStored directives = !member.isLifted directives := by
  obtain ⟨expr, hexpr⟩ := Option.ne_none_iff_exists'.mp hcomputed
  constructor
  · cases hinitial : member.options.initial <;> simp [isLifted, isAssigned, hstatic, hexpr, hinitial]
  · simp [isLifted, isStored, hstatic, hexpr]

/-- A stored member that is computed is assigned its initial value. -/
theorem Plays.assigned_of_computed (h : member.Plays directives role) (hcomputed : member.options.computed ≠ none)
    (hstored : member.isStored directives = true) :
    ∃ type initial, member.storedType = .ok type ∧ member.options.initial = some initial ∧
      Classified.fieldInit? ⟨member, role⟩ = some (.value member.ident (initial.lower (some type))) := by
  have hrole := h.tests.1.trans hstored
  cases h with
  | assigned hstatic hvalue hwhy htype =>
    exact ⟨_, _, htype, hvalue, by simp [Classified.fieldInit?, hvalue]⟩
  | supplied hstatic hexcluded hconstant hnone htype => exact absurd hnone hcomputed
  | _ => contradiction

end Member

/-- Classified members whose roles pass a test are the members that pass a test on the members. -/
theorem map_filter_role {α : Type} {test : Role → Bool} {check : Member → Bool} {members : List Member}
    {classified : List Classified} (f : Member → α) (hmembers : classified.map Classified.member = members)
    (htest : ∀ entry ∈ classified, test entry.role = check entry.member) :
    (classified.filter fun entry => test entry.role).map (fun entry => f entry.member) =
      (members.filter check).map f := by
  rw [← hmembers, List.filter_map, List.map_map]
  congr 1
  exact List.filter_congr htest

namespace Placement

/-- A getter has the name of its member and the tokens of its expression; other members have none. -/
theorem getter?_of_ok {field : Field} {entry : Classified} {placement : Placement}
    (h : Placement.of field entry = .ok placement) :
    placement.getter?.map (fun lifted => (lifted.ident, lifted.body)) =
      if entry.role.isComputed then some entry.member.getter else none := by
  have hplace := of_ok h
  cases hrole : entry.role with
  | computed type =>
    simp only [Placement.of, hrole] at h
    obtain ⟨found, -, hfound⟩ := bind_eq_ok.mp h
    cases hfound
    rfl
  | _ =>
    simp only [hrole] at hplace
    obtain ⟨target, rfl, -⟩ := hplace
    rfl

/-- The getters are those of the computed members, in order. -/
theorem getters_of_ofAll {fields : List Field} {members : List Classified} {placements : List Placement}
    (hlength : fields.length = members.length) (h : ofAll fields members = .ok placements) :
    (placements.filterMap getter?).map (fun lifted => (lifted.ident, lifted.body)) =
      (members.filter fun entry => entry.role.isComputed).map fun entry => entry.member.getter := by
  induction fields generalizing members placements with
  | nil =>
    obtain rfl : members = [] := List.length_eq_zero_iff.mp hlength.symm
    cases h
    rfl
  | cons field fields ih =>
    cases members with
    | nil => simp at hlength
    | cons entry rest =>
      obtain ⟨placement, hplacement, hmore⟩ := bind_eq_ok.mp h
      obtain ⟨others, hothers, hall⟩ := bind_eq_ok.mp hmore
      cases hall
      have hrest := ih (by simpa using hlength) hothers
      have hfirst := getter?_of_ok hplacement
      rw [List.filterMap_cons, List.filter_cons]
      cases hcomputed : entry.role.isComputed with
      | true =>
        rw [hcomputed, if_pos rfl, Option.map_eq_some_iff] at hfirst
        obtain ⟨lifted, hlifted, hgetter⟩ := hfirst
        simp [hlifted, hgetter, hrest]
      | false =>
        rw [hcomputed, if_neg Bool.false_ne_true, Option.map_eq_none_iff] at hfirst
        simp [hfirst, hrest]

end Placement

/-- A value that a plan has for a field is parsed and assigned to it. -/
theorem Constructor.parts_value {fields : List FieldInit} {found : List Part} {ident : Ident} {shown : String}
    (h : parts fields = .ok found) (hvalue : FieldInit.value ident shown ∈ fields) :
    ∃ value, parseGenerated parseExpr shown = .ok value ∧ (ident, some value) ∈ found.map Part.field := by
  induction fields generalizing found with
  | nil => simp at hvalue
  | cons first rest ih =>
    obtain ⟨head, hhead, hmore⟩ := bind_eq_ok.mp h
    obtain ⟨others, hothers, hall⟩ := bind_eq_ok.mp hmore
    cases hall
    rcases List.mem_cons.mp hvalue with rfl | hrest
    · obtain ⟨value, hparse, hpart⟩ := bind_eq_ok.mp hhead
      cases hpart
      exact ⟨value, hparse, List.mem_cons_self⟩
    · obtain ⟨value, hparse, hmem⟩ := ih hothers hrest
      exact ⟨value, hparse, List.mem_cons_of_mem _ hmem⟩

/-- An analysed declaration has one member for each named field. -/
theorem length_namedFields_of_analyze {args item : Tokens} {analysis : Analysis}
    (h : analyze args item = .ok analysis) :
    analysis.host.decl.namedFields.length = analysis.members.length := by
  obtain ⟨decl, hparse, hhost, hclassify⟩ := analyze_ok h
  obtain ⟨hdeclared, hkept⟩ := ofStruct_idents (parseItem_fieldsNamed hparse) hhost
  have hnames := congrArg List.length (hkept.trans hdeclared)
  rw [← (classify_ok hclassify).1] at hnames
  simpa using hnames

/-- The code of an analysed declaration is made of what becomes of its fields and of the parts of its constructor. -/
theorem Expansion.ofAnalysis_eq_ok {analysis : Analysis} {expansion : Expansion}
    (h : Expansion.ofAnalysis analysis = .ok expansion) :
    ∃ placements parts,
      Placement.ofAll analysis.host.decl.namedFields analysis.members = .ok placements ∧
      Constructor.parts (analysis.members.filterMap Classified.fieldInit?) = .ok parts ∧
      expansion.getters = placements.filterMap Placement.getter? ∧
      expansion.constructor.fields = parts.map Constructor.Part.field := by
  obtain ⟨placements, hplacements, h⟩ := bind_eq_ok.mp h
  obtain ⟨constructor, hconstructor, h⟩ := bind_eq_ok.mp h
  obtain ⟨parts, hparts, hbuilt⟩ := bind_eq_ok.mp hconstructor
  cases hbuilt
  cases h
  exact ⟨placements, parts, hplacements, hparts, rfl, rfl⟩

/-- What an expansion does with the computed members of a host. -/
structure LiftsComputed (directives : Directives) (members : List Member) (expansion : Expansion) : Prop where
  /-- The fields of the struct are the stored members in order. -/
  fields : expansion.decl.namedFields.map Field.ident =
    (members.filter (Member.isStored directives)).map fun member => some member.ident
  /-- The constructor assigns the same members. -/
  assigned : expansion.constructor.fields.map Prod.fst =
    (members.filter (Member.isStored directives)).map Member.ident
  /-- The getters are the lifted members in order, each with its expression as its body. -/
  getters : expansion.getters.map (fun lifted => (lifted.ident, lifted.body)) =
    (members.filter (Member.isLifted directives)).map Member.getter
  /-- Getters are written last in the implementation, and take a reference to the value. -/
  written : ∃ before functions,
    expansion.tokens = before ++
      wrap .brace (functions ++ expansion.getters.flatMap (Accessor.tokens (sign "&" ++ term "self")))
  /-- A computed member that is not static is a getter or a field, and not both: a field exactly if it has an initial
  value and is constant or excluded, and then the constructor assigns this value to it. -/
  computed : ∀ member ∈ members, member.options.isStatic = false → member.options.computed ≠ none →
    (member.isLifted directives = true ↔ member.options.initial = none ∨
      member.options.isConstant = false ∧ directives.excluded? member.name = none) ∧
    member.isStored directives = !member.isLifted directives ∧
    (member.isStored directives = true → ∃ type initial value, member.storedType = .ok type ∧
      member.options.initial = some initial ∧
      parseGenerated parseExpr (initial.lower (some type)) = .ok value ∧
      (member.ident, some value) ∈ expansion.constructor.fields)

/-- In every expansion a computed member that is not static becomes a getter and leaves the struct, exactly if no
value is assigned to it. -/
theorem computed_member_lifted_unless_assigned {args item : Tokens} {expansion : Expansion}
    (h : expand args item = .ok expansion) :
    ∃ decl analysis, parseItem item = .ok (.struct decl) ∧ analyze args item = .ok analysis ∧
      decl.namedFields.map Field.ident = analysis.host.members.map (fun member => some member.ident) ∧
      LiftsComputed analysis.directives analysis.host.members expansion := by
  obtain ⟨decl, analysis, hparse, hanalysis, haccounts⟩ := expand_accounts_for_members h
  obtain ⟨analysis', hanalysis', hbuilt⟩ := bind_eq_ok.mp h
  obtain rfl : analysis' = analysis := by simpa [hanalysis] using hanalysis'.symm
  obtain ⟨placements, parts, hplacements, hparts, hgetters, hassigned⟩ := Expansion.ofAnalysis_eq_ok hbuilt
  obtain ⟨hmembers, hroles⟩ := haccounts.classified
  have hplays : ∀ entry ∈ analysis'.members, entry.member.Plays analysis'.directives entry.role :=
    fun entry hentry => Member.role_eq_ok.mp (hroles entry hentry)
  refine ⟨decl, analysis', hparse, hanalysis, haccounts.declared, ?_, ?_, ?_, ⟨_, _, rfl⟩, ?_⟩
  · rw [haccounts.stored, namesWhere, List.map_map]
    exact map_filter_role (fun member => some member.ident) hmembers fun entry hentry => (hplays entry hentry).tests.1
  · rw [haccounts.assigned, namesWhere]
    exact map_filter_role _ hmembers fun entry hentry => (hplays entry hentry).tests.1
  · rw [hgetters, Placement.getters_of_ofAll (length_namedFields_of_analyze hanalysis) hplacements]
    exact map_filter_role _ hmembers fun entry hentry => (hplays entry hentry).tests.2
  · intro member hmember hstatic hcomputed
    obtain ⟨entry, hentry, rfl⟩ := List.mem_map.mp (hmembers ▸ hmember)
    obtain ⟨hlifted, hstored⟩ := Member.isLifted_of_computed analysis'.directives hstatic hcomputed
    refine ⟨hlifted, hstored, fun hkept => ?_⟩
    obtain ⟨type, initial, htype, hinitial, hinit⟩ := (hplays entry hentry).assigned_of_computed hcomputed hkept
    have hmem := List.mem_filterMap.mpr ⟨entry, hentry, hinit⟩
    obtain ⟨value, hvalue, hfield⟩ := Constructor.parts_value hparts hmem
    exact ⟨type, initial, value, htype, hinitial, hvalue, hassigned ▸ hfield⟩

/-- A declaration with a computed member, and one that is also an initialised constant. -/
def twiceComputed : String :=
  "pub struct S \x7b x: u8, #[member(computed = self.x)] y: u8, " ++
    "#[member(computed = self.x, init = 1, constant)] z: u8 \x7d"

/-- The second of the computed members stays in the struct. -/
theorem twiceComputed_lifts :
    ∃ item expansion, Tokens.read twiceComputed = .ok item ∧ expand [] item = .ok expansion ∧
      expansion.decl.namedFields.filterMap (fun field => field.ident.map Ident.name) = ["x", "z"] ∧
      expansion.getters.map (fun lifted => lifted.ident.name) = ["y"] ∧
      ∃ decl analysis, parseItem item = .ok (.struct decl) ∧ analyze [] item = .ok analysis ∧
        LiftsComputed analysis.directives analysis.host.members expansion := by
  have h : ((Tokens.read twiceComputed).toOption.any fun item =>
      (expand [] item).toOption.any fun expansion =>
        expansion.decl.namedFields.filterMap (fun field => field.ident.map Ident.name) == ["x", "z"] &&
          expansion.getters.map (fun lifted => lifted.ident.name) == ["y"]) = true := by
    decide +kernel
  obtain ⟨item, hread, hitem⟩ := exists_ok_of_any h
  obtain ⟨expansion, hexpand, hnames⟩ := exists_ok_of_any hitem
  rw [Bool.and_eq_true, beq_iff_eq, beq_iff_eq] at hnames
  obtain ⟨decl, analysis, hparse, hanalysis, -, hlifts⟩ := computed_member_lifted_unless_assigned hexpand
  exact ⟨item, expansion, hread, hexpand, hnames.1, hnames.2, decl, analysis, hparse, hanalysis, hlifts⟩

end Fieldwise
