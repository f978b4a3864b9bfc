import Mathlib
import Fieldwise.Proofs.WrittenTypes

/-!
# The declaration that is left

An expansion writes the struct again. Everything in front of the fields stays as it was; of the fields the stored
ones stay in order, without the attributes that describe members, and with a type in the place of a placeholder.
What is left is plain: it describes no member, so expanding it again makes a parameter of every field. The types
of the parameters are parsed from text, and this is all that can keep the struct from being expanded again.
-/

namespace Fieldwise

open Grammar Descriptor

variable {field : Field} {index : Nat} {name : Ident} {placement : Placement} {entries : List Classified}
  {placements : List Placement}

/-! ## Fields that stay -/

namespace Grammar.Field

/-- No attribute of the field describes a member. -/
def Plain (field : Field) : Prop := ∀ attr ∈ field.attrs, attr.path.isWord "member" = false

/-- The texts that a constructor has for the field as a parameter without a default are parsed: the type of the
parameter, and the box around it if the type is taken by its bounds. -/
def Taken (field : Field) : Prop :=
  ∃ name type, field.ident = some name ∧ ofType? field.type = some type ∧
    (∃ found, parseText parseType type.parameterText = .ok found) ∧
    (type.escapes = true →
      ∃ value, parseText parseExpr ("::std::boxed::Box::new(" ++ name.name ++ ")") = .ok value)

/-- What is left of a field whose member has this role. -/
structure Leaves (field : Field) (role : Role) (left : Field) : Prop where
  /-- The attributes that describe no member stay in order. -/
  attrs : left.attrs = field.attrs.filter fun attr => !attr.path.isWord "member"
  /-- The visibility stays. -/
  visibility : left.visibility = field.visibility
  /-- The name stays. -/
  ident : left.ident = field.ident
  /-- A type that is written out stays. -/
  written : field.type ≠ .infer → left.type = field.type
  /-- A placeholder gives way to the type of the member. -/
  placed : field.type = .infer → parseText parseType role.type.text = .ok left.type
  /-- A parameter of the type that is written out can be one again, unless it has a default. -/
  again : ∀ type, ofType? field.type = some type → role = .parameter type none → left.Taken

theorem Plain.stripped_eq (h : field.Plain) : field.stripped = field := by
  have hattrs : (field.attrs.filter fun attr => !MemberOptions.describes attr) = field.attrs := by
    rw [List.filter_eq_self]
    intro attr hattr
    simp [MemberOptions.describes, MemberOptions.attributeName, h attr hattr]
  rw [stripped, hattrs]

theorem Plain.ofAttributes (h : field.Plain) : MemberOptions.ofAttributes field.attrs .empty = .ok .empty := by
  have hall : ∀ attrs : List Attribute, (∀ attr ∈ attrs, attr.path.isWord "member" = false) →
      MemberOptions.ofAttributes attrs .empty = .ok .empty := by
    intro attrs
    induction attrs with
    | nil => intro _; rfl
    | cons attr rest ih =>
      intro hattrs
      obtain ⟨hattr, hrest⟩ := List.forall_mem_cons.mp hattrs
      rw [MemberOptions.ofAttributes, MemberOptions.describes, MemberOptions.attributeName, hattr]
      exact ih hrest
  exact hall field.attrs h

end Grammar.Field

/-! ## Parameters -/

namespace Constructor

/-- A parameter without a default has a part in the constructor exactly when its texts are parsed. -/
theorem exists_part_iff {type : Descriptor} :
    (∃ found, part (.parameter ⟨name, type, none⟩) = .ok found) ↔
      (∃ found, parseText parseType type.parameterText = .ok found) ∧
        (type.escapes = true →
          ∃ value, parseText parseExpr ("::std::boxed::Box::new(" ++ name.name ++ ")") =
            .ok value) := by
  have hvalue : Parameter.valueText? ⟨name, type, none⟩ =
      if type.escapes then some ("::std::boxed::Box::new(" ++ name.name ++ ")") else none := rfl
  simp only [part, hvalue]
  constructor
  · rintro ⟨found, hfound⟩
    obtain ⟨parsed, hparsed, hrest⟩ := bind_eq_ok.mp hfound
    refine ⟨⟨parsed, parseGenerated_ok.mp hparsed⟩, fun hescapes => ?_⟩
    simp only [hescapes, if_true] at hrest
    obtain ⟨value, hvalue, -⟩ := bind_eq_ok.mp hrest
    exact ⟨value, parseGenerated_ok.mp hvalue⟩
  · rintro ⟨⟨parsed, hparsed⟩, hboxed⟩
    by_cases hescapes : type.escapes = true
    · obtain ⟨value, hvalue⟩ := hboxed hescapes
      simp only [hescapes, if_true]
      exact ⟨_, bind_eq_ok.mpr ⟨parsed, parseGenerated_ok.mpr hparsed,
        bind_eq_ok.mpr ⟨value, parseGenerated_ok.mpr hvalue, rfl⟩⟩⟩
    · simp only [hescapes, if_false, Bool.false_eq_true]
      exact ⟨_, bind_eq_ok.mpr ⟨parsed, parseGenerated_ok.mpr hparsed, rfl⟩⟩

theorem exists_part_of_mem {inits : List FieldInit} {found : List Part}
    (h : parts inits = .ok found) : ∀ init ∈ inits, ∃ one, part init = .ok one := by
  induction inits generalizing found with
  | nil => simp
  | cons first rest ih =>
    obtain ⟨head, hhead, hmore⟩ := bind_eq_ok.mp h
    obtain ⟨others, hothers, -⟩ := bind_eq_ok.mp hmore
    rw [List.forall_mem_cons]
    exact ⟨⟨head, hhead⟩, ih hothers⟩

end Constructor

/-! ## One run -/

/-- A stored field keeps all but a placeholder for its type. -/
theorem Placement.ofStored_eq_ok {type : Descriptor} (h : ofStored field type = .ok placement) :
    ∃ left : Field, placement = stored left ∧ left = { field with type := left.type } ∧
      (field.type ≠ .infer → left.type = field.type) ∧
      (field.type = .infer → parseText parseType type.text = .ok left.type) := by
  unfold ofStored at h
  split at h
  case h_1 hinfer =>
    obtain ⟨found, hfound, hdone⟩ := bind_eq_ok.mp h
    cases hdone
    exact ⟨_, rfl, rfl, fun hwritten => absurd hinfer hwritten,
      fun _ => parseGenerated_ok.mp hfound⟩
  case h_2 hwritten =>
    cases h
    exact ⟨field, rfl, rfl, fun _ => rfl, fun hinfer => absurd hinfer hwritten⟩

/-- A field is lifted out of the struct, or it is stored and something is left of it. -/
theorem Made.leaves {directives : Directives} {entry : Classified}
    (h : Made directives index name field entry placement) (hname : field.ident = some name)
    (hpart : ∀ init, entry.fieldInit? = some init → ∃ one, Constructor.part init = .ok one) :
    entry.role.isStored = false ∧ placement.stored? = none ∨
      entry.role.isStored = true ∧
        ∃ left, placement.stored? = some left ∧ field.Leaves entry.role left := by
  obtain ⟨member, role⟩ := entry
  obtain ⟨hdeclared, -, hplaced⟩ := h
  obtain ⟨options, -, rfl⟩ := Member.ofField_eq_ok hdeclared
  have hstored : ∀ type, Placement.ofStored field.stripped type = .ok placement →
      role.type = type → (∀ written, ofType? field.type = some written →
        role = .parameter written none → ∃ one, Constructor.part (.parameter ⟨name, written, none⟩) = .ok one) →
      ∃ left, placement.stored? = some left ∧ field.Leaves role left := by
    rintro type hstored rfl htaken
    obtain ⟨left, rfl, hleft, hwritten, hinferred⟩ := Placement.ofStored_eq_ok hstored
    refine ⟨left, rfl, ?_, ?_, ?_, hwritten, hinferred, ?_⟩
    · rw [hleft]
      rfl
    · rw [hleft]
      rfl
    · rw [hleft]
      rfl
    · intro written hof hrole
      have hkept : left.type = field.type := by
        refine hwritten fun hinfer => ?_
        have hnone : ofType? field.type = none := by
          rw [show field.type = .infer from hinfer, ofType?]
        simp [hof] at hnone
      have hident : left.ident = some name := by
        rw [hleft]
        exact hname
      rw [← hkept] at hof
      exact ⟨name, written, hident, hof, Constructor.exists_part_iff.mp (htaken written (hkept ▸ hof) hrole)⟩
  cases role with
  | parameter type default =>
    refine .inr ⟨rfl, hstored type hplaced rfl ?_⟩
    intro written hof hrole
    rw [hrole] at hpart
    exact hpart _ rfl
  | initialized type =>
    refine .inr ⟨rfl, hstored type hplaced rfl ?_⟩
    intro written hof hrole
    cases hrole
  | static type =>
    obtain ⟨accessor, rfl, -⟩ := Placement.of_ok hplaced
    exact .inl ⟨rfl, rfl⟩
  | computed type =>
    obtain ⟨accessor, rfl, -⟩ := Placement.of_ok hplaced
    exact .inl ⟨rfl, rfl⟩

/-- The stored fields are what is left of the fields of stored members, in order. -/
theorem MadeAll.leaves {directives : Directives} {fields : List Field}
    (h : MadeAll directives index fields entries placements)
    (hparts : ∀ init ∈ entries.filterMap Classified.fieldInit?, ∃ one, Constructor.part init = .ok one) :
    List.Forall₂ (fun pair left => pair.1.Leaves pair.2.role left)
      ((fields.zip entries).filter fun pair => pair.2.role.isStored)
      (placements.filterMap Placement.stored?) := by
  induction h with
  | nil index => exact .nil
  | @cons index name field fields entry entries placement placements hname hfirst hrest ih =>
    have hhead : ∀ init, entry.fieldInit? = some init → ∃ one, Constructor.part init = .ok one := by
      intro init hinit
      exact hparts init (List.mem_filterMap.mpr ⟨entry, List.mem_cons_self, hinit⟩)
    have htail := ih fun init hinit => hparts init (by
      obtain ⟨other, hother, hsome⟩ := List.mem_filterMap.mp hinit
      exact List.mem_filterMap.mpr ⟨other, List.mem_cons_of_mem _ hother, hsome⟩)
    obtain ⟨hlifted, hnone⟩ | ⟨hkept, left, hleft, hleaves⟩ := hfirst.leaves hname hhead
    · rw [List.zip_cons_cons, List.filter_cons_of_neg (by simp [hlifted]),
        List.filterMap_cons_none hnone]
      exact htail
    · rw [List.zip_cons_cons, List.filter_cons_of_pos (by simpa using hkept),
        List.filterMap_cons_some hleft]
      exact .cons hleaves htail

/-! ## A plain struct -/

/-- The directives ask for this access level and for nothing else. -/
structure Directives.Only (directives : Directives) (access : Access) : Prop where
  /-- The access level. -/
  access : directives.access = access
  /-- No member is excluded. -/
  excluded : directives.excluded = []
  /-- No member has a default. -/
  defaults : directives.defaults = []

/-- A member that nothing is said about is a parameter of the type it is declared with. -/
theorem Member.role_plain {directives : Directives} {access : Access} (honly : directives.Only access)
    {explicit : Option Descriptor} {visibility : Visibility} {role : Role} :
    Member.role directives ⟨name, explicit, .empty, visibility, index⟩ = .ok role ↔
      ∃ type, explicit = some type ∧ role = .parameter type none := by
  have hexcluded : directives.excluded? name.name = none := by
    rw [Directives.excluded?, honly.excluded]
    rfl
  have hdefault : directives.default? name.name = none := by
    rw [Directives.default?, honly.defaults]
    rfl
  simp only [Member.role, Member.name, hexcluded, hdefault, MemberOptions.empty,
    Bool.false_eq_true, Option.isSome_none, Bool.and_false, if_false, map_eq_ok]
  cases explicit with
  | none => simp [Member.storedType]
  | some type => simp [Member.storedType, eq_comm]

/-- What is made of a plain field is a parameter of its type, and the field stays as it is. -/
theorem made_plain_iff {directives : Directives} {access : Access} (honly : directives.Only access) (index : Nat)
    (name : Ident) (hplain : field.Plain) {entry : Classified} :
    Made directives index name field entry placement ↔
      ∃ type, ofType? field.type = some type ∧
        entry = ⟨⟨name, some type, .empty, field.visibility, index⟩, .parameter type none⟩ ∧
        placement = .stored field := by
  have hkeeps : ∀ type, ofType? field.type = some type →
      Placement.ofStored field type = .ok (.stored field) := by
    intro type htype
    unfold Placement.ofStored
    split
    case h_1 hinfer =>
      rw [hinfer, ofType?] at htype
      contradiction
    case h_2 => rfl
  constructor
  · rintro ⟨hdeclared, hgiven, hplaced⟩
    obtain ⟨member, role⟩ := entry
    obtain ⟨options, hoptions, rfl⟩ := Member.ofField_eq_ok hdeclared
    rw [hplain.ofAttributes] at hoptions
    cases hoptions
    obtain ⟨type, htype, rfl⟩ := (Member.role_plain honly).mp hgiven
    rw [hplain.stripped_eq] at hplaced
    have hsame := (hkeeps type htype).symm.trans hplaced
    cases hsame
    exact ⟨type, htype, by rw [htype], rfl⟩
  · rintro ⟨type, htype, rfl, rfl⟩
    refine ⟨?_, (Member.role_plain honly).mpr ⟨type, rfl, rfl⟩, ?_⟩
    · rw [Member.ofField, hplain.ofAttributes, htype]
    · rw [hplain.stripped_eq]
      exact hkeeps type htype

namespace MadeAll

variable {directives : Directives} {access : Access} {fields : List Field}

/-- Plain fields stay as they are, each is a parameter, and the texts of all of them are parsed. -/
theorem of_plain (honly : directives.Only access) (hplain : ∀ field ∈ fields, field.Plain)
    {found : List Constructor.Part} (h : MadeAll directives index fields entries placements)
    (hparts : Constructor.parts (entries.filterMap Classified.fieldInit?) = .ok found) :
    (∀ field ∈ fields, field.Taken) ∧ placements = fields.map Placement.stored ∧
      (found.filterMap Constructor.Part.param).map (fun param => some param.1) =
        fields.map Field.ident := by
  induction h generalizing found with
  | nil index =>
    cases hparts
    simp
  | @cons index name field fields entry entries placement placements hname hfirst hrest ih =>
    obtain ⟨hfield, hfields⟩ := List.forall_mem_cons.mp hplain
    obtain ⟨type, htype, rfl, rfl⟩ := (made_plain_iff honly index name hfield).mp hfirst
    obtain ⟨first, hpart, hmore⟩ := bind_eq_ok.mp hparts
    obtain ⟨others, hothers, hdone⟩ := bind_eq_ok.mp hmore
    cases hdone
    obtain ⟨htaken, hkept, hparams⟩ := ih hfields hothers
    obtain ⟨-, parsed, hparam⟩ := Constructor.part_parameter hpart
    refine ⟨?_, by rw [hkept, List.map_cons], ?_⟩
    · rw [List.forall_mem_cons]
      exact ⟨⟨name, type, hname, htype, Constructor.exists_part_iff.mp ⟨first, hpart⟩⟩, htaken⟩
    · rw [List.filterMap_cons_some hparam, List.map_cons, List.map_cons, hparams, hname]

/-- Something is made of plain fields whose texts are parsed. -/
theorem exists_of_taken (honly : directives.Only access) (hplain : ∀ field ∈ fields, field.Plain)
    (htaken : ∀ field ∈ fields, field.Taken) (index : Nat) :
    ∃ entries placements found, MadeAll directives index fields entries placements ∧
      Constructor.parts (entries.filterMap Classified.fieldInit?) = .ok found := by
  induction fields generalizing index with
  | nil => exact ⟨[], [], [], .nil index, rfl⟩
  | cons field fields ih =>
    obtain ⟨hfield, hfields⟩ := List.forall_mem_cons.mp hplain
    obtain ⟨⟨name, type, hname, htype, htexts⟩, hothers⟩ := List.forall_mem_cons.mp htaken
    obtain ⟨entries, placements, found, hmade, hparts⟩ := ih hfields hothers (index + 1)
    obtain ⟨first, hfirst⟩ := Constructor.exists_part_iff.mpr htexts
    have hone := (made_plain_iff honly index name hfield).mpr ⟨type, htype, rfl, rfl⟩
    exact ⟨_, _, first :: found, .cons hname hone hmade,
      bind_eq_ok.mpr ⟨first, hfirst, bind_eq_ok.mpr ⟨found, hparts, rfl⟩⟩⟩

end MadeAll

/-- An expansion of a plain struct: the struct stays, and every field is a parameter. -/
structure Repeats (host : Struct) (access : Access) (again : Expansion) : Prop where
  /-- The struct is the same. -/
  decl : again.decl = host
  /-- The constructor is seen as far. -/
  access : again.constructor.access = access
  /-- There is a parameter for every field, in order. -/
  params : again.constructor.params.map (fun param => some param.1) =
    host.namedFields.map Field.ident
  /-- No member is lifted. -/
  lifted : again.statics = [] ∧ again.getters = []

/-- A plain struct is expanded exactly when the texts of its fields are parsed, and this leaves it as it is. -/
theorem expand_plain {args item : Tokens} {decl : Struct} {directives : Directives}
    {access : Access} (hasked : Directives.resolve args = .ok directives)
    (honly : directives.Only access) (hhost : readHost directives item = .ok decl)
    (hplain : ∀ field ∈ decl.namedFields, field.Plain) :
    ((∃ again, expand args item = .ok again) ↔ ∀ field ∈ decl.namedFields, field.Taken) ∧
      ∀ again, expand args item = .ok again →
        Repeats (decl.withFields decl.namedFields) access again := by
  have hruns : ∀ again, expand args item = .ok again →
      (∀ field ∈ decl.namedFields, field.Taken) ∧
        Repeats (decl.withFields decl.namedFields) access again := by
    intro again hagain
    obtain ⟨read, found, entries, placements, parts, hrun, rfl⟩ := Run.expand_eq_ok.mp hagain
    have hsame : found = directives := by
      have hboth := hrun.asked.symm.trans hasked
      cases hboth
      rfl
    subst hsame
    have hsame : read = decl := by
      have hboth := hrun.host.symm.trans hhost
      cases hboth
      rfl
    subst hsame
    obtain ⟨htaken, rfl, hparams⟩ := hrun.made.of_plain honly hplain hrun.parsed
    have hstored : ∀ fields : List Field,
        (fields.map Placement.stored).filterMap Placement.stored? = fields := by
      intro fields
      simp [List.filterMap_map, Function.comp_def, Placement.stored?]
    have hnamed : (read.withFields read.namedFields).namedFields = read.namedFields :=
      withFields_namedFields id
    refine ⟨htaken, ?_, honly.access, ?_, ?_, ?_⟩
    · rw [hstored]
    · rw [hnamed]
      exact hparams
    · simp [Run.expansion, List.filterMap_map, Function.comp_def, Placement.static?]
    · simp [Run.expansion, List.filterMap_map, Function.comp_def, Placement.getter?]
  refine ⟨⟨?_, ?_⟩, fun again hagain => (hruns again hagain).2⟩
  · rintro ⟨again, hagain⟩
    exact (hruns again hagain).1
  · intro htaken
    obtain ⟨entries, placements, parts, hmade, hparts⟩ :=
      MadeAll.exists_of_taken honly hplain htaken 0
    have hkeys : checkKeys (entries.map fun entry => entry.member.name) directives = .ok () := by
      simp [checkKeys, Directives.keys, honly.excluded, honly.defaults]
    exact ⟨_, Run.expand_eq_ok.mpr
      ⟨decl, directives, entries, placements, parts, ⟨hasked, hhost, hmade, hkeys, hparts⟩, rfl⟩⟩

/-! ## The struct that is left -/

/-- What is left of a struct whose members have these roles. -/
structure Grammar.Struct.Leaves (decl : Struct) (members : List Classified) (left : Struct) :
    Prop where
  /-- All but the fields stays: attributes, visibility, name, generic parameters and conditions. -/
  head : left = { decl with fields := left.fields }
  /-- The fields stay between braces, or there are none. -/
  kind : (∃ fields, decl.fields = .named fields) ∧ left.fields = .named ⟨left.namedFields, false⟩ ∨
    decl.fields = .unit ∧ left.fields = .unit
  /-- Every field declares the member at its place. -/
  declared : decl.namedFields.map Field.ident = members.map fun entry => some entry.member.ident
  /-- The fields of stored members are left, in order. -/
  fields : List.Forall₂ (fun pair left => pair.1.Leaves pair.2.role left)
    ((decl.namedFields.zip members).filter fun pair => pair.2.role.isStored) left.namedFields
  /-- Nothing that is left describes a member. -/
  plain : ∀ field ∈ left.namedFields, field.Plain

theorem plain_of_leaves {pairs : List (Field × Classified)} {fields : List Field}
    (h : List.Forall₂ (fun pair left => pair.1.Leaves pair.2.role left) pairs fields) :
    ∀ field ∈ fields, field.Plain := by
  induction h with
  | nil => simp
  | @cons pair left pairs fields hfirst hrest ih =>
    rw [List.forall_mem_cons]
    refine ⟨fun attr hattr => ?_, ih⟩
    rw [hfirst.attrs] at hattr
    simpa using (List.mem_filter.mp hattr).2

theorem Run.leaves {args item : Tokens} {decl : Struct} {directives : Directives} {parts : List Constructor.Part}
    (h : Run args item decl decl.namedFields directives entries placements parts) :
    decl.Leaves entries (decl.withFields (placements.filterMap Placement.stored?)) := by
  obtain ⟨hparse, hkind, -⟩ := readHost_eq_ok_iff.mp h.host
  have hfields := h.made.leaves (Constructor.exists_part_of_mem h.parsed)
  have hnamed : (decl.withFields (placements.filterMap Placement.stored?)).namedFields =
      placements.filterMap Placement.stored? := by
    refine withFields_namedFields fun hempty => ?_
    have hmade := h.made
    rw [hempty] at hmade
    cases hmade
    rfl
  have hplain := plain_of_leaves hfields
  rw [← hnamed] at hfields hplain
  refine ⟨?_, ?_, ?_, hfields, hplain⟩
  · unfold Struct.withFields
    split <;> rfl
  · rw [hnamed]
    unfold Struct.withFields
    cases hown : decl.fields with
    | named fields => exact .inl ⟨⟨fields, rfl⟩, rfl⟩
    | tuple fields => exact absurd hown (hkind fields)
    | unit => exact .inr ⟨rfl, hown⟩
  · have hidents := ofFields_idents (parseItem_fieldsNamed hparse) h.made.ok.1
    rw [List.map_map] at hidents
    exact hidents

/-- An expansion leaves the declaration as it was, but for member attributes, members that are lifted out of it, and
placeholders. Tokens that are parsed as a struct with the fields that are left, and as far to be seen, are
expanded under the same access level alone exactly when the texts that the constructor has for these fields are
parsed; the struct then stays as it is, and the constructor has one parameter for every field. -/
theorem expand_leaves_declaration {args item : Tokens} {expansion : Expansion}
    (h : expand args item = .ok expansion) :
    ∃ decl analysis, parseItem item = .ok (.struct decl) ∧ analyze args item = .ok analysis ∧
      decl.Leaves analysis.members expansion.decl ∧
      ∀ args' item' directives other, Directives.resolve args' = .ok directives →
        directives.Only expansion.constructor.access → parseItem item' = .ok (.struct other) →
        other.visibility = decl.visibility → other.fields = expansion.decl.fields →
          ((∃ again, expand args' item' = .ok again) ↔
            ∀ field ∈ expansion.decl.namedFields, field.Taken) ∧
          ∀ again, expand args' item' = .ok again →
            Repeats other expansion.constructor.access again := by
  obtain ⟨decl, asked, entries, placements, parts, hrun, rfl⟩ := Run.expand_eq_ok.mp h
  obtain ⟨host, -, hanalyze⟩ := hrun.analyze_eq
  have hleaves := hrun.leaves
  obtain ⟨hparse, -, hseen, hfar⟩ := readHost_eq_ok_iff.mp hrun.host
  refine ⟨decl, _, hparse, hanalyze, hleaves, ?_⟩
  intro args' item' directives other hasked honly hother hvisibility hfields
  have hsame : other.fields =
      (decl.withFields (placements.filterMap Placement.stored?)).fields := hfields
  have hnamed : other.namedFields =
      (decl.withFields (placements.filterMap Placement.stored?)).namedFields := by
    rw [Struct.namedFields, Struct.namedFields, hsame]
  have hkind := hleaves.kind
  rw [← hsame, ← hnamed] at hkind
  have haccess : directives.access = asked.access := honly.access
  have hhost : readHost directives item' = .ok other := by
    refine readHost_eq_ok_iff.mpr ⟨hother, fun fields htuple => ?_, ?_, ?_⟩
    · simp [htuple] at hkind
    · rwa [hvisibility]
    · rwa [hvisibility, haccess]
  have hkept : other.withFields other.namedFields = other := by
    unfold Struct.withFields
    obtain ⟨-, hkind⟩ | ⟨-, hkind⟩ := hkind
    · rw [hkind]
      dsimp only
      rw [← hkind]
    · rw [hkind]
  have hplain : ∀ field ∈ other.namedFields, field.Plain := by
    rw [hnamed]
    exact hleaves.plain
  have hexpand := expand_plain hasked honly hhost hplain
  rw [hkept, hnamed] at hexpand
  exact hexpand

/-- The tokens of an attribute. -/
def labelled (name : String) (rest : Tokens) : Tokens :=
  sign "#" ++ wrap .bracket (term name ++ rest)

/-- A declaration with a number that has two attributes, and with a computed member. -/
def tallyItem : Tokens :=
  term "pub" ++ term "struct" ++ term "Tally" ++ wrap .brace
    (labelled "serial" [] ++ labelled "member" (wrap .paren []) ++ term "id" ++ sign ":" ++
      term "u8" ++ sign "," ++
      labelled "member" (wrap .paren (term "computed" ++ sign "=" ++ term "f")) ++ term "len" ++
      sign ":" ++ term "u8")

/-- What is left of the declaration. -/
def tallyLeft : Tokens :=
  term "pub" ++ term "struct" ++ term "Tally" ++
    wrap .brace (labelled "serial" [] ++ term "id" ++ sign ":" ++ term "u8")

/-- A path of one word. -/
def oneWord (name : String) : ModPath := ⟨false, [⟨name, .callSite⟩]⟩

/-- The field with the number, with its attributes. -/
def tallyField (attrs : List Attribute) : Field :=
  ⟨⟨false, .callSite, .callSite, oneWord "serial", .word⟩ :: attrs, .inherited,
    some ⟨"id", .callSite⟩, wordType "u8"⟩

/-- A member attribute with options. -/
def memberAttribute (options : Tokens) : Attribute :=
  ⟨false, .callSite, .callSite, oneWord "member", .list .paren options .callSite .callSite⟩

/-- The field with the computed member. -/
def tallyComputed : Field :=
  ⟨[memberAttribute (term "computed" ++ sign "=" ++ term "f")], .inherited,
    some ⟨"len", .callSite⟩, wordType "u8"⟩

/-- The struct with fields. -/
def tallyDecl (fields : List Field) : Struct :=
  ⟨[], .everywhere .callSite, .callSite, ⟨"Tally", .callSite⟩, ⟨⟨[], false⟩, ⟨[], false⟩⟩,
    .named ⟨fields, false⟩⟩

theorem parseItem_tallyItem :
    parseItem tallyItem =
      .ok (.struct (tallyDecl [tallyField [memberAttribute []], tallyComputed])) := by
  cbv

/-- The text of a number can be the type of a parameter. -/
theorem tallyField_taken : (tallyField []).Taken := by
  have htype : ofType? (wordType "u8") = some (named "u8") := by decide +kernel
  obtain ⟨pos, hread⟩ := Tokens.read_word (show Text.isIdentifier "u8".toList = true by decide)
  have hparse : ∃ found, parseText parseType "u8" = .ok found := by
    rw [parseText, hread]
    exact ⟨_, parseType_of_name pos rfl⟩
  exact ⟨⟨"id", .callSite⟩, named "u8", rfl, htype, hparse, by simp [escapes]⟩

/-- The declaration is expanded, and the number is left. -/
theorem expand_tallyItem :
    ∃ expansion, expand [] tallyItem = .ok expansion ∧
      expansion.decl = tallyDecl [tallyField []] ∧ expansion.constructor.access = .exported := by
  obtain ⟨name, type, hname, htype, ⟨found, hfound⟩, hboxed⟩ := tallyField_taken
  cases hname
  obtain ⟨part, hpart⟩ := Constructor.exists_part_iff.mpr ⟨⟨found, hfound⟩, hboxed⟩
  have hof : ofType? (wordType "u8") = some (named "u8") := by decide +kernel
  cases htype.symm.trans hof
  have hid : Made .initial 0 ⟨"id", .callSite⟩ (tallyField [memberAttribute []])
      ⟨⟨⟨"id", .callSite⟩, some (named "u8"), .empty, .inherited, 0⟩,
        .parameter (named "u8") none⟩ (.stored (tallyField [])) := ⟨by cbv, rfl, rfl⟩
  have hlen : Made .initial 1 ⟨"len", .callSite⟩ tallyComputed
      ⟨⟨⟨"len", .callSite⟩, some (named "u8"), ⟨none, false, false, some ⟨.other, term "f"⟩⟩,
        .inherited, 1⟩, .computed (named "u8")⟩
      (.getter ⟨.inherited, ⟨"len", .callSite⟩, found, term "f"⟩) :=
    ⟨by cbv, rfl, bind_eq_ok.mpr ⟨found, parseGenerated_ok.mpr hfound, rfl⟩⟩
  have hhost : readHost .initial tallyItem =
      .ok (tallyDecl [tallyField [memberAttribute []], tallyComputed]) :=
    readHost_eq_ok_iff.mpr ⟨parseItem_tallyItem, by simp [tallyDecl], by decide, by decide⟩
  have hrun : Run [] tallyItem _ _ .initial _ _ [part] :=
    ⟨rfl, hhost, .cons rfl hid (.cons rfl hlen (.nil _)), rfl, bind_eq_ok.mpr ⟨part, hpart, rfl⟩⟩
  exact ⟨_, Run.expand_eq hrun rfl, rfl, rfl⟩

/-- What is left of the declaration is expanded again, and it stays as it is. -/
theorem tally_expanded_again :
    ∃ expansion again, expand [] tallyItem = .ok expansion ∧
      parseItem tallyLeft = .ok (.struct expansion.decl) ∧ expand [] tallyLeft = .ok again ∧
      expansion.decl = tallyDecl [tallyField []] ∧ Repeats expansion.decl .exported again := by
  obtain ⟨expansion, hexpand, hdecl, haccess⟩ := expand_tallyItem
  have hleft : parseItem tallyLeft = .ok (.struct (tallyDecl [tallyField []])) := rfl
  obtain ⟨decl, analysis, hitem, -, -, hagain⟩ := expand_leaves_declaration hexpand
  cases hitem.symm.trans parseItem_tallyItem
  rw [hdecl, haccess] at hagain
  obtain ⟨hiff, hrepeats⟩ := hagain [] tallyLeft .initial _ rfl ⟨rfl, rfl, rfl⟩ hleft rfl rfl
  obtain ⟨again, hexpandAgain⟩ := hiff.mpr fun field hfield => by
    rw [List.mem_singleton.mp hfield]
    exact tallyField_taken
  exact ⟨expansion, again, hexpand, hdecl ▸ hleft, hexpandAgain, hdecl,
    hdecl ▸ hrepeats again hexpandAgain⟩

end Fieldwise
