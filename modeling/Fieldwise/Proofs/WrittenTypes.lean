import Fieldwise.Proofs.ConstructorText
import Fieldwise.Proofs.Outlines

/-!
# Writing an inferred type out

A member with a placeholder for its type gets the type that its initial value determines. Writing that type
in the place of the placeholder takes the expansion through other steps: the type is described by its text, its
structure is read from that text, and the field keeps it as it stands. Member by member the two runs stay alike:
descriptors that can stand for each other give the same roles, the same values, and types with the same tokens.
-/

namespace Fieldwise

open Grammar Token Descriptor

/-! ## Fields -/

/-- The type that the initial value of a field determines. -/
def Grammar.Field.inferred? (field : Field) : Option Descriptor :=
  match MemberOptions.ofAttributes field.attrs .empty with
  | .ok options => options.initial.bind Value.infer
  | .error _ => none

/-- A field stays, or its placeholder gives way to the type that its initial value determines, if what is
written can stand for what was inferred. -/
inductive Grammar.Field.WrittenOut : Field → Field → Prop
  | kept (field : Field) : WrittenOut field field
  | placed {field : Field} {inferred : Descriptor} {type : Ty} (hplaceholder : field.type = .infer)
    (hinferred : field.inferred? = some inferred)
    (htype : parseText parseType inferred.text = .ok type)
    (hsame : Interchangeable inferred ((ofType? type).getD inferred)) :
    WrittenOut field { field with type := type }

/-- The member of a field has its name, its visibility, its type as it is written, and the options of its
attributes. -/
theorem Member.ofField_eq_ok {index : Nat} {name : Ident} {field : Field} {member : Member}
    (h : Member.ofField index name field = .ok member) :
    ∃ options, MemberOptions.ofAttributes field.attrs .empty = .ok options ∧
      member = ⟨name, ofType? field.type, options, field.visibility, index⟩ := by
  unfold Member.ofField at h
  split at h
  case h_1 options hoptions =>
    cases h
    exact ⟨options, hoptions, rfl⟩
  case h_2 => contradiction

/-! ## Roles -/

/-- Roles of one kind whose types can stand for each other. -/
inductive Role.Alike : Role → Role → Prop
  | parameter {type other : Descriptor} (h : Interchangeable type other)
    (default : Option Default) : Alike (.parameter type default) (.parameter other default)
  | initialized {type other : Descriptor} (h : Interchangeable type other) :
    Alike (.initialized type) (.initialized other)
  | static {type other : Descriptor} (h : Interchangeable type other) :
    Alike (.static type) (.static other)
  | computed {type other : Descriptor} (h : Interchangeable type other) :
    Alike (.computed type) (.computed other)

theorem Role.Alike.refl (role : Role) : role.Alike role := by
  cases role with
  | parameter type default => exact .parameter (.refl type) default
  | initialized type => exact .initialized (.refl type)
  | static type => exact .static (.refl type)
  | computed type => exact .computed (.refl type)

/-- Members that differ in the type they are declared with alone, in roles that are alike. -/
structure Classified.Alike (entry other : Classified) : Prop where
  /-- The members. -/
  member : other.member = { entry.member with explicit := other.member.explicit }
  /-- The roles. -/
  role : entry.role.Alike other.role

theorem Classified.Alike.refl (entry : Classified) : entry.Alike entry := ⟨rfl, .refl entry.role⟩

/-- The kind of a role is chosen without looking at the type that a member is declared with: no role, a computed
one, or one whose type is the declared type or the type of the initial value. -/
theorem Member.role_choice (directives : Directives) (member : Member) :
    (∃ fault, ∀ explicit,
      Member.role directives { member with explicit := explicit } = .error fault) ∨
    (∀ explicit, Member.role directives { member with explicit := explicit } =
      Role.computed <$> Member.computedType { member with explicit := explicit }) ∨
    ∃ make : Descriptor → Role, (∀ type, (make type).type = type) ∧
      (∀ {type other}, Interchangeable type other → (make type).Alike (make other)) ∧
      ∀ explicit, Member.role directives { member with explicit := explicit } =
        make <$> Member.storedType { member with explicit := explicit } := by
  unfold Member.role
  dsimp only [Member.name]
  cases directives.excluded? member.ident.name with
  | some exclusion =>
    by_cases hinitial : member.options.initial.isSome = true
    · by_cases hstatic : member.options.isStatic = true
      · exact .inr (.inr ⟨.static, fun _ => rfl, .static, fun _ => by simp [hinitial, hstatic]⟩)
      · exact .inr (.inr ⟨.initialized, fun _ => rfl, .initialized,
          fun _ => by simp [hinitial, hstatic]⟩)
    · exact .inl ⟨_, fun _ => if_neg hinitial⟩
  | none =>
    by_cases hstatic : member.options.isStatic = true
    · by_cases hinitial : member.options.initial.isSome = true
      · exact .inr (.inr ⟨.static, fun _ => rfl, .static, fun _ => by simp [hinitial, hstatic]⟩)
      · exact .inl ⟨.staticWithoutValue member.ident.name member.ident.pos,
          fun _ => by simp [hinitial, hstatic]⟩
    by_cases hconstant : (member.options.isConstant && member.options.initial.isSome) = true
    · exact .inr (.inr ⟨.initialized, fun _ => rfl, .initialized,
        fun _ => by simp only [hstatic, hconstant, if_true, Bool.false_eq_true, if_false]⟩)
    by_cases hcomputed : member.options.computed.isSome = true
    · exact .inr (.inl fun _ => by
        simp only [hstatic, hconstant, hcomputed, if_true, Bool.false_eq_true, if_false])
    · exact .inr (.inr ⟨fun type => .parameter type (directives.default? member.ident.name),
        fun _ => rfl, fun h => .parameter h _, fun _ => by
          simp only [hstatic, hconstant, hcomputed, Bool.false_eq_true, if_false]⟩)

/-- A member with a placeholder and a role has a value that determines its type, and it has a role of the same
kind when it is declared with a type. -/
theorem Member.role_of_placeholder {directives : Directives} {member : Member} {role : Role}
    (hexplicit : member.explicit = none) (h : member.role directives = .ok role) :
    ∃ (make : Descriptor → Role) (inferred : Descriptor),
      member.options.initial.bind Value.infer = some inferred ∧ role = make inferred ∧
      (∀ type, (make type).type = type) ∧
      (∀ {type other}, Interchangeable type other → (make type).Alike (make other)) ∧
      ∀ declared : Option Descriptor, Member.role directives { member with explicit := declared } =
        .ok (make (declared.getD inferred)) := by
  obtain ⟨fault, hfault⟩ | hcomputed | ⟨make, htype, halike, hmake⟩ :=
    role_choice directives member
  · have hboth := h.symm.trans (hfault member.explicit)
    contradiction
  · obtain ⟨type, hnone, -⟩ := map_eq_ok.mp ((hcomputed member.explicit).symm.trans h)
    simp [Member.computedType, hexplicit] at hnone
  · obtain ⟨type, hstored, rfl⟩ := map_eq_ok.mp ((hmake member.explicit).symm.trans h)
    unfold Member.storedType at hstored
    simp only [hexplicit] at hstored
    split at hstored
    case h_2 => contradiction
    case h_1 found hfound =>
      cases hstored
      refine ⟨make, _, hfound, rfl, htype, halike, fun declared => ?_⟩
      rw [hmake]
      cases declared with
      | none =>
        simp only [Member.storedType, hfound]
        rfl
      | some type => rfl

/-! ## Placements -/

theorem parseGenerated_ok {α : Type} {parser : Tokens → Except SyntaxError α} {text : String}
    {value : α} : parseGenerated parser text = .ok value ↔ parseText parser text = .ok value := by
  unfold parseGenerated
  cases parseText parser text <;> simp

/-- A generated type is parsed as one with the same tokens. -/
theorem parseGenerated_alike {text other : String} (h : ReadAlike text other) {type : Ty}
    (hparse : parseGenerated parseType text = .ok type) :
    ∃ found, parseGenerated parseType other = .ok found ∧
      plainAll found.tokens = plainAll type.tokens := by
  obtain ⟨found, hfound, htokens⟩ := h type (parseGenerated_ok.mp hparse)
  exact ⟨found, parseGenerated_ok.mpr hfound, htokens⟩

namespace Placement

/-- The same field, or lifted members that are written with the same tokens. -/
inductive Alike : Placement → Placement → Prop
  | stored (field : Field) : Alike (.stored field) (.stored field)
  | static {accessor other : Accessor}
    (h : ∀ params, plainAll (other.tokens params) = plainAll (accessor.tokens params)) :
    Alike (.static accessor) (.static other)
  | getter {accessor other : Accessor}
    (h : ∀ params, plainAll (other.tokens params) = plainAll (accessor.tokens params)) :
    Alike (.getter accessor) (.getter other)

theorem Alike.refl (placement : Placement) : placement.Alike placement := by
  cases placement with
  | stored field => exact .stored field
  | static accessor => exact .static fun _ => rfl
  | getter accessor => exact .getter fun _ => rfl

/-- The type of a member whose field has a placeholder is parsed wherever the member is placed. -/
theorem parses_of_ok {field : Field} {entry : Classified} {placement : Placement}
    (hplaceholder : field.type = .infer) (h : Placement.of field entry = .ok placement) :
    ∃ type, parseText parseType entry.role.type.text = .ok type := by
  have hstored : ∀ type, ofStored field type = .ok placement →
      ∃ found, parseText parseType type.text = .ok found := by
    intro type hstored
    simp only [ofStored, hplaceholder] at hstored
    obtain ⟨found, hfound, -⟩ := bind_eq_ok.mp hstored
    exact ⟨found, parseGenerated_ok.mp hfound⟩
  obtain ⟨member, role⟩ := entry
  cases role with
  | parameter type default => exact hstored type h
  | initialized type => exact hstored type h
  | static type =>
    unfold Placement.of at h
    dsimp only at h
    split at h
    · contradiction
    · obtain ⟨body, -, hrest⟩ := bind_eq_ok.mp h
      obtain ⟨found, hfound, -⟩ := bind_eq_ok.mp hrest
      exact ⟨found, parseGenerated_ok.mp hfound⟩
  | computed type =>
    obtain ⟨found, hfound, -⟩ := bind_eq_ok.mp h
    exact ⟨found, parseGenerated_ok.mp hfound⟩

/-- A stored field is the same whether its type is parsed in the place of a placeholder or was written
there. -/
theorem ofStored_written {field : Field} {inferred declared : Descriptor} {type : Ty}
    (hplaceholder : field.type = .infer) (htype : parseText parseType inferred.text = .ok type)
    (hdeclared : type = .infer → declared = inferred) :
    ofStored field inferred = .ok (stored { field with type := type }) ∧
      ofStored { field with type := type } declared = .ok (stored { field with type := type }) := by
  have hfirst : ofStored field inferred = .ok (stored { field with type := type }) := by
    simp only [ofStored, hplaceholder, parseGenerated, htype]
    rfl
  refine ⟨hfirst, ?_⟩
  cases type with
  | infer =>
    rw [hdeclared rfl]
    have hsame : { field with type := .infer } = field := by rw [← hplaceholder]
    rw [hsame] at hfirst ⊢
    exact hfirst
  | _ => rfl

/-- Members in roles that are alike are placed alike, if their stored fields are. -/
theorem of_alike {field other : Field} {entry entry' : Classified} (h : entry.Alike entry')
    {placement : Placement}
    (hstored : ∀ found, ofStored field entry.role.type = .ok found →
      ofStored other entry'.role.type = .ok found)
    (hplacement : Placement.of field entry = .ok placement) :
    ∃ found, Placement.of other entry' = .ok found ∧ placement.Alike found := by
  obtain ⟨member, role⟩ := entry
  obtain ⟨member', role'⟩ := entry'
  obtain ⟨hmember, hrole⟩ := h
  dsimp only at hmember hrole hstored
  rw [hmember]
  cases hrole with
  | parameter hsame default =>
    exact ⟨placement, hstored placement hplacement, .refl placement⟩
  | initialized hsame =>
    exact ⟨placement, hstored placement hplacement, .refl placement⟩
  | static hsame =>
    unfold Placement.of at hplacement ⊢
    dsimp only at hplacement ⊢
    cases hinitial : member.options.initial with
    | none => simp [hinitial] at hplacement
    | some value =>
      simp only [hinitial] at hplacement ⊢
      obtain ⟨body, hbody, hrest⟩ := bind_eq_ok.mp hplacement
      obtain ⟨found, hfound, hdone⟩ := bind_eq_ok.mp hrest
      cases hdone
      obtain ⟨again, hagain, htokens⟩ := parseGenerated_alike hsame.text hfound
      rw [Value.lower_eq_of_outline hsame.outline value] at hbody
      refine ⟨_, bind_eq_ok.mpr ⟨body, hbody, bind_eq_ok.mpr ⟨again, hagain, rfl⟩⟩, ?_⟩
      refine .static fun params => ?_
      simp only [Accessor.tokens, plainAll_append, htokens]
  | computed hsame =>
    obtain ⟨found, hfound, hdone⟩ := bind_eq_ok.mp hplacement
    cases hdone
    obtain ⟨again, hagain, htokens⟩ := parseGenerated_alike hsame.text hfound
    refine ⟨_, bind_eq_ok.mpr ⟨again, hagain, rfl⟩, ?_⟩
    refine .getter fun params => ?_
    simp only [Accessor.tokens, plainAll_append, htokens]

end Placement

/-! ## Member by member -/

/-- What is made of a field: its member, the role of the member, and its placement. -/
structure Made (directives : Directives) (index : Nat) (name : Ident) (field : Field)
    (entry : Classified) (placement : Placement) : Prop where
  /-- The field declares the member. -/
  declared : Member.ofField index name field = .ok entry.member
  /-- The member has the role. -/
  given : entry.member.role directives = .ok entry.role
  /-- The field is placed as the role says. -/
  placed : Placement.of field.stripped entry = .ok placement

/-- What is made of a field stays alike when its type is written out. -/
theorem Made.written {directives : Directives} {index : Nat} {name : Ident} {field other : Field}
    {entry : Classified} {placement : Placement}
    (h : Made directives index name field entry placement) (hwritten : field.WrittenOut other) :
    ∃ entry' placement', Made directives index name other entry' placement' ∧
      entry.Alike entry' ∧ placement.Alike placement' := by
  cases hwritten with
  | kept => exact ⟨entry, placement, h, .refl entry, .refl placement⟩
  | @placed inferred type hplaceholder hinferred htype hsame =>
    obtain ⟨member, role⟩ := entry
    obtain ⟨hdeclared, hgiven, hplaced⟩ := h
    obtain ⟨options, hoptions, rfl⟩ := Member.ofField_eq_ok hdeclared
    have hexplicit : ofType? field.type = none := by rw [hplaceholder, ofType?]
    obtain ⟨make, found, hfound, rfl, hroleType, hmake, hdeclare⟩ :=
      Member.role_of_placeholder hexplicit hgiven
    have hsameType : found = inferred := by
      rw [Field.inferred?, hoptions] at hinferred
      exact Option.some.inj (hfound.symm.trans hinferred)
    subst hsameType
    have halike : Classified.Alike
        ⟨⟨name, ofType? field.type, options, field.visibility, index⟩, make found⟩
        ⟨⟨name, ofType? type, options, field.visibility, index⟩,
          make ((ofType? type).getD found)⟩ := ⟨rfl, hmake hsame⟩
    -- A placeholder that is written for a placeholder is inferred again.
    have hinfer : type = .infer → (ofType? type).getD found = found := by
      rintro rfl
      rfl
    have hstripped : field.stripped.type = .infer := hplaceholder
    have hstored := Placement.ofStored_written hstripped htype hinfer
    have hkeeps : ∀ kept, Placement.ofStored field.stripped (make found).type = .ok kept →
        Placement.ofStored { field.stripped with type := type }
          (make ((ofType? type).getD found)).type = .ok kept := by
      intro kept hkept
      rw [hroleType, hstored.1] at hkept
      rw [hroleType, hstored.2]
      exact hkept
    obtain ⟨placement', hplacement', hplacementAlike⟩ :=
      Placement.of_alike halike hkeeps hplaced
    refine ⟨_, placement', ⟨?_, hdeclare (ofType? type), hplacement'⟩, halike, hplacementAlike⟩
    simp [Member.ofField, hoptions]

/-- The type of a member with a placeholder is determined by its initial value, and it is parsed. -/
theorem Made.inferred {directives : Directives} {index : Nat} {name : Ident} {field : Field}
    {entry : Classified} {placement : Placement}
    (h : Made directives index name field entry placement) (hplaceholder : field.type = .infer) :
    ∃ inferred type, field.inferred? = some inferred ∧
      parseText parseType inferred.text = .ok type := by
  obtain ⟨member, role⟩ := entry
  obtain ⟨hdeclared, hgiven, hplaced⟩ := h
  obtain ⟨options, hoptions, rfl⟩ := Member.ofField_eq_ok hdeclared
  have hexplicit : ofType? field.type = none := by rw [hplaceholder, ofType?]
  obtain ⟨make, inferred, hinferred, rfl, hroleType, -, -⟩ :=
    Member.role_of_placeholder hexplicit hgiven
  have hstripped : field.stripped.type = .infer := hplaceholder
  obtain ⟨type, htype⟩ := Placement.parses_of_ok hstripped hplaced
  rw [hroleType] at htype
  refine ⟨inferred, type, ?_, htype⟩
  rw [Field.inferred?, hoptions]
  exact hinferred

theorem Grammar.Field.WrittenOut.ident_eq {field other : Field} (h : field.WrittenOut other) :
    other.ident = field.ident := by
  cases h <;> rfl

/-- What is made of fields in order, from a place on. -/
inductive MadeAll (directives : Directives) :
    Nat → List Field → List Classified → List Placement → Prop
  | nil (index : Nat) : MadeAll directives index [] [] []
  | cons {index : Nat} {name : Ident} {field : Field} {fields : List Field} {entry : Classified}
    {entries : List Classified} {placement : Placement} {placements : List Placement}
    (hname : field.ident = some name) (hfirst : Made directives index name field entry placement)
    (hrest : MadeAll directives (index + 1) fields entries placements) :
    MadeAll directives index (field :: fields) (entry :: entries) (placement :: placements)

namespace MadeAll

variable {directives : Directives} {index : Nat} {fields : List Field} {members : List Member}
  {entries : List Classified} {placements : List Placement}

/-- The passes over the members end well when something is made of every field. -/
theorem of_ok (hnamed : ∀ field ∈ fields, ∃ name, field.ident = some name)
    (hmembers : Member.ofFields index fields = .ok members)
    (hentries : classify directives members = .ok entries)
    (hplacements : Placement.ofAll (fields.map Field.stripped) entries = .ok placements) :
    MadeAll directives index fields entries placements := by
  induction fields generalizing index members entries placements with
  | nil =>
    cases hmembers
    cases hentries
    cases hplacements
    exact .nil index
  | cons field fields ih =>
    obtain ⟨⟨name, hname⟩, hnamed⟩ := List.forall_mem_cons.mp hnamed
    simp only [Member.ofFields, hname] at hmembers
    split at hmembers
    · contradiction
    rename_i member hmember
    split at hmembers
    · contradiction
    rename_i more hmore
    cases hmembers
    simp only [classify] at hentries
    split at hentries
    · contradiction
    rename_i role hrole
    split at hentries
    · contradiction
    rename_i moreEntries hmoreEntries
    cases hentries
    obtain ⟨placement, hplacement, hplacements⟩ := bind_eq_ok.mp hplacements
    obtain ⟨morePlacements, hmorePlacements, hdone⟩ := bind_eq_ok.mp hplacements
    cases hdone
    exact .cons hname ⟨hmember, hrole, hplacement⟩ (ih hnamed hmore hmoreEntries hmorePlacements)

/-- Where something is made of every field, the passes over the members end well. -/
theorem ok (h : MadeAll directives index fields entries placements) :
    Member.ofFields index fields = .ok (entries.map Classified.member) ∧
      classify directives (entries.map Classified.member) = .ok entries ∧
      Placement.ofAll (fields.map Field.stripped) entries = .ok placements := by
  induction h with
  | nil index => exact ⟨rfl, rfl, rfl⟩
  | @cons index name field fields entry entries placement placements hname hfirst hrest ih =>
    obtain ⟨hmembers, hentries, hplacements⟩ := ih
    refine ⟨?_, ?_, ?_⟩
    · simp only [Member.ofFields, hname, hfirst.declared, hmembers, List.map_cons]
    · simp only [classify, List.map_cons, hfirst.given, hentries]
    · exact bind_eq_ok.mpr ⟨placement, hfirst.placed,
        bind_eq_ok.mpr ⟨placements, hplacements, rfl⟩⟩

theorem of_mem (h : MadeAll directives index fields entries placements) {field : Field}
    (hfield : field ∈ fields) :
    ∃ index name entry placement, Made directives index name field entry placement := by
  induction h with
  | nil index => simp at hfield
  | cons hname hfirst hrest ih =>
    rcases List.mem_cons.mp hfield with rfl | hmore
    · exact ⟨_, _, _, _, hfirst⟩
    · exact ih hmore

/-- What is made of fields stays alike when types are written out. -/
theorem written (h : MadeAll directives index fields entries placements) {others : List Field}
    (hwritten : List.Forall₂ Field.WrittenOut fields others) :
    ∃ entries' placements', MadeAll directives index others entries' placements' ∧
      List.Forall₂ Classified.Alike entries entries' ∧
      List.Forall₂ Placement.Alike placements placements' := by
  induction h generalizing others with
  | nil index =>
    cases hwritten
    exact ⟨[], [], .nil index, .nil, .nil⟩
  | cons hname hfirst hrest ih =>
    cases hwritten with
    | cons hfield hmore =>
      obtain ⟨entry', placement', hmade, hentry, hplacement⟩ := hfirst.written hfield
      obtain ⟨entries', placements', hmades, hentries, hplacements⟩ := ih hmore
      exact ⟨entry' :: entries', placement' :: placements',
        .cons (hfield.ident_eq.trans hname) hmade hmades, .cons hentry hentries,
        .cons hplacement hplacements⟩

end MadeAll

/-! ## The constructor -/

namespace Constructor

/-- Parts that are written with the same tokens. -/
structure Part.Alike (part other : Part) : Prop where
  /-- The parameters have the same tokens. -/
  param : (other.param.map paramTokens).map plainAll = (part.param.map paramTokens).map plainAll
  /-- The assignments are the same. -/
  field : other.field = part.field

theorem Part.Alike.refl (part : Part) : part.Alike part := ⟨rfl, rfl⟩

/-- Parameters whose types can stand for each other are written with the same tokens. -/
theorem part_alike {ident : Ident} {type other : Descriptor} (h : Interchangeable type other)
    (default : Option Default) {found : Part}
    (hfound : part (.parameter ⟨ident, type, default⟩) = .ok found) :
    ∃ again, part (.parameter ⟨ident, other, default⟩) = .ok again ∧ found.Alike again := by
  have htype : ReadAlike (Parameter.typeText ⟨ident, type, default⟩)
      (Parameter.typeText ⟨ident, other, default⟩) := by
    cases default with
    | none => exact h.parameterText
    | some value => exact h.optionText
  have hvalue : Parameter.valueText? ⟨ident, other, default⟩ =
      Parameter.valueText? ⟨ident, type, default⟩ := by
    cases default with
    | none => simp only [Parameter.valueText?, h.escapes]
    | some value =>
      simp only [Parameter.valueText?, Value.lower_eq_of_outline h.outline value.value]
  obtain ⟨parsed, hparsed, hrest⟩ := bind_eq_ok.mp hfound
  obtain ⟨again, hagain, htokens⟩ := parseGenerated_alike htype hparsed
  have hparam : plainAll (paramTokens (ident, again)) = plainAll (paramTokens (ident, parsed)) := by
    simp only [paramTokens, plainAll, plainAll_append, List.cons_append, htokens]
  unfold part
  dsimp only at hrest ⊢
  rw [hvalue]
  split at hrest
  case h_1 shown hshown =>
    obtain ⟨value, hvalue, hdone⟩ := bind_eq_ok.mp hrest
    cases hdone
    exact ⟨_, bind_eq_ok.mpr ⟨again, hagain, bind_eq_ok.mpr ⟨value, hvalue, rfl⟩⟩,
      congrArg some hparam, rfl⟩
  case h_2 hshown =>
    cases hrest
    exact ⟨_, bind_eq_ok.mpr ⟨again, hagain, rfl⟩, congrArg some hparam, rfl⟩

/-- Members in roles that are alike have no part in the constructor, or parts that are alike. -/
theorem fieldInit?_alike {entry entry' : Classified} (h : entry.Alike entry') :
    entry.fieldInit? = none ∧ entry'.fieldInit? = none ∨
      ∃ init init', entry.fieldInit? = some init ∧ entry'.fieldInit? = some init' ∧
        ∀ found, part init = .ok found → ∃ again, part init' = .ok again ∧ found.Alike again := by
  obtain ⟨member, role⟩ := entry
  obtain ⟨member', role'⟩ := entry'
  obtain ⟨hmember, hrole⟩ := h
  dsimp only at hmember hrole
  rw [hmember]
  cases hrole with
  | parameter hsame default =>
    exact .inr ⟨_, _, rfl, rfl, fun found hfound => part_alike hsame default hfound⟩
  | initialized hsame =>
    cases hinitial : member.options.initial with
    | none => exact .inl ⟨by simp [Classified.fieldInit?, hinitial],
        by simp [Classified.fieldInit?, hinitial]⟩
    | some value =>
      refine .inr ⟨_, _, by simp [Classified.fieldInit?, hinitial]; rfl,
        by simp [Classified.fieldInit?, hinitial]; rfl, fun found hfound => ?_⟩
      rw [Value.lower_eq_of_outline hsame.outline value] at hfound
      exact ⟨found, hfound, .refl found⟩
  | static hsame => exact .inl ⟨rfl, rfl⟩
  | computed hsame => exact .inl ⟨rfl, rfl⟩

/-- The parts of members in roles that are alike are alike. -/
theorem parts_alike {entries entries' : List Classified}
    (h : List.Forall₂ Classified.Alike entries entries') {found : List Part}
    (hfound : parts (entries.filterMap Classified.fieldInit?) = .ok found) :
    ∃ again, parts (entries'.filterMap Classified.fieldInit?) = .ok again ∧
      List.Forall₂ Part.Alike found again := by
  induction h generalizing found with
  | nil =>
    cases hfound
    exact ⟨[], rfl, .nil⟩
  | @cons entry entry' entries entries' hfirst hrest ih =>
    obtain ⟨hnone, hnone'⟩ | ⟨init, init', hinit, hinit', hpart⟩ := fieldInit?_alike hfirst
    · rw [List.filterMap_cons_none hnone] at hfound
      rw [List.filterMap_cons_none hnone']
      exact ih hfound
    · rw [List.filterMap_cons_some hinit] at hfound
      rw [List.filterMap_cons_some hinit']
      obtain ⟨first, hfirst, hmore⟩ := bind_eq_ok.mp hfound
      obtain ⟨others, hothers, hdone⟩ := bind_eq_ok.mp hmore
      cases hdone
      obtain ⟨first', hfirst', hfirstAlike⟩ := hpart first hfirst
      obtain ⟨others', hothers', hothersAlike⟩ := ih hothers
      exact ⟨first' :: others',
        bind_eq_ok.mpr ⟨first', hfirst', bind_eq_ok.mpr ⟨others', hothers', rfl⟩⟩,
        .cons hfirstAlike hothersAlike⟩

end Constructor

/-! ## Tokens -/

theorem plainAll_joined (separator : Tokens) (pieces : List Tokens) (trailing : Bool) :
    plainAll (joined separator pieces trailing) =
      joined (plainAll separator) (pieces.map plainAll) trailing := by
  induction pieces with
  | nil => rfl
  | cons piece rest ih =>
    cases rest with
    | nil => cases trailing <;> simp [joined, plainAll_append]
    | cons next rest =>
      simp only [joined, List.map_cons, plainAll_append] at ih ⊢
      rw [ih]

theorem plainAll_wrap (delim : Delim) {body other : Tokens} (h : plainAll body = plainAll other) :
    plainAll (wrap delim body) = plainAll (wrap delim other) := by
  simp [wrap, plainAll, plain, h]

namespace Constructor

/-- Constructors of parts that are alike have the same tokens. -/
theorem tokens_alike (access : Access) {found again : List Part}
    (h : List.Forall₂ Part.Alike found again) :
    plainAll (tokens ⟨access, again.filterMap Part.param, again.map Part.field⟩) =
      plainAll (tokens ⟨access, found.filterMap Part.param, found.map Part.field⟩) := by
  have hsame : ((again.filterMap Part.param).map paramTokens).map plainAll =
      ((found.filterMap Part.param).map paramTokens).map plainAll ∧
      again.map Part.field = found.map Part.field := by
    induction h with
    | nil => exact ⟨rfl, rfl⟩
    | cons hfirst hrest ih =>
      obtain ⟨hparams, hfields⟩ := ih
      have hparam := hfirst.param
      refine ⟨?_, by rw [List.map_cons, List.map_cons, hfirst.field, hfields]⟩
      rw [List.map_filterMap, List.map_filterMap, List.map_filterMap, List.map_filterMap] at hparams ⊢
      rw [List.filterMap_cons, List.filterMap_cons, hparam, hparams]
  obtain ⟨hparams, hfields⟩ := hsame
  have hlist : plainAll (joined (sign ",") ((again.filterMap Part.param).map paramTokens) false) =
      plainAll (joined (sign ",") ((found.filterMap Part.param).map paramTokens) false) := by
    rw [plainAll_joined, plainAll_joined, hparams]
  rw [tokens_eq_layout, tokens_eq_layout]
  simp only [layout, plainAll_append, plainAll_wrap .paren hlist, hfields]

end Constructor

namespace Placement

/-- Placements that are alike keep the same fields and lift members with the same tokens. -/
theorem tokens_alike {placements others : List Placement}
    (h : List.Forall₂ Alike placements others) (params : Tokens) :
    others.filterMap stored? = placements.filterMap stored? ∧
      plainAll ((others.filterMap static?).flatMap (Accessor.tokens params)) =
        plainAll ((placements.filterMap static?).flatMap (Accessor.tokens params)) ∧
      plainAll ((others.filterMap getter?).flatMap (Accessor.tokens params)) =
        plainAll ((placements.filterMap getter?).flatMap (Accessor.tokens params)) := by
  induction h with
  | nil => exact ⟨rfl, rfl, rfl⟩
  | cons hfirst hrest ih =>
    obtain ⟨hstored, hstatic, hgetter⟩ := ih
    cases hfirst with
    | stored field => exact ⟨congrArg (field :: ·) hstored, hstatic, hgetter⟩
    | static hsame =>
      refine ⟨hstored, ?_, hgetter⟩
      simp only [List.filterMap_cons, static?, List.flatMap_cons, plainAll_append, hsame params,
        hstatic]
    | getter hsame =>
      refine ⟨hstored, hstatic, ?_⟩
      simp only [List.filterMap_cons, getter?, List.flatMap_cons, plainAll_append, hsame params,
        hgetter]

end Placement

/-! ## Both runs -/

namespace Host

/-- A host has the members that the named fields declare and the struct without member attributes. -/
theorem ofStruct_eq_ok {decl : Struct} {host : Host} (h : Host.ofStruct decl = .ok host) :
    Member.ofFields 0 decl.namedFields = .ok host.members ∧
      host.decl.namedFields = decl.namedFields.map Field.stripped ∧
      ∀ fields, host.decl.withFields fields = decl.withFields fields := by
  unfold Host.ofStruct at h
  unfold Struct.namedFields Struct.withFields
  split at h
  case h_1 fields hfields =>
    split at h
    case h_1 members hmembers =>
      cases h
      simp only [hfields]
      exact ⟨hmembers, trivial, fun _ => trivial⟩
    case h_2 => contradiction
  case h_2 hfields =>
    cases h
    cases hkind : decl.fields with
    | named fields => exact absurd hkind (hfields fields)
    | tuple fields => exact ⟨rfl, rfl, fun _ => rfl⟩
    | unit => exact ⟨rfl, rfl, fun _ => rfl⟩

/-- A struct whose named fields declare members is a host. -/
theorem exists_ofStruct {decl : Struct} {members : List Member}
    (h : Member.ofFields 0 decl.namedFields = .ok members) :
    ∃ host, Host.ofStruct decl = .ok host ∧ host.members = members := by
  unfold Host.ofStruct
  unfold Struct.namedFields at h
  cases hfields : decl.fields with
  | named fields =>
    simp only [hfields] at h
    simp [h]
  | tuple fields =>
    simp only [hfields] at h
    cases h
    exact ⟨⟨decl, []⟩, rfl, rfl⟩
  | unit =>
    simp only [hfields] at h
    cases h
    exact ⟨⟨decl, []⟩, rfl, rfl⟩

end Host

/-- What an expansion goes through, from the arguments and the fields to the parts of the constructor. -/
structure Run (args item : Tokens) (decl : Struct) (fields : List Field) (directives : Directives)
    (entries : List Classified) (placements : List Placement) (parts : List Constructor.Part) :
    Prop where
  /-- What the arguments ask for. -/
  asked : Directives.resolve args = .ok directives
  /-- The declaration is a host. -/
  host : readHost directives item = .ok decl
  /-- Something is made of each field. -/
  made : MadeAll directives 0 fields entries placements
  /-- Every key names a member. -/
  keys : checkKeys (entries.map fun entry => entry.member.name) directives = .ok ()
  /-- The texts of the constructor are parsed. -/
  parsed : Constructor.parts (entries.filterMap Classified.fieldInit?) = .ok parts

namespace Run

/-- The code at the end of a run. -/
def expansion (decl : Struct) (directives : Directives) (placements : List Placement)
    (parts : List Constructor.Part) : Expansion :=
  ⟨{ decl with fields := .named ⟨placements.filterMap Placement.stored?, false⟩ },
    ⟨directives.access, parts.filterMap Constructor.Part.param, parts.map Constructor.Part.field⟩,
    placements.filterMap Placement.static?, placements.filterMap Placement.getter?⟩

variable {args item : Tokens} {decl : Struct} {fields : List Field} {trailing : Bool}

/-- A run over the named fields of a declaration is an analysis that ends well. -/
theorem analyze_eq {directives : Directives} {entries : List Classified}
    {placements : List Placement} {parts : List Constructor.Part}
    (h : Run args item decl decl.namedFields directives entries placements parts) :
    ∃ host, Host.ofStruct decl = .ok host ∧ analyze args item = .ok ⟨directives, host, entries⟩ := by
  obtain ⟨hmembers, hentries, -⟩ := h.made.ok
  obtain ⟨host, hhost, hsame⟩ := Host.exists_ofStruct hmembers
  rw [← hsame] at hentries
  have hkeys : checkKeys (host.members.map Member.name) directives = .ok () := by
    rw [hsame, List.map_map]
    exact h.keys
  exact ⟨host, hhost, bind_eq_ok.mpr ⟨directives, h.asked, bind_eq_ok.mpr ⟨decl, h.host,
    bind_eq_ok.mpr ⟨host, hhost, bind_eq_ok.mpr ⟨entries, hentries,
      bind_eq_ok.mpr ⟨(), hkeys, rfl⟩⟩⟩⟩⟩⟩

/-- An expansion ends well exactly when there is a run over the named fields of the declaration. -/
theorem expand_eq_ok {found : Expansion} :
    expand args item = .ok found ↔
      ∃ decl directives entries placements parts,
        Run args item decl decl.namedFields directives entries placements parts ∧
          found = { expansion decl directives placements parts with
            decl := decl.withFields (placements.filterMap Placement.stored?) } := by
  constructor
  · intro h
    obtain ⟨analysis, hanalysis, hbuilt⟩ := bind_eq_ok.mp h
    obtain ⟨directives, hasked, hanalysis⟩ := bind_eq_ok.mp hanalysis
    obtain ⟨decl, hread, hanalysis⟩ := bind_eq_ok.mp hanalysis
    obtain ⟨host, hhost, hanalysis⟩ := bind_eq_ok.mp hanalysis
    obtain ⟨entries, hentries, hanalysis⟩ := bind_eq_ok.mp hanalysis
    obtain ⟨checked, hkeys, hdone⟩ := bind_eq_ok.mp hanalysis
    cases hdone
    obtain ⟨placements, hplacements, hbuilt⟩ := bind_eq_ok.mp hbuilt
    obtain ⟨constructor, hconstructor, hbuilt⟩ := bind_eq_ok.mp hbuilt
    obtain ⟨parts, hparts, hdone⟩ := bind_eq_ok.mp hconstructor
    cases hdone
    cases hbuilt
    obtain ⟨hmembers, hstripped, hwith⟩ := Host.ofStruct_eq_ok hhost
    dsimp only at hplacements
    rw [hstripped] at hplacements
    have hmade := MadeAll.of_ok (parseItem_fieldsNamed (readHost_eq_ok hread)) hmembers hentries
      hplacements
    rw [← (classify_ok hentries).1, List.map_map] at hkeys
    refine ⟨decl, directives, entries, placements, parts, ⟨hasked, hread, hmade, hkeys, hparts⟩, ?_⟩
    dsimp only [expansion]
    rw [hwith]
    rfl
  · rintro ⟨decl, directives, entries, placements, parts, hrun, rfl⟩
    obtain ⟨-, -, hplacements⟩ := hrun.made.ok
    obtain ⟨host, hhost, hanalyze⟩ := hrun.analyze_eq
    obtain ⟨-, hstripped, hwith⟩ := Host.ofStruct_eq_ok hhost
    rw [← hstripped] at hplacements
    have hconstructor : Constructor.ofPlan (.ofMembers directives.access entries) =
        .ok ⟨directives.access, parts.filterMap Constructor.Part.param,
          parts.map Constructor.Part.field⟩ := bind_eq_ok.mpr ⟨parts, hrun.parsed, rfl⟩
    rw [← hwith]
    exact bind_eq_ok.mpr ⟨_, hanalyze, bind_eq_ok.mpr ⟨placements, hplacements,
      bind_eq_ok.mpr ⟨_, hconstructor, rfl⟩⟩⟩

theorem of_expand {found : Expansion} (h : expand args item = .ok found)
    (hitem : parseItem item = .ok (.struct decl))
    (hfields : decl.fields = .named ⟨fields, trailing⟩) :
    ∃ directives entries placements parts,
      Run args item decl fields directives entries placements parts ∧
        found = expansion decl directives placements parts := by
  obtain ⟨read, directives, entries, placements, parts, hrun, rfl⟩ := expand_eq_ok.mp h
  have hsame : read = decl := by
    have hparse := readHost_eq_ok hrun.host
    rw [hitem] at hparse
    cases hparse
    rfl
  subst hsame
  simp only [Struct.namedFields, hfields] at hrun
  refine ⟨directives, entries, placements, parts, hrun, ?_⟩
  simp only [expansion, Struct.withFields, hfields]

theorem expand_eq {directives : Directives} {entries : List Classified}
    {placements : List Placement} {parts : List Constructor.Part}
    (h : Run args item decl fields directives entries placements parts)
    (hfields : decl.fields = .named ⟨fields, trailing⟩) :
    expand args item = .ok (expansion decl directives placements parts) := by
  have hnamed : decl.namedFields = fields := by simp only [Struct.namedFields, hfields]
  rw [← hnamed] at h
  refine expand_eq_ok.mpr ⟨decl, directives, entries, placements, parts, h, ?_⟩
  simp only [expansion, Struct.withFields, hfields]

end Run

/-- The struct with other fields between its braces is a host where the struct is. -/
theorem readHost_fields {directives : Directives} {item other : Tokens} {decl : Struct}
    {others : Separated Field} (h : readHost directives item = .ok decl)
    (hother : parseItem other = .ok (.struct { decl with fields := .named others })) :
    readHost directives other = .ok { decl with fields := .named others } := by
  obtain ⟨-, -, hseen, hfar⟩ := readHost_eq_ok_iff.mp h
  exact readHost_eq_ok_iff.mpr ⟨hother, by simp, hseen, hfar⟩

/-- A run goes through the same steps when types are written out, and ends with the same tokens. -/
theorem Run.written {args item other : Tokens} {decl : Struct} {fields others : List Field}
    {directives : Directives} {entries : List Classified} {placements : List Placement}
    {parts : List Constructor.Part} {trailing : Bool}
    (h : Run args item decl fields directives entries placements parts)
    (hwritten : List.Forall₂ Field.WrittenOut fields others)
    (hother : parseItem other = .ok (.struct { decl with fields := .named ⟨others, trailing⟩ })) :
    ∃ again, expand args other = .ok again ∧
      plainAll again.tokens = plainAll (expansion decl directives placements parts).tokens := by
  -- The arguments, the host and the keys are not touched, so all that is left are the members.
  obtain ⟨entries', placements', hmade, hentries, hplacements⟩ := h.made.written hwritten
  obtain ⟨parts', hparts', hparts⟩ := Constructor.parts_alike hentries h.parsed
  have hnames : (entries'.map fun entry => entry.member.name) =
      entries.map fun entry => entry.member.name := by
    clear hmade hparts' h
    induction hentries with
    | nil => rfl
    | @cons entry entry' entries entries' hfirst hrest ih =>
      rw [List.map_cons, List.map_cons, ih, hfirst.member]
      rfl
  have hkeys := h.keys
  rw [← hnames] at hkeys
  have hrun : Run args other { decl with fields := .named ⟨others, trailing⟩ } others directives
      entries' placements' parts' :=
    ⟨h.asked, readHost_fields h.host hother, hmade, hkeys, hparts'⟩
  refine ⟨_, hrun.expand_eq rfl, ?_⟩
  obtain ⟨hstored, hstatics, -⟩ := Placement.tokens_alike hplacements []
  obtain ⟨-, -, hgetters⟩ := Placement.tokens_alike hplacements (sign "&" ++ term "self")
  have hconstructor : plainAll (expansion decl directives placements' parts').constructor.tokens =
      plainAll (expansion decl directives placements parts).constructor.tokens :=
    Constructor.tokens_alike directives.access hparts
  have hinside : plainAll
      (Constructor.tokens (expansion decl directives placements' parts').constructor ++
        (placements'.filterMap Placement.static?).flatMap (Accessor.tokens []) ++
        (placements'.filterMap Placement.getter?).flatMap
          (Accessor.tokens (sign "&" ++ term "self"))) =
      plainAll (Constructor.tokens (expansion decl directives placements parts).constructor ++
        (placements.filterMap Placement.static?).flatMap (Accessor.tokens []) ++
        (placements.filterMap Placement.getter?).flatMap
          (Accessor.tokens (sign "&" ++ term "self"))) := by
    simp only [plainAll_append, hstatics, hgetters, hconstructor]
  unfold Expansion.tokens
  dsimp only [expansion] at hinside ⊢
  rw [hstored]
  simp only [plainAll_append, plainAll_wrap .brace hinside]

/-- Writing out the type that was inferred for a member changes nothing. The type of a member with a placeholder
is determined by its initial value, and its text is parsed as a type. With this type in the place of the
placeholder the declaration is expanded to the same tokens, whatever the role of the member, unless the type is
a box of a callable. The type has to be read back from its own text, and so do its parts: rendering can make a
comment out of operators that stood apart. That a text is parsed as the container of what its parts are parsed
as is taken from the grammar. -/
theorem expand_written_out {args item : Tokens} {expansion : Expansion} {decl : Struct}
    {before after : List Field} {field : Field} {trailing : Bool}
    (hexpand : expand args item = .ok expansion) (hitem : parseItem item = .ok (.struct decl))
    (hfields : decl.fields = .named ⟨before ++ field :: after, trailing⟩)
    (hplaceholder : field.type = .infer) :
    ∃ inferred type, field.inferred? = some inferred ∧
      parseText parseType inferred.text = .ok type ∧
      (type.isBoxedCallable = false → inferred.readsBack = true →
        (optional inferred).composes = true →
        (optional (named (Tokens.text type.tokens))).composes = true →
        ∀ other, parseItem other = .ok (.struct { decl with
            fields := .named ⟨before ++ { field with type := type } :: after, trailing⟩ }) →
          ∃ again, expand args other = .ok again ∧
            plainAll again.tokens = plainAll expansion.tokens) := by
  obtain ⟨directives, entries, placements, parts, hrun, rfl⟩ :=
    Run.of_expand hexpand hitem hfields
  have hmem : field ∈ before ++ field :: after := by simp
  obtain ⟨index, name, entry, placement, hmade⟩ := hrun.made.of_mem hmem
  obtain ⟨inferred, type, hinferred, htype⟩ := hmade.inferred hplaceholder
  refine ⟨inferred, type, hinferred, htype, ?_⟩
  intro hboxed hreads hcomposes hagain other hother
  have hsame : Interchangeable inferred ((ofType? type).getD inferred) := by
    cases hdeclared : ofType? type with
    | none => exact .refl inferred
    | some declared =>
      exact Interchangeable.of_parse hcomposes hagain hreads htype hboxed hdeclared
  have hkept : ∀ fields : List Field, List.Forall₂ Field.WrittenOut fields fields := by
    intro fields
    exact List.forall₂_same.mpr fun field _ => .kept field
  have hwritten : List.Forall₂ Field.WrittenOut (before ++ field :: after)
      (before ++ { field with type := type } :: after) :=
    List.rel_append (hkept before)
      (.cons (.placed hplaceholder hinferred htype hsame) (hkept after))
  exact hrun.written hwritten hother

/-- The option that gives a text as the initial value. -/
def noteOption : Tokens := term "init" ++ sign "=" ++ [.literal "\"a\"" .callSite]

/-- A declaration with a number and a text, with the tokens for the type of the text. -/
def noteItem (type : Tokens) : Tokens :=
  term "pub" ++ term "struct" ++ term "Note" ++ wrap .brace
    (term "id" ++ sign ":" ++ term "u8" ++ sign "," ++ sign "#" ++
      wrap .bracket (term "member" ++ wrap .paren noteOption) ++ term "body" ++ sign ":" ++ type)

/-- The type that is one word. -/
def wordType (name : String) : Ty := .path false [.mk ⟨name, .callSite⟩ .none]

/-- The field with the number. -/
def idField : Field := ⟨[], .inherited, some ⟨"id", .callSite⟩, wordType "u8"⟩

/-- The field with the text, with its type. -/
def bodyField (type : Ty) : Field :=
  ⟨[⟨false, .callSite, .callSite, ⟨false, [⟨"member", .callSite⟩]⟩,
    .list .paren noteOption .callSite .callSite⟩], .inherited, some ⟨"body", .callSite⟩, type⟩

/-- The struct with both fields, with the type of the text. -/
def noteDecl (type : Ty) : Struct :=
  ⟨[], .everywhere .callSite, .callSite, ⟨"Note", .callSite⟩, ⟨⟨[], false⟩, ⟨[], false⟩⟩,
    .named ⟨[idField, bodyField type], false⟩⟩

/-- The arguments of an annotation with a default for the text. -/
def noteArguments : Tokens :=
  term "defaults" ++ sign "=" ++
    wrap .brace (.literal "\"body\"" .callSite :: sign ":" ++ [.literal "\"b\"" .callSite])

/-- A text with a default is expanded to the same tokens whether its type is written out or not. -/
theorem note_written_out :
    ∃ expansion again, expand noteArguments (noteItem (term "_")) = .ok expansion ∧
      (bodyField .infer).inferred? = some string ∧
      parseText parseType string.text = .ok (wordType "String") ∧
      (wordType "String").isBoxedCallable = false ∧ string.readsBack = true ∧
      (optional string).composes = true ∧
      (optional (named (Tokens.text (wordType "String").tokens))).composes = true ∧
      parseItem (noteItem (term "String")) = .ok (.struct (noteDecl (wordType "String"))) ∧
      expand noteArguments (noteItem (term "String")) = .ok again ∧
      plainAll again.tokens = plainAll expansion.tokens := by
  have hexpand : (expand noteArguments (noteItem (term "_"))).toOption.any (fun _ => true) = true := by
    decide +kernel
  have hread : (Tokens.read "String").toOption.any (fun tokens => decide (tokens = term "String")) =
      true := by
    decide +kernel
  have hconditions : string.readsBack = true ∧ (optional string).composes = true ∧
      (optional (named (Tokens.text (wordType "String").tokens))).composes = true := by
    decide +kernel
  obtain ⟨expansion, hexpand, -⟩ := exists_ok_of_any hexpand
  obtain ⟨tokens, hread, htokens⟩ := exists_ok_of_any hread
  rw [of_decide_eq_true htokens] at hread
  obtain ⟨hreads, hcomposes, hagain⟩ := hconditions
  have hitem : parseItem (noteItem (term "_")) = .ok (.struct (noteDecl .infer)) := rfl
  have hother : parseItem (noteItem (term "String")) =
      .ok (.struct (noteDecl (wordType "String"))) := rfl
  have hinfers : (bodyField .infer).inferred? = some string := rfl
  have hparses : parseText parseType string.text = .ok (wordType "String") := by
    have htext : string.text = "String" := rfl
    rw [htext, parseText, hread]
    rfl
  have hfields : (noteDecl .infer).fields =
      .named ⟨[idField] ++ bodyField .infer :: [], false⟩ := rfl
  obtain ⟨inferred, type, hinferred, htype, hwritten⟩ :=
    expand_written_out hexpand hitem hfields rfl
  rw [hinfers] at hinferred
  cases hinferred
  rw [hparses] at htype
  cases htype
  obtain ⟨again, hexpandAgain, hsame⟩ := hwritten rfl hreads hcomposes hagain _ hother
  exact ⟨expansion, again, hexpand, hinfers, hparses, rfl, hreads, hcomposes, hagain, hother,
    hexpandAgain, hsame⟩

end Fieldwise
