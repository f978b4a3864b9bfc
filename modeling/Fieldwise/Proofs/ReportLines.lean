import Fieldwise.Proofs.FirstFault
import Fieldwise.Proofs.Locations
import Fieldwise.Scan

/-!
# The line of a failing report

A fault that an analysis finds points at a token of the annotation's arguments or of the struct, or at the call site,
which is the first line whatever the struct stands in. A fault in generated code points into the text that was
generated, whose lines are counted on their own. The report of a struct takes the line from its fault in each of
these cases, since every place has a line.
-/

namespace Fieldwise

open Fieldwise.Grammar Fieldwise.Token

variable {w : Shift}

variable {fault : Fault} {item args : Tokens} {decl : Struct} {found : Annotated} {pos : Pos} {default : Default}
  {text : String}

/-! ## The places that directives keep -/

/-- A shift leaves the places that directives keep. -/
structure Directives.Kept (w : Shift) (directives : Directives) : Prop where
  /-- The place of the access level stays. -/
  access : w.place directives.accessPos = directives.accessPos
  /-- The places of the exclusions stay. -/
  excluded : ∀ exclusion ∈ directives.excluded, w.place exclusion.pos = exclusion.pos
  /-- The places of the default values stay. -/
  defaults : ∀ default ∈ directives.defaults, w.place default.pos = default.pos

theorem place_of_text {literal : String} (h : w.Fixes (Value.text literal pos)) : w.place pos = pos :=
  (Value.text.inj h).2

theorem exclusions_kept {value : Value} (h : w.Fixes value) {exclusion : Exclusion}
    (hexclusion : exclusion ∈ Directive.exclusions value) : w.place exclusion.pos = exclusion.pos := by
  cases value with
  | array elements =>
    rw [Shift.Fixes, retouch_arrayValue] at h
    have hall : w.Fixes elements := Value.array.inj h
    obtain ⟨element, helement, hsome⟩ := List.mem_filterMap.mp hexclusion
    have hfix := hall.mem helement
    cases element <;> simp only [reduceCtorEq, Option.some.injEq] at hsome
    subst hsome
    exact place_of_text hfix
  | _ => simp [Directive.exclusions] at hexclusion

theorem defaults_kept {value : Value} (h : w.Fixes value) (hdefault : default ∈ Directive.defaults value) :
    w.place default.pos = default.pos := by
  cases value with
  | map entries =>
    rw [Shift.Fixes, retouch_mapValue] at h
    have hall : w.Fixes entries := Value.map.inj h
    obtain ⟨⟨key, shown⟩, hentry, hsome⟩ := List.mem_filterMap.mp hdefault
    have hfix : w.Fixes key := congrArg Prod.fst (hall.mem hentry)
    cases key <;> simp only [reduceCtorEq, Option.some.injEq] at hsome
    subst hsome
    exact place_of_text hfix
  | _ => simp [Directive.defaults] at hdefault

theorem mem_putDefault {new : Default} {defaults : List Default} (h : default ∈ Directives.putDefault new defaults) :
    default = new ∨ default ∈ defaults := by
  induction defaults with
  | nil => exact .inl (List.mem_singleton.mp h)
  | cons old rest ih =>
    unfold Directives.putDefault at h
    split at h
    · rcases List.mem_cons.mp h with h | h
      · exact .inl h
      · exact .inr (List.mem_cons_of_mem _ h)
    · rcases List.mem_cons.mp h with h | h
      · exact .inr (h ▸ List.mem_cons_self)
      · exact (ih h).imp_right (List.mem_cons_of_mem _)

namespace Directives.Kept

variable {directives : Directives}

theorem exclude (h : directives.Kept w) {exclusion : Exclusion}
    (hexclusion : w.place exclusion.pos = exclusion.pos) : (directives.exclude exclusion).Kept w := by
  unfold Directives.exclude
  split
  · exact h
  · refine ⟨h.access, fun other hother => ?_, h.defaults⟩
    rcases List.mem_append.mp hother with hother | hother
    · exact h.excluded other hother
    · exact List.mem_singleton.mp hother ▸ hexclusion

theorem setDefault (h : directives.Kept w) (hdefault : w.place default.pos = default.pos) :
    (directives.setDefault default).Kept w := by
  refine ⟨h.access, h.excluded, fun other hother => ?_⟩
  rcases mem_putDefault hother with rfl | hother
  · exact hdefault
  · exact h.defaults other hother

/-- A directive that stays where it is brings no other places. -/
theorem apply (h : directives.Kept w) {directive : Directive} (hfix : w.Fixes directive) :
    (directive.apply directives).Kept w := by
  have hname : w.Fixes directive.name := congrArg Directive.name hfix
  have hvalue : w.Fixes directive.value := congrArg Directive.value hfix
  unfold Directive.apply
  split
  · exact ⟨congrArg Ident.pos hname, h.excluded, h.defaults⟩
  · exact List.foldlRecOn _ _ h fun _ h _ hmem => h.exclude (exclusions_kept hvalue hmem)
  · exact List.foldlRecOn _ _ h fun _ h _ hmem => h.setDefault (defaults_kept hvalue hmem)
  · exact h

end Directives.Kept

/-- What arguments ask for keeps the places of the arguments. -/
theorem Asks.kept {directives : Directives} (h : Asks args directives) (hargs : w.Fixes args) :
    directives.Kept w := by
  obtain ⟨found, hfound, rfl⟩ := h
  have hinitial : Directives.initial.Kept w := ⟨w.callSite, by simp [Directives.initial], by simp [Directives.initial]⟩
  have hfix : w.Fixes found :=
    fixes_of_parse (parseDirectives_retouch w) hargs (Directive.parseAll_eq_ok.mpr hfound)
  exact List.foldlRecOn _ _ hinitial fun _ h _ hmem => h.apply (hfix.mem hmem)

/-! ## The places of faults -/

/-- What is wrong with the first thing is wrong with something. -/
theorem First.exists_mem {α β : Type} {wrong : α → β → Prop} {xs : List α} {b : β} (h : First wrong xs b) :
    ∃ x ∈ xs, wrong x b := by
  obtain ⟨before, x, after, rfl, -, hx⟩ := h
  exact ⟨x, by simp, hx⟩

/-- A declaration that is read stays where its tokens are. -/
theorem Declares.fixes (h : Declares item decl) (hitem : w.Fixes item) : w.Fixes decl :=
  Item.struct.inj (fixes_of_parse (parseItem_retouch w) hitem h)

theorem fixes_namedFields (h : w.Fixes decl) : w.Fixes decl.namedFields := by
  have hfields : w.Fixes decl.fields := congrArg Struct.fields h
  unfold Struct.namedFields
  split
  · rename_i fields heq
    rw [heq] at hfields
    exact congrArg Separated.items (Fields.named.inj hfields)
  · rfl

theorem place_of_member {host : Host} (hdecl : Declares item decl) (hhost : Host.ofStruct decl = .ok host)
    (hitem : w.Fixes item) {member : Member} (hmember : member ∈ host.members) :
    w.place member.ident.pos = member.ident.pos := by
  have hidents := (ofStruct_idents (parseItem_fieldsNamed hdecl) hhost).1
  have hsome : some member.ident ∈ decl.namedFields.map Field.ident := by
    rw [hidents]
    exact List.mem_map_of_mem hmember
  obtain ⟨field, hfield, hident⟩ := List.mem_map.mp hsome
  have hfix : w.Fixes field := (fixes_namedFields (hdecl.fixes hitem)).mem hfield
  have hkept : w.Fixes field.ident := congrArg Field.ident hfix
  rw [hident] at hkept
  exact congrArg Ident.pos (Option.some.inj hkept)

/-- What a check finds points at a place of the arguments or of the declaration. -/
theorem Check.Finds.place {check : Check} (h : check.Finds args item fault) (hargs : w.Fixes args)
    (hitem : w.Fixes item) : w.place fault.pos = fault.pos := by
  cases check with
  | arguments =>
    obtain ⟨error, herror, rfl⟩ := h
    exact place_of_parse_error (parseDirectives_retouch w) hargs herror
  | declaration =>
    obtain ⟨error, herror, rfl⟩ := h
    exact place_of_parse_error (parseItem_retouch w) hitem herror
  | kind =>
    rcases h with ⟨decl, fields, hdecl, -, rfl⟩ | ⟨found, hfound, -, rfl⟩
    · have hident : w.Fixes decl.ident := congrArg Struct.ident (hdecl.fixes hitem)
      exact congrArg Ident.pos hident
    · have hfix : w.Fixes found := fixes_of_parse (parseItem_retouch w) hitem hfound
      have htokens : w.Fixes found.tokens := by rw [Shift.Fixes, ← Item.tokens_retouch, hfix]
      show w.place (hostStruct.startOf found.tokens) = hostStruct.startOf found.tokens
      cases hstart : found.tokens with
      | nil => exact w.callSite
      | cons token rest =>
        rw [hstart] at htokens
        have hfirst : w.Fixes token := (List.cons.inj htokens).1
        rw [hostStruct.startOf, ← pos_retouch, hfirst]
  | privacy =>
    obtain ⟨decl, hdecl, -, rfl⟩ := h
    have hident : w.Fixes decl.ident := congrArg Struct.ident (hdecl.fixes hitem)
    exact congrArg Ident.pos hident
  | visibility =>
    obtain ⟨directives, decl, hasks, -, -, rfl⟩ := h
    exact (hasks.kept hargs).access
  | attributes =>
    obtain ⟨decl, error, hdecl, hfirst, rfl⟩ := h
    obtain ⟨field, hmem, hrefused⟩ := hfirst.exists_mem
    obtain ⟨attr, hattr, -, herror⟩ := hrefused.exists_mem
    have hfield : w.Fixes field := (fixes_namedFields (hdecl.fixes hitem)).mem hmem
    have hattrs : w.Fixes field.attrs := congrArg Field.attrs hfield
    have hmoved := parseAttribute_retouch w attr
    rw [hattrs.mem hattr, herror] at hmoved
    exact (congrArg SyntaxError.pos (Except.error.inj hmoved)).symm
  | members =>
    obtain ⟨directives, decl, host, hasks, hdecl, hhost, hfirst⟩ := h
    obtain ⟨member, hmember, hfault⟩ := hfirst.exists_mem
    cases hfault with
    | excludedWithoutValue hexcluded =>
      exact (hasks.kept hargs).excluded _ (List.mem_of_find?_eq_some hexcluded)
    | _ => exact place_of_member hdecl hhost hitem hmember
  | exclusions =>
    obtain ⟨directives, decl, hasks, -, hfirst⟩ := h
    obtain ⟨exclusion, hexcluded, -, rfl⟩ := hfirst.exists_mem
    exact (hasks.kept hargs).excluded exclusion hexcluded
  | defaults =>
    obtain ⟨directives, decl, hasks, -, hfirst⟩ := h
    obtain ⟨default, hdefault, -, rfl⟩ := hfirst.exists_mem
    exact (hasks.kept hargs).defaults default hdefault

/-- The fault of an analysis points at a token of the arguments or of the declaration, or at the call site. -/
theorem analyze_error_place (h : analyze args item = .error fault) :
    fault.pos = .callSite ∨ fault.pos ∈ placesAll args ∨ fault.pos ∈ placesAll item := by
  obtain ⟨check, -, hfinds⟩ := ((analyze_eq_error args item fault).mp h).exists_mem
  have hplace : fault.pos = .callSite ∨ fault.pos ∈ placesAll (args ++ item) := by
    refine Shift.mem_placesAll_of_fixed fun w hfix => ?_
    obtain ⟨hargs, hitem⟩ := List.append_inj ((retouch_append _ args item).symm.trans hfix) (by simp)
    exact hfinds.place hargs hitem
  refine hplace.imp_right fun hmem => ?_
  rw [mem_placesAll] at hmem
  obtain ⟨token, htoken, hpos⟩ := hmem
  rw [mem_placesAll, mem_placesAll]
  rcases List.mem_append.mp htoken with htoken | htoken
  · exact .inl ⟨token, htoken, hpos⟩
  · exact .inr ⟨token, htoken, hpos⟩

/-! ## Generated texts -/

/-- The texts that are parsed for a member: its type, and the value that it starts with. -/
def Classified.texts (classified : Classified) : List String :=
  classified.role.type.text ::
    (classified.member.options.initial.map fun value => value.lower (some classified.role.type)).toList

/-- The texts that are parsed for a field of the constructor: the type of its parameter, and its value. -/
def FieldInit.texts : FieldInit → List String
  | .parameter p => p.typeText :: p.valueText?.toList
  | .value _ shown => [shown]

/-- All texts that are generated for an analysis and parsed. -/
def Analysis.texts (analysis : Analysis) : List String :=
  analysis.members.flatMap Classified.texts ++ analysis.plan.fields.flatMap FieldInit.texts

/-- A fault of a generated text: it is no type or no expression, and the place is one in that text. -/
def Fault.In (text : String) (fault : Fault) : Prop :=
  ∃ error, fault = .malformed error ∧ error.pos.Within text.toList ∧
    (parseText parseType text = .error error ∨ parseText parseExpr text = .error error)

theorem parseGenerated_error {α : Type} [HasPlaces α] {p : Tokens → Except SyntaxError α}
    (hp : ∀ (w : Shift) tokens, p (retouch w.toRetouch tokens) = retouch w.toRetouch (p tokens))
    (h : parseGenerated p text = .error fault) :
    ∃ error, fault = .malformed error ∧ error.pos.Within text.toList ∧ parseText p text = .error error := by
  unfold parseGenerated at h
  split at h
  · contradiction
  · rename_i error herror
    cases h
    exact ⟨error, rfl, parseText_error_within hp herror, herror⟩

theorem parseGenerated_type (h : parseGenerated parseType text = .error fault) : fault.In text := by
  obtain ⟨error, hfault, hplace, herror⟩ :=
    parseGenerated_error (fun w => parseWith_retouch w fun _ _ => inferInstance) h
  exact ⟨error, hfault, hplace, .inl herror⟩

theorem parseGenerated_expr (h : parseGenerated parseExpr text = .error fault) : fault.In text := by
  obtain ⟨error, hfault, hplace, herror⟩ :=
    parseGenerated_error (fun w => parseWith_retouch w fun _ _ => inferInstance) h
  exact ⟨error, hfault, hplace, .inr herror⟩

theorem ofStored_error {field : Field} {type : Descriptor} (h : Placement.ofStored field type = .error fault) :
    fault.In type.text := by
  unfold Placement.ofStored at h
  split at h
  · rcases bind_eq_error.mp h with h | ⟨found, -, h⟩
    · exact parseGenerated_type h
    · contradiction
  · contradiction

/-- Placing a member with a value for every static one fails with one of its texts. -/
theorem placement_error {field : Field} {classified : Classified}
    (hstatic : ∀ type, classified.role = .static type → classified.member.options.initial ≠ none)
    (h : Placement.of field classified = .error fault) : ∃ text ∈ classified.texts, fault.In text := by
  have htype : classified.role.type.text ∈ classified.texts := List.mem_cons_self
  unfold Placement.of at h
  dsimp only at h
  split at h
  · rename_i type hrole
    split at h
    · exact (hstatic type hrole ‹_›).elim
    · rename_i value hvalue
      rcases bind_eq_error.mp h with h | ⟨body, -, h⟩
      · exact ⟨value.lower (some type), by simp [Classified.texts, hvalue, hrole, Role.type],
          parseGenerated_expr h⟩
      · rcases bind_eq_error.mp h with h | ⟨found, -, h⟩
        · exact ⟨_, htype, by rw [hrole]; exact parseGenerated_type h⟩
        · contradiction
  · rename_i type hrole
    rcases bind_eq_error.mp h with h | ⟨found, -, h⟩
    · exact ⟨_, htype, by rw [hrole]; exact parseGenerated_type h⟩
    · contradiction
  · rename_i type default hrole
    exact ⟨_, htype, by rw [hrole]; exact ofStored_error h⟩
  · rename_i type hrole
    exact ⟨_, htype, by rw [hrole]; exact ofStored_error h⟩

theorem placements_error {fields : List Field} {members : List Classified}
    (hstatic : ∀ classified ∈ members, ∀ type,
      classified.role = .static type → classified.member.options.initial ≠ none)
    (h : Placement.ofAll fields members = .error fault) :
    ∃ text ∈ members.flatMap Classified.texts, fault.In text := by
  induction fields generalizing members with
  | nil => cases members <;> contradiction
  | cons field fields ih =>
    cases members with
    | nil => contradiction
    | cons classified members =>
      obtain ⟨hfirst, hrest⟩ := List.forall_mem_cons.mp hstatic
      rw [List.flatMap_cons]
      rcases bind_eq_error.mp h with h | ⟨placement, -, h⟩
      · obtain ⟨text, htext, hin⟩ := placement_error hfirst h
        exact ⟨text, List.mem_append_left _ htext, hin⟩
      · rcases bind_eq_error.mp h with h | ⟨placements, -, h⟩
        · obtain ⟨text, htext, hin⟩ := ih hrest h
          exact ⟨text, List.mem_append_right _ htext, hin⟩
        · contradiction

/-- A field of the constructor fails with one of its texts. -/
theorem part_error {field : FieldInit} (h : Constructor.part field = .error fault) :
    ∃ text ∈ field.texts, fault.In text := by
  cases field with
  | parameter p =>
    rcases bind_eq_error.mp h with h | ⟨type, -, h⟩
    · exact ⟨p.typeText, List.mem_cons_self, parseGenerated_type h⟩
    · split at h
      · rename_i shown hshown
        rcases bind_eq_error.mp h with h | ⟨value, -, h⟩
        · exact ⟨shown, by simp [FieldInit.texts, hshown], parseGenerated_expr h⟩
        · contradiction
      · contradiction
  | value ident shown =>
    rcases bind_eq_error.mp h with h | ⟨value, -, h⟩
    · exact ⟨shown, List.mem_singleton_self _, parseGenerated_expr h⟩
    · contradiction

/-- The constructor fails with a text of one of its fields. -/
theorem parts_error {fields : List FieldInit} (h : Constructor.parts fields = .error fault) :
    ∃ text ∈ fields.flatMap FieldInit.texts, fault.In text := by
  induction fields with
  | nil => contradiction
  | cons field rest ih =>
    rw [List.flatMap_cons]
    rcases bind_eq_error.mp h with h | ⟨first, -, h⟩
    · obtain ⟨text, htext, hin⟩ := part_error h
      exact ⟨text, List.mem_append_left _ htext, hin⟩
    · rcases bind_eq_error.mp h with h | ⟨found, -, h⟩
      · obtain ⟨text, htext, hin⟩ := ih h
        exact ⟨text, List.mem_append_right _ htext, hin⟩
      · contradiction

/-- A member is static only if it has an initial value. -/
theorem initial_of_static {directives : Directives} {member : Member} {type : Descriptor}
    (h : member.role directives = .ok (.static type)) : member.options.initial ≠ none := by
  intro hinitial
  unfold Member.role at h
  simp only [hinitial, Option.isSome_none, Bool.and_false, Bool.false_eq_true, if_false] at h
  split at h
  · contradiction
  · split at h
    · contradiction
    · split at h
      · obtain ⟨found, -, hfound⟩ := map_eq_ok.mp h
        contradiction
      · obtain ⟨found, -, hfound⟩ := map_eq_ok.mp h
        contradiction

/-- The code for an analysis fails only with one of the texts that are generated for it. -/
theorem ofAnalysis_error {analysis : Analysis} (hanalysis : analyze args item = .ok analysis)
    (h : Expansion.ofAnalysis analysis = .error fault) : ∃ text ∈ analysis.texts, fault.In text := by
  obtain ⟨directives, -, hanalysis⟩ := bind_eq_ok.mp hanalysis
  obtain ⟨decl, -, hanalysis⟩ := bind_eq_ok.mp hanalysis
  obtain ⟨host, -, hanalysis⟩ := bind_eq_ok.mp hanalysis
  obtain ⟨members, hmembers, hanalysis⟩ := bind_eq_ok.mp hanalysis
  obtain ⟨-, -, hanalysis⟩ := bind_eq_ok.mp hanalysis
  cases hanalysis
  have hroles := (classify_ok hmembers).2
  unfold Analysis.texts
  rcases bind_eq_error.mp h with h | ⟨placements, -, h⟩
  · obtain ⟨text, htext, hin⟩ := placements_error
      (fun classified hclassified type hrole =>
        initial_of_static (hrole ▸ hroles classified hclassified)) h
    exact ⟨text, List.mem_append_left _ htext, hin⟩
  · rcases bind_eq_error.mp h with h | ⟨constructor, -, h⟩
    · rcases bind_eq_error.mp h with h | ⟨found, -, h⟩
      · obtain ⟨text, htext, hin⟩ := parts_error h
        exact ⟨text, List.mem_append_right _ htext, hin⟩
      · contradiction
    · contradiction

/-! ## The place of a request for access -/

/-- The place of the access level is that of a directive for it, or the one from before. -/
theorem accessPos_foldl (found : List Directive) (directives : Directives) :
    (found.foldl Directive.apply directives).accessPos = directives.accessPos ∨
      ∃ directive ∈ found, directive.name.name = "access" ∧
        (found.foldl Directive.apply directives).accessPos = directive.name.pos := by
  have hkept : ∀ (directive : Directive) (directives : Directives),
      directive.name.name ≠ "access" → (directive.apply directives).accessPos = directives.accessPos := by
    intro directive directives hname
    unfold Directive.apply
    split
    · contradiction
    · refine List.foldlRecOn (motive := fun d : Directives => d.accessPos = directives.accessPos) _ _ rfl ?_
      intro d hd exclusion _
      unfold Directives.exclude
      split <;> exact hd
    · exact List.foldlRecOn (motive := fun d : Directives => d.accessPos = directives.accessPos) _ _ rfl
        fun _ hd _ _ => hd
    · rfl
  induction found generalizing directives with
  | nil => exact .inl rfl
  | cons directive rest ih =>
    rw [List.foldl_cons]
    rcases ih (directive.apply directives) with hsame | ⟨other, hother, hname, hpos⟩
    · by_cases hname : directive.name.name = "access"
      · refine .inr ⟨directive, List.mem_cons_self, hname, hsame.trans ?_⟩
        simp [Directive.apply, hname]
      · exact .inl (hsame.trans (hkept directive directives hname))
    · exact .inr ⟨other, List.mem_cons_of_mem _ hother, hname, hpos⟩

/-- A constructor that would be too visible is reported where the access level is asked for, or else at the call
site. -/
theorem tooVisible_place {requested host : Access} (h : analyze args item = .error (.tooVisible requested host pos)) :
    pos = .callSite ∨ ∃ found, Directive.parseAll args = .ok found ∧
      ∃ directive ∈ found, directive.name.name = "access" ∧ directive.name.pos = pos := by
  obtain ⟨check, -, hfinds⟩ := ((analyze_eq_error args item _).mp h).exists_mem
  cases check with
  | visibility =>
    obtain ⟨directives, decl, ⟨found, hfound, rfl⟩, -, -, hfault⟩ := hfinds
    cases hfault
    rcases accessPos_foldl found .initial with hsite | ⟨directive, hmem, hname, hpos⟩
    · exact .inl hsite
    · exact .inr ⟨found, Directive.parseAll_eq_ok.mpr hfound, directive, hmem, hname, hpos.symm⟩
  | arguments | declaration | privacy => simp [Check.Finds] at hfinds
  | kind => simp [Check.Finds] at hfinds
  | attributes => simp [Check.Finds] at hfinds
  | members =>
    obtain ⟨_, _, _, _, _, _, hfirst⟩ := hfinds
    obtain ⟨member, -, hfault⟩ := hfirst.exists_mem
    cases hfault
  | exclusions =>
    obtain ⟨_, _, _, _, hfirst⟩ := hfinds
    obtain ⟨_, -, -, hfault⟩ := hfirst.exists_mem
    cases hfault
  | defaults =>
    obtain ⟨_, _, _, _, hfirst⟩ := hfinds
    obtain ⟨_, -, -, hfault⟩ := hfirst.exists_mem
    cases hfault

/-! ## Reports of a file -/

namespace Annotated

/-- The annotation and the other attributes stay where all attributes are. -/
theorem fixes_split? {attrs rest : List Attribute} {attr : Attribute} (h : w.Fixes attrs)
    (hsplit : split? attrs = some (attr, rest)) : w.Fixes attr ∧ w.Fixes rest := by
  induction attrs generalizing rest with
  | nil => contradiction
  | cons first others ih =>
    obtain ⟨hfirst, hothers⟩ := List.cons.inj h
    unfold split? at hsplit
    split at hsplit
    · cases hsplit
      exact ⟨hfirst, hothers⟩
    · obtain ⟨⟨found, kept⟩, hfound, heq⟩ := Option.map_eq_some_iff.mp hsplit
      cases heq
      obtain ⟨hattr, hkept⟩ := ih hothers hfound
      exact ⟨hattr, congrArg₂ List.cons hfirst hkept⟩

/-- The arguments of an annotation stay where the annotation is. -/
theorem fixes_arguments {attr : Attribute} (h : w.Fixes attr) : w.Fixes attr.arguments := by
  have hvalue : w.Fixes attr.value := congrArg Attribute.value h
  unfold Attribute.arguments
  split
  · rename_i heq
    rw [heq] at hvalue
    exact (AttributeValue.list.inj hvalue).2.1
  · rfl

theorem fixes_ofStruct? (h : w.Fixes decl) (hfound : ofStruct? decl = some found) :
    w.Fixes found.args ∧ w.Fixes found.decl := by
  obtain ⟨⟨attr, rest⟩, hsplit, rfl⟩ := Option.map_eq_some_iff.mp hfound
  obtain ⟨hattr, hrest⟩ := fixes_split? (congrArg Struct.attrs h) hsplit
  refine ⟨fixes_arguments hattr, ?_⟩
  have hdecl : retouch w.toRetouch { decl with attrs := rest } =
      { retouch w.toRetouch decl with attrs := retouch w.toRetouch rest } := rfl
  show retouch w.toRetouch { decl with attrs := rest } = { decl with attrs := rest }
  rw [hdecl, h, hrest]

mutual

theorem fixes_ofItem {item : Item} (h : w.Fixes item) {found : Annotated} (hfound : found ∈ ofItem item) :
    w.Fixes found.args ∧ w.Fixes found.decl := by
  match item with
  | .struct decl =>
    exact fixes_ofStruct? (Item.struct.inj h) (Option.mem_toList.mp hfound)
  | .module items tokens =>
    rw [Shift.Fixes, retouch_module] at h
    exact fixes_ofItems (Item.module.inj h).1 hfound
  | .other tokens => simp [ofItem] at hfound

/-- The annotated structs of items stay where the items are. -/
theorem fixes_ofItems {items : List Item} (h : w.Fixes items) {found : Annotated}
    (hfound : found ∈ ofItems items) : w.Fixes found.args ∧ w.Fixes found.decl := by
  match items with
  | [] => simp [ofItems] at hfound
  | item :: rest =>
    obtain ⟨hfirst, hrest⟩ := List.cons.inj h
    rcases List.mem_append.mp hfound with hfound | hfound
    · exact fixes_ofItem hfirst hfound
    · exact fixes_ofItems hrest hfound

end

/-- The tokens of an annotated struct and of its annotation stand at places of the file, or at the call site. -/
theorem places_of_items {tokens : Tokens} {items : List Item} (hitems : parseItems tokens = .ok items)
    (hfound : found ∈ ofItems items) (hpos : pos ∈ placesAll found.args ∨ pos ∈ placesAll found.decl.tokens) :
    pos = .callSite ∨ pos ∈ placesAll tokens := by
  refine Shift.mem_placesAll_of_fixed fun w hfix => ?_
  obtain ⟨hargs, hdecl⟩ := fixes_ofItems (fixes_of_parse (parseItems_retouch w) hfix hitems) hfound
  rcases hpos with hpos | hpos
  · exact Shift.place_of_tokens hargs hpos
  · have htokens : w.Fixes found.decl.tokens := by
      rw [Shift.Fixes, ← Struct.tokens_retouch, hdecl]
    exact Shift.place_of_tokens htokens hpos

end Annotated

/-- Where the fault of an annotated struct points. A fault that the analysis finds points at a token of the annotation's
arguments or of the struct, or at the call site; any other one points into a text that was generated. -/
def Annotated.Points (found : Annotated) (fault : Fault) : Prop :=
  match analyze found.args found.decl.tokens with
  | .error _ =>
    fault.pos = .callSite ∨ fault.pos ∈ placesAll found.args ∨ fault.pos ∈ placesAll found.decl.tokens
  | .ok analysis => ∃ text ∈ analysis.texts, fault.In text

/-- The fault that keeps a struct from being listed points where it may. -/
theorem Annotated.points_of_list (h : found.list = .error fault) : found.Points fault := by
  unfold Annotated.Points
  rcases bind_eq_error.mp h with h | ⟨analysis, hanalysis, h⟩
  · rw [h]
    exact analyze_error_place h
  · rw [hanalysis]
    rcases bind_eq_error.mp h with h | ⟨expansion, -, h⟩
    · exact ofAnalysis_error hanalysis h
    · contradiction

theorem Annotated.Points.line_pos (h : found.Points fault)
    (hplaces : ∀ pos, pos ∈ placesAll found.args ∨ pos ∈ placesAll found.decl.tokens → 0 < pos.line) :
    0 < fault.pos.line := by
  unfold Annotated.Points at h
  split at h
  · rcases h with hsite | hplace
    · rw [hsite]
      exact Nat.one_pos
    · exact hplaces fault.pos hplace
  · obtain ⟨text, -, error, rfl, hwithin, -⟩ := h
    exact hwithin.line_pos

/-- A failing report has the line of its fault, and never falls back on the line of its struct. The fault points at a
token of the struct or of its annotation, which stands in the file; or at the call site, so that the line is the first
one wherever the struct stands; or into a generated text, so that the line is counted in that text. The place of a
request that goes too far is the call site unless the request is written out. -/
theorem failing_report_line {source : String} {reports : List StructReport} {report : StructReport}
    {fault : Fault} (hscan : scan source = .ok reports) (hreport : report ∈ reports)
    (hfault : report.outcome = .error fault) :
    report.line = fault.pos.line ∧
      ∃ tokens items found, Tokens.read (withoutShebang source) = .ok tokens ∧
        parseItems tokens = .ok items ∧ found ∈ Annotated.ofItems items ∧ report = found.report ∧
        (∀ pos, pos ∈ placesAll found.args ∨ pos ∈ placesAll found.decl.tokens →
          pos = .callSite ∨ pos ∈ placesAll tokens) ∧
        found.Points fault ∧
        ∀ requested host pos, fault = .tooVisible requested host pos →
          report.line = 1 ∨ ∃ directives, Directive.parseAll found.args = .ok directives ∧
            ∃ directive ∈ directives, directive.name.name = "access" ∧ directive.name.pos = pos := by
  obtain ⟨all, hall, rfl⟩ := map_eq_ok.mp hscan
  obtain ⟨items, hfile, rfl⟩ := map_eq_ok.mp hall
  obtain ⟨found, hfound, rfl⟩ := List.mem_map.mp hreport
  have hread := read_places (withoutShebang source)
  unfold parseFile parseText at hfile
  split at hfile
  case h_2 => contradiction
  case h_1 tokens htokens =>
    rw [htokens] at hread
    have hplaces : ∀ pos, pos ∈ placesAll found.args ∨ pos ∈ placesAll found.decl.tokens →
        pos = .callSite ∨ pos ∈ placesAll tokens := fun _ => Annotated.places_of_items hfile hfound
    have hpoints : found.Points fault := Annotated.points_of_list hfault
    have hpositive : 0 < fault.pos.line := by
      refine hpoints.line_pos fun pos hpos => ?_
      rcases hplaces pos hpos with rfl | hmem
      · exact Nat.one_pos
      · exact (hread pos hmem).line_pos
    have hlist : found.list = .error fault := hfault
    have hline : found.report.line = fault.pos.line := by
      show found.reportLine found.list = fault.pos.line
      rw [hlist, Annotated.reportLine, if_pos hpositive]
    refine ⟨hline, tokens, items, found, htokens, hfile, hfound, rfl, hplaces, hpoints, ?_⟩
    rintro requested host pos rfl
    rcases bind_eq_error.mp hlist with h | ⟨analysis, hanalysis, h⟩
    · rcases tooVisible_place h with rfl | hasked
      · exact .inl hline
      · exact .inr hasked
    · -- A generated text is only ever malformed.
      rcases bind_eq_error.mp h with h | ⟨expansion, -, h⟩
      · obtain ⟨text, -, error, hmalformed, -⟩ := ofAnalysis_error hanalysis h
        contradiction
      · contradiction

/-- A struct on the fifth line that may not have the public constructor which is its default. -/
def lateStruct : String := "\n\n\n#[memberwise_init]\npub(crate) struct S \x7b x: u8 \x7d"

/-- Its report has the first line, which is the line of the fault. -/
theorem lateStruct_reported :
    ∃ (reports : List StructReport) (found : Annotated) (fault : Fault),
      scan lateStruct = .ok reports ∧ found.report ∈ reports ∧
      found.report.outcome = .error fault ∧ found.line = 5 ∧ found.report.line = fault.pos.line ∧
      found.report.line = 1 := by
  have h : ((annotatedIn lateStruct).toOption.any fun all => all.any fun found =>
      found.report.failed && found.line == 5 && found.report.line == 1) = true := by
    decide +kernel
  obtain ⟨all, hall, hany⟩ := exists_ok_of_any h
  obtain ⟨found, hfound, htest⟩ := List.any_eq_true.mp hany
  simp only [Bool.and_eq_true, beq_iff_eq] at htest
  have hscan : scan lateStruct = .ok (all.map Annotated.report) := map_eq_ok.mpr ⟨all, hall, rfl⟩
  have hreport : found.report ∈ all.map Annotated.report := List.mem_map_of_mem hfound
  cases hfault : found.report.outcome with
  | ok listed => simp [StructReport.failed, hfault] at htest
  | error fault =>
    exact ⟨_, found, fault, hscan, hreport, hfault, htest.1.2,
      (failing_report_line hscan hreport hfault).1, htest.2⟩

end Fieldwise
