import Fieldwise.Proofs.Arguments
import Fieldwise.Proofs.Members
import Fieldwise.Proofs.NamedFields

/-!
# The first fault decides

An analysis makes its checks in a fixed order, and each check says on its own what it finds wrong with the
arguments and the declaration. The analysis ends well exactly when no check finds anything, and otherwise it
fails with what the first check finds.
-/

namespace Fieldwise

open Fieldwise.Grammar

/-- The checks of an analysis. -/
inductive Check where
  /-- The arguments are assignments with commas between them. -/
  | arguments
  /-- The declaration is an item. -/
  | declaration
  /-- The item is a struct with named fields or without fields. -/
  | kind
  /-- The struct can be seen outside its module. -/
  | privacy
  /-- The constructor is not visible further than the struct. -/
  | visibility
  /-- The member attributes of every field are well formed. -/
  | attributes
  /-- Every member has a role. -/
  | members
  /-- Every excluded key names a member. -/
  | exclusions
  /-- Every key with a default names a member. -/
  | defaults
  deriving DecidableEq

/-- The order in which the checks are made. -/
def Check.order : List Check :=
  [arguments, declaration, kind, privacy, visibility, attributes, members, exclusions, defaults]

/-- The arguments ask for the directives. -/
def Asks (args : Tokens) (directives : Directives) : Prop :=
  ∃ found, ArgumentList args found ∧ found.foldl Directive.apply .initial = directives

/-- The declaration is a struct. -/
def Declares (item : Tokens) (decl : Struct) : Prop := parseItem item = .ok (.struct decl)

/-- A key at a place is none of the known names. -/
def Unknown (known : List String) (key : String) (pos : Pos) (fault : Fault) : Prop :=
  key ∉ known ∧ fault = .unknownKey key pos

/-- What a check finds wrong with arguments and a declaration. -/
def Check.Finds (args item : Tokens) : Check → Fault → Prop
  | arguments, fault => ∃ error, Directive.parseAll args = .error error ∧ fault = .malformed error
  | declaration, fault => ∃ error, parseItem item = .error error ∧ fault = .malformed error
  | kind, fault =>
    (∃ decl fields, Declares item decl ∧ decl.fields = .tuple fields ∧
      fault = .unsupported decl.ident.pos) ∨
    ∃ found, parseItem item = .ok found ∧ (∀ decl, found ≠ .struct decl) ∧
      fault = .unsupported (hostStruct.startOf found.tokens)
  | privacy, fault =>
    ∃ decl, Declares item decl ∧ Access.ofVisibility decl.visibility = .confined ∧
      fault = .confinedHost decl.ident.pos
  | visibility, fault =>
    ∃ directives decl, Asks args directives ∧ Declares item decl ∧
      Access.ofVisibility decl.visibility < directives.access ∧
      fault = .tooVisible directives.access (Access.ofVisibility decl.visibility)
        directives.accessPos
  | attributes, fault =>
    ∃ decl error, Declares item decl ∧ First Field.Refused decl.namedFields error ∧
      fault = .malformed error
  | members, fault =>
    ∃ directives decl host, Asks args directives ∧ Declares item decl ∧
      Host.ofStruct decl = .ok host ∧ First (Member.AtFault directives) host.members fault
  | exclusions, fault =>
    ∃ directives decl, Asks args directives ∧ Declares item decl ∧
      First (fun exclusion => Unknown decl.fieldNames exclusion.key exclusion.pos)
        directives.excluded fault
  | defaults, fault =>
    ∃ directives decl, Asks args directives ∧ Declares item decl ∧
      First (fun default => Unknown decl.fieldNames default.key default.pos) directives.defaults fault

/-! ## The steps of an analysis -/

section Steps

variable {args item : Tokens} {directives : Directives} {decl : Struct} {fault : Fault}

theorem resolve_eq_ok : Directives.resolve args = .ok directives ↔ Asks args directives := by
  unfold Asks Directives.resolve
  simp only [← Directive.parseAll_eq_ok]
  cases Directive.parseAll args <;> simp

/-- Arguments ask for nothing else than what was resolved. -/
theorem Asks.iff_eq (h : Asks args directives) (other : Directives) :
    Asks args other ↔ directives = other := by
  rw [← resolve_eq_ok] at h ⊢
  simp [h]

/-- A declaration is no other struct than the one that was read. -/
theorem Declares.iff_eq (h : Declares item decl) (other : Struct) :
    Declares item other ↔ decl = other := by
  unfold Declares at h ⊢
  simp [h]

theorem resolve_eq_error (fault : Fault) :
    Directives.resolve args = .error fault ↔ First (Check.Finds args item) [.arguments] fault := by
  rw [first_singleton]
  unfold Directives.resolve Check.Finds
  cases hparse : Directive.parseAll args <;> simp [eq_comm]

theorem hostStruct_eq_error {found : Item} (hitem : parseItem item = .ok found) (fault : Fault) :
    hostStruct found = .error fault ↔ First (Check.Finds args item) [.kind] fault := by
  rw [first_singleton]
  unfold hostStruct Check.Finds Declares
  cases found with
  | struct decl => cases hfields : decl.fields <;> simp [hitem, hfields, eq_comm]
  | module items tokens => simp [hitem, eq_comm]
  | other tokens => simp [hitem, eq_comm]

/-- Comparing access levels checks privacy and then visibility. -/
theorem hostAccess_eq_error (hasks : Asks args directives) (hdecl : Declares item decl)
    (fault : Fault) :
    hostAccess decl directives = .error fault ↔
      First (Check.Finds args item) [.privacy, .visibility] fault := by
  rw [first_cons, first_singleton]
  simp only [Check.Finds, hasks.iff_eq, hdecl.iff_eq, exists_and_left, exists_eq_left']
  unfold hostAccess
  by_cases hconfined : Access.ofVisibility decl.visibility = .confined
  · simp [hconfined, eq_comm]
  · by_cases hvisible : Access.ofVisibility decl.visibility < directives.access
    · simp [hconfined, hvisible, eq_comm]
    · simp [hconfined, hvisible]

/-- Reading the host checks everything about it but its members. -/
theorem readHost_eq_error (hasks : Asks args directives) (fault : Fault) :
    readHost directives item = .error fault ↔
      First (Check.Finds args item) [.declaration, .kind, .privacy, .visibility] fault := by
  cases hitem : parseItem item with
  | error error =>
    have hdeclaration : ∀ fault, Check.Finds args item .declaration fault ↔
        fault = .malformed error := by
      simp [Check.Finds, hitem]
    simp [readHost, hitem, first_cons, hdeclaration, eq_comm]
  | ok found =>
    have hdeclaration : ∀ fault, ¬Check.Finds args item .declaration fault := by
      simp [Check.Finds, hitem]
    have hrun : readHost directives item =
        hostStruct found >>= fun decl => hostAccess decl directives >>= fun _ => pure decl := by
      simp [readHost, hitem]
    rw [hrun, first_cons, or_iff_right (hdeclaration fault), and_iff_right hdeclaration]
    -- The declaration has been read, so only the checks after it can find something.
    refine bind_eq_error_first [Check.kind] [.privacy, .visibility] (hostStruct_eq_error hitem) ?_ fault
    intro decl hstruct fault
    have hdecl : Declares item decl := by rw [Declares, hitem, hostStruct_eq_ok hstruct]
    rw [← hostAccess_eq_error hasks hdecl]
    cases hostAccess decl directives <;> simp [bind, Except.bind, pure, Except.pure]

/-- Describing the members is the check of their attributes. -/
theorem ofStruct_eq_error_first (hdecl : Declares item decl) (fault : Fault) :
    Host.ofStruct decl = .error fault ↔
      First (Check.Finds args item) [.attributes] fault := by
  rw [first_singleton, ofStruct_eq_error (parseItem_fieldsNamed hdecl)]
  simp only [Check.Finds, hdecl.iff_eq, exists_and_left, exists_eq_left']

/-- Giving each member a role is the check of the members. -/
theorem classify_eq_error_first {host : Host} (hasks : Asks args directives)
    (hdecl : Declares item decl) (hhost : Host.ofStruct decl = .ok host) (fault : Fault) :
    classify directives host.members = .error fault ↔
      First (Check.Finds args item) [.members] fault := by
  rw [first_singleton, classify_eq_error]
  simp only [Check.Finds, hasks.iff_eq, hdecl.iff_eq, exists_and_left, exists_eq_left', hhost,
    Except.ok.injEq]

/-- The keys are looked at in order, and the first that is not known is reported. -/
theorem checkKeys_eq_error {known : List String} :
    checkKeys known directives = .error fault ↔
      First (fun key => Unknown known key.1 key.2) directives.keys fault := by
  unfold checkKeys
  induction directives.keys with
  | nil => simp
  | cons key rest ih =>
    rw [first_cons, ← ih, List.find?_cons]
    by_cases hknown : key.1 ∈ known
    · simp [Unknown, hknown]
    · simp [Unknown, hknown, eq_comm]

/-- Looking up the keys checks the exclusions and then the default values. -/
theorem checkKeys_eq_error_first {host : Host} (hasks : Asks args directives)
    (hdecl : Declares item decl) (hhost : Host.ofStruct decl = .ok host) (fault : Fault) :
    checkKeys (host.members.map Member.name) directives = .error fault ↔
      First (Check.Finds args item) [.exclusions, .defaults] fault := by
  rw [ofStruct_names (parseItem_fieldsNamed hdecl) hhost, checkKeys_eq_error, Directives.keys,
    first_append, first_cons, first_singleton]
  simp only [first_map, Check.Finds, hasks.iff_eq, hdecl.iff_eq, exists_and_left, exists_eq_left']

end Steps

/-! ## The whole analysis -/

/-- An analysis fails with what the first check finds. -/
theorem analyze_eq_error (args item : Tokens) (fault : Fault) :
    analyze args item = .error fault ↔ First (Check.Finds args item) Check.order fault := by
  -- Each step takes its checks from the front of the order and leaves the others to the next steps.
  refine bind_eq_error_first [Check.arguments] _ resolve_eq_error ?_ fault
  intro directives hresolve
  have hasks := resolve_eq_ok.mp hresolve
  refine bind_eq_error_first [Check.declaration, .kind, .privacy, .visibility] _
    (readHost_eq_error hasks) ?_
  intro decl hread
  have hdecl : Declares item decl := readHost_eq_ok hread
  refine bind_eq_error_first [Check.attributes] _ (ofStruct_eq_error_first hdecl) ?_
  intro host hhost
  refine bind_eq_error_first [Check.members] [.exclusions, .defaults]
    (classify_eq_error_first hasks hdecl hhost) ?_
  intro members hmembers fault
  rw [← checkKeys_eq_error_first hasks hdecl hhost]
  cases checkKeys (host.members.map Member.name) directives <;>
    simp [bind, Except.bind, pure, Except.pure]

/-- The check of the arguments finds a fault exactly when they are no list of assignments; an analysis ends
well exactly when no check finds a fault, and fails with the fault of the first check that finds one. -/
theorem analyze_fails_with_first_fault (args item : Tokens) :
    ((∃ fault, Check.Finds args item .arguments fault) ↔ ¬∃ found, ArgumentList args found) ∧
      ((∃ analysis, analyze args item = .ok analysis) ↔
        ∀ check fault, ¬Check.Finds args item check fault) ∧
      ∀ fault, analyze args item = .error fault ↔
        First (Check.Finds args item) Check.order fault := by
  refine ⟨?_, ?_, analyze_eq_error args item⟩
  · rw [← Directive.parseAll_eq_error]
    constructor
    · rintro ⟨fault, error, herror, -⟩
      exact ⟨error, herror⟩
    · rintro ⟨error, herror⟩
      exact ⟨.malformed error, error, herror, rfl⟩
  · have hall : ∀ check : Check, check ∈ Check.order := by
      intro check
      cases check <;> decide
    have hnone : (∀ fault, analyze args item ≠ .error fault) ↔
        ∀ check fault, ¬Check.Finds args item check fault := by
      simp only [ne_eq, analyze_eq_error, not_first_iff, hall, true_implies]
    rw [← hnone]
    cases analyze args item <;> simp

/-- Arguments that exclude a member without an initial value and a member that does not exist. -/
def twoExclusions : String := "exclude = [\"ghost\", \"a\"]"

/-- A declaration with one member that has no initial value. -/
def oneField : String := "pub struct Two \x7b a: i32 \x7d"

/-- A member at fault is reported, although the key of an earlier exclusion names no member. -/
theorem twoExclusions_first_fault :
    ∃ args item fault, Tokens.read twoExclusions = .ok args ∧ Tokens.read oneField = .ok item ∧
      fault.message = "cannot exclude `a`: it has no initial value" ∧
      First (Check.Finds args item) Check.order fault := by
  have h : ((Tokens.read twoExclusions).toOption.any fun args =>
      (Tokens.read oneField).toOption.any fun item =>
        match analyze args item with
        | .ok _ => false
        | .error fault => fault.message = "cannot exclude `a`: it has no initial value") = true := by
    decide +kernel
  cases hargs : Tokens.read twoExclusions with
  | error e => simp [hargs, Except.toOption] at h
  | ok args =>
    cases hitem : Tokens.read oneField with
    | error e => simp [hargs, hitem, Except.toOption] at h
    | ok item =>
      cases hrun : analyze args item with
      | ok analysis => simp [hargs, hitem, hrun, Except.toOption] at h
      | error fault =>
        refine ⟨args, item, fault, rfl, rfl, ?_, ?_⟩
        · simpa [hargs, hitem, hrun, Except.toOption] using h
        · exact ((analyze_fails_with_first_fault args item).2.2 fault).mp hrun

end Fieldwise
