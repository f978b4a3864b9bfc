import Fieldwise.Proofs.Outcome
import Fieldwise.Scan

/-!
# Annotated structs and their reports

A struct stands at a place in a file: the number of an item, or the number of a module with a place inside it.
Scanning gives one report for every annotated struct that stands somewhere, in the order of places, and no other.
Each report says what expanding the struct without its first annotation says: it has a constructor exactly when
the struct can be expanded, with the signature of the plan, and else the fault of the expansion.
-/

namespace Fieldwise

open Fieldwise.Grammar

variable {decl : Struct} {item : Item} {place : List Nat} {n : Nat}

/-! ## Where structs stand -/

/-- A struct stands at a place among items: at a number, or inside the module at a number. -/
inductive StandsAt : List Item → List Nat → Struct → Prop
  | item {items : List Item} {n : Nat} {decl : Struct} (h : items[n]? = some (.struct decl)) :
    StandsAt items [n] decl
  | inside {items inner : List Item} {n : Nat} {tokens : Tokens} {place : List Nat} {decl : Struct}
    (h : items[n]? = some (.module inner tokens)) (hinner : StandsAt inner place decl) :
    StandsAt items (n :: place) decl

theorem standsAt_first {rest : List Item} :
    StandsAt (item :: rest) (0 :: place) decl ↔ StandsAt [item] (0 :: place) decl := by
  constructor <;>
  · intro h
    cases h with
    | item h => exact .item h
    | inside h hinner => exact .inside h hinner

/-- What stands in a later item stands among the items after the first. -/
theorem standsAt_later {rest : List Item} :
    StandsAt (item :: rest) ((n + 1) :: place) decl ↔ StandsAt rest (n :: place) decl := by
  constructor <;>
  · intro h
    cases h with
    | item h => exact .item h
    | inside h hinner => exact .inside h hinner

theorem StandsAt.exists_number {items : List Item} (h : StandsAt items place decl) : ∃ n rest, place = n :: rest := by
  cases h with
  | item h => exact ⟨_, [], rfl⟩
  | inside h hinner => exact ⟨_, _, rfl⟩

/-- The struct is annotated, and this is it without its first annotation, next to the arguments of the latter. -/
def Annotated.Of (decl : Struct) (found : Annotated) : Prop :=
  ∃ before attr after, decl.attrs = before ++ attr :: after ∧
    (∀ other ∈ before, other.path.names.getLast?.map Ident.name ≠ some annotationName) ∧
    attr.path.names.getLast?.map Ident.name = some annotationName ∧
    found = ⟨attr.arguments, { decl with attrs := before ++ after }⟩

/-- An annotated struct at its place. -/
structure Placed where
  /-- Where it stands. -/
  place : List Nat
  /-- The struct as it stands there. -/
  decl : Struct
  /-- What is expanded. -/
  found : Annotated

namespace Placed

/-- The same struct seen from outside the module with this number. -/
def under (n : Nat) (placed : Placed) : Placed := { placed with place := n :: placed.place }

mutual

/-- The annotated structs of the item with this number. -/
def ofItem (n : Nat) : Item → List Placed
  | .struct decl => (Annotated.ofStruct? decl).toList.map fun found => ⟨[n], decl, found⟩
  | .module items _ => (ofItems 0 items).map (under n)
  | .other _ => []

/-- The annotated structs of items, which are numbered from here on. -/
def ofItems (n : Nat) : List Item → List Placed
  | [] => []
  | item :: rest => ofItem n item ++ ofItems (n + 1) rest

end

end Placed

/-! ## The first annotation -/

namespace Annotated

/-- An annotation is known by the last word of its path. -/
theorem isAnnotation_iff (attr : Attribute) :
    attr.isAnnotation = true ↔ attr.path.names.getLast?.map Ident.name = some annotationName := by
  unfold Attribute.isAnnotation
  cases attr.path.names.getLast? <;> simp

/-- Splitting attributes finds the first annotation and leaves all others in order. -/
theorem split?_eq_some {attrs rest : List Attribute} {attr : Attribute} :
    split? attrs = some (attr, rest) ↔
      ∃ before after, attrs = before ++ attr :: after ∧
        (∀ other ∈ before, other.isAnnotation = false) ∧ attr.isAnnotation = true ∧
        rest = before ++ after := by
  induction attrs generalizing rest with
  | nil => simp [split?]
  | cons first others ih =>
    rw [split?]
    cases hfirst : first.isAnnotation with
    | true =>
      rw [if_pos rfl, Option.some.injEq, Prod.mk.injEq]
      constructor
      · rintro ⟨rfl, rfl⟩
        exact ⟨[], others, rfl, by simp, hfirst, rfl⟩
      · rintro ⟨before, after, hattrs, hbefore, -, rfl⟩
        cases before with
        | nil =>
          obtain ⟨rfl, rfl⟩ := List.cons.inj hattrs
          exact ⟨rfl, rfl⟩
        | cons other before =>
          obtain ⟨rfl, -⟩ := List.cons.inj hattrs
          rw [hbefore first List.mem_cons_self] at hfirst
          contradiction
    | false =>
      rw [if_neg Bool.false_ne_true, Option.map_eq_some_iff]
      constructor
      · rintro ⟨⟨found, left⟩, hsplit, heq⟩
        obtain ⟨rfl, rfl⟩ := Prod.mk.inj heq
        obtain ⟨before, after, rfl, hbefore, hattr, rfl⟩ := ih.mp hsplit
        exact ⟨first :: before, after, rfl, List.forall_mem_cons.mpr ⟨hfirst, hbefore⟩, hattr, rfl⟩
      · rintro ⟨before, after, hattrs, hbefore, hattr, rfl⟩
        cases before with
        | nil =>
          obtain ⟨rfl, -⟩ := List.cons.inj hattrs
          rw [hfirst] at hattr
          contradiction
        | cons other before =>
          obtain ⟨rfl, rfl⟩ := List.cons.inj hattrs
          exact ⟨(attr, before ++ after),
            ih.mpr ⟨before, after, rfl, (List.forall_mem_cons.mp hbefore).2, hattr, rfl⟩, rfl⟩

/-- A struct is taken up exactly when it is annotated. -/
theorem ofStruct?_eq_some {found : Annotated} : ofStruct? decl = some found ↔ Of decl found := by
  unfold ofStruct? Of
  rw [Option.map_eq_some_iff]
  simp only [← Bool.not_eq_true, ← isAnnotation_iff, ne_eq, Prod.exists, split?_eq_some]
  constructor
  · rintro ⟨attr, rest, ⟨before, after, hattrs, hbefore, hattr, rfl⟩, rfl⟩
    exact ⟨before, attr, after, hattrs, hbefore, hattr, rfl⟩
  · rintro ⟨before, attr, after, hattrs, hbefore, hattr, rfl⟩
    exact ⟨attr, _, ⟨before, after, hattrs, hbefore, hattr, rfl⟩, rfl⟩

end Annotated

/-! ## One entry for every place -/

namespace Placed

mutual

/-- The structs at their places are the annotated structs of an item. -/
theorem map_ofItem (n : Nat) (item : Item) :
    (ofItem n item).map Placed.found = Annotated.ofItem item := by
  cases item with
  | struct decl => simp [ofItem, Annotated.ofItem, Function.comp_def]
  | module items tokens =>
    have hunder : (fun placed => (under n placed).found) = Placed.found := rfl
    rw [ofItem, Annotated.ofItem, List.map_map, Function.comp_def, hunder]
    exact map_ofItems 0 items
  | other tokens => simp [ofItem, Annotated.ofItem]

/-- The structs at their places are the annotated structs of items. -/
theorem map_ofItems (n : Nat) (items : List Item) :
    (ofItems n items).map Placed.found = Annotated.ofItems items := by
  cases items with
  | nil => simp [ofItems, Annotated.ofItems]
  | cons item rest =>
    rw [ofItems, Annotated.ofItems, List.map_append, map_ofItem n item, map_ofItems (n + 1) rest]

end

theorem place_of_ofItem {placed : Placed} (h : placed ∈ ofItem n item) : ∃ rest, placed.place = n :: rest := by
  cases item with
  | struct decl =>
    obtain ⟨found, -, rfl⟩ := List.mem_map.mp (ofItem.eq_1 n decl ▸ h)
    exact ⟨[], rfl⟩
  | module items tokens =>
    obtain ⟨inner, -, rfl⟩ := List.mem_map.mp (ofItem.eq_2 n items tokens ▸ h)
    exact ⟨inner.place, rfl⟩
  | other tokens => simp [ofItem] at h

/-- The places in items begin with numbers from the first one on. -/
theorem place_of_ofItems {items : List Item} {placed : Placed} (h : placed ∈ ofItems n items) :
    ∃ k rest, n ≤ k ∧ placed.place = k :: rest := by
  induction items generalizing n with
  | nil => simp [ofItems] at h
  | cons item others ih =>
    rw [ofItems, List.mem_append] at h
    rcases h with h | h
    · obtain ⟨rest, hplace⟩ := place_of_ofItem h
      exact ⟨n, rest, Nat.le_refl n, hplace⟩
    · obtain ⟨k, rest, hk, hplace⟩ := ih h
      exact ⟨k, rest, by omega, hplace⟩

mutual

theorem ofItem_sorted (n : Nat) (item : Item) :
    ((ofItem n item).map Placed.place).Pairwise (· < ·) := by
  cases item with
  | struct decl =>
    rw [ofItem]
    cases Annotated.ofStruct? decl <;> simp
  | module items tokens =>
    have hinner := ofItems_sorted 0 items
    rw [List.pairwise_map] at hinner
    rw [ofItem, List.map_map, List.pairwise_map]
    refine hinner.imp fun {left right} hlt => ?_
    exact List.cons_lt_cons_iff.mpr (.inr ⟨rfl, hlt⟩)
  | other tokens => simp [ofItem]

theorem ofItems_sorted (n : Nat) (items : List Item) :
    ((ofItems n items).map Placed.place).Pairwise (· < ·) := by
  cases items with
  | nil => simp [ofItems]
  | cons item rest =>
    rw [ofItems, List.map_append, List.pairwise_append]
    refine ⟨ofItem_sorted n item, ofItems_sorted (n + 1) rest, ?_⟩
    intro left hleft right hright
    obtain ⟨first, hfirst, rfl⟩ := List.mem_map.mp hleft
    obtain ⟨second, hsecond, rfl⟩ := List.mem_map.mp hright
    obtain ⟨inner, hplace⟩ := place_of_ofItem hfirst
    obtain ⟨k, other, hk, hplace'⟩ := place_of_ofItems hsecond
    rw [hplace, hplace']
    exact List.cons_lt_cons_iff.mpr (.inl (by omega))

end

mutual

/-- An entry of an item is an annotated struct that is the item or stands in it. -/
theorem mem_ofItem {n : Nat} {item : Item} {placed : Placed} :
    placed ∈ ofItem n item ↔
      ∃ place, placed.place = n :: place ∧ StandsAt [item] (0 :: place) placed.decl ∧
        Annotated.Of placed.decl placed.found := by
  cases item with
  | struct decl =>
    simp only [ofItem, List.mem_map, Option.mem_toList, Annotated.ofStruct?_eq_some]
    constructor
    · rintro ⟨found, hfound, rfl⟩
      exact ⟨[], rfl, .item rfl, hfound⟩
    · rintro ⟨place, hplace, hstands, hfound⟩
      cases hstands with
      | item h =>
        cases h
        exact ⟨placed.found, hfound, by cases placed; cases hplace; rfl⟩
      | inside h hinner => cases h
  | module items tokens =>
    simp only [ofItem, List.mem_map, mem_ofItems]
    constructor
    · rintro ⟨inner, ⟨k, place, hplace, hstands, hfound⟩, rfl⟩
      refine ⟨inner.place, rfl, .inside rfl ?_, hfound⟩
      rwa [hplace, Nat.zero_add]
    · rintro ⟨place, hplace, hstands, hfound⟩
      cases hstands with
      | item h => cases h
      | inside h hinner =>
        cases h
        obtain ⟨k, rest, rfl⟩ := hinner.exists_number
        refine ⟨{ placed with place := k :: rest }, ⟨k, rest, ?_, hinner, hfound⟩, ?_⟩
        · rw [Nat.zero_add]
        · cases placed
          cases hplace
          rfl
  | other tokens =>
    simp only [ofItem, List.not_mem_nil, false_iff, not_exists, not_and]
    intro place hplace hstands
    cases hstands with
    | item h => cases h
    | inside h hinner => cases h

/-- An entry of items is an annotated struct that stands among them. -/
theorem mem_ofItems {n : Nat} {items : List Item} {placed : Placed} :
    placed ∈ ofItems n items ↔
      ∃ k place, placed.place = (n + k) :: place ∧ StandsAt items (k :: place) placed.decl ∧
        Annotated.Of placed.decl placed.found := by
  cases items with
  | nil =>
    simp only [ofItems, List.not_mem_nil, false_iff, not_exists, not_and]
    intro k place hplace hstands
    cases hstands with
    | item h => simp at h
    | inside h hinner => simp at h
  | cons item rest =>
    rw [ofItems, List.mem_append, mem_ofItem, mem_ofItems]
    constructor
    · rintro (⟨place, hplace, hstands, hfound⟩ | ⟨k, place, hplace, hstands, hfound⟩)
      · exact ⟨0, place, hplace, standsAt_first.mpr hstands, hfound⟩
      · refine ⟨k + 1, place, ?_, standsAt_later.mpr hstands, hfound⟩
        rw [hplace, Nat.add_right_comm, Nat.add_assoc]
    · rintro ⟨k, place, hplace, hstands, hfound⟩
      cases k with
      | zero => exact .inl ⟨place, hplace, standsAt_first.mp hstands, hfound⟩
      | succ k =>
        refine .inr ⟨k, place, ?_, standsAt_later.mp hstands, hfound⟩
        rw [hplace, Nat.add_right_comm, Nat.add_assoc]

end

end Placed

/-! ## Reports -/

/-- Tokens that are parsed as the same declaration are analysed alike. -/
theorem analyze_congr (args : Tokens) {item other : Tokens} (h : parseItem item = parseItem other) :
    analyze args item = analyze args other := by
  unfold analyze readHost
  rw [h]

/-- What a report says about a struct is what expanding tokens says. -/
structure Reports (outcome : Except Fault Listed) (args item : Tokens) : Prop where
  /-- There is a constructor exactly when the tokens can be expanded. -/
  succeeds : (∃ listed, outcome = .ok listed) ↔ ∃ expansion, expand args item = .ok expansion
  /-- The faults are the same. -/
  fails : ∀ fault, outcome = .error fault ↔ expand args item = .error fault
  /-- The signature is that of the plan. -/
  describes : ∀ listed, outcome = .ok listed →
    ∃ plan, Fieldwise.plan args item = .ok plan ∧ listed.signature = plan.describe

namespace Annotated

/-- The outcome for an annotated struct is that of expanding it, whatever tokens it is parsed from. -/
theorem list_reports (found : Annotated) {item : Tokens}
    (h : parseItem item = parseItem found.decl.tokens) : Reports found.list found.args item := by
  have hanalyze := analyze_congr found.args h
  cases hanalysis : analyze found.args found.decl.tokens with
  | error fault =>
    have hlist : found.list = .error fault := bind_eq_error.mpr (.inl hanalysis)
    have hexpand : expand found.args item = .error fault :=
      bind_eq_error.mpr (.inl (hanalyze.trans hanalysis))
    exact ⟨by simp [hlist, hexpand], by simp [hlist, hexpand], by simp [hlist]⟩
  | ok analysis =>
    have hexpand : expand found.args item = Expansion.ofAnalysis analysis := by
      rw [expand, hanalyze, hanalysis]
      rfl
    cases hbuilt : Expansion.ofAnalysis analysis with
    | error fault =>
      have hlist : found.list = .error fault :=
        bind_eq_error.mpr (.inr ⟨analysis, hanalysis, bind_eq_error.mpr (.inl hbuilt)⟩)
      exact ⟨by simp [hlist, hexpand, hbuilt], by simp [hlist, hexpand, hbuilt], by simp [hlist]⟩
    | ok expansion =>
      have hlist : found.list = .ok ⟨analysis.plan.describe, listing found.decl analysis.plan⟩ :=
        bind_eq_ok.mpr ⟨analysis, hanalysis, bind_eq_ok.mpr ⟨expansion, hbuilt, rfl⟩⟩
      refine ⟨by simp [hlist, hexpand, hbuilt], by simp [hlist, hexpand, hbuilt], ?_⟩
      intro listed hlisted
      rw [hlist] at hlisted
      cases hlisted
      exact ⟨analysis.plan, map_eq_ok.mpr ⟨analysis, hanalyze.trans hanalysis, rfl⟩, rfl⟩

end Annotated

/-- Scanning a text that is parsed as a file reports every annotated struct that stands in the file or in a module
written out in it, each once, in the order of their places, and nothing else. The report of a struct says what
expanding it without its first annotation says, under the arguments of that annotation. -/
theorem scan_reports_annotated {source : String} {items : List Item}
    (h : parseFile source = .ok items) :
    ∃ entries : List Placed, scan source = .ok (entries.map fun entry => entry.found.report) ∧
      (entries.map Placed.place).Pairwise (· < ·) ∧
      (∀ entry, entry ∈ entries ↔
        StandsAt items entry.place entry.decl ∧ Annotated.Of entry.decl entry.found) ∧
      ∀ entry ∈ entries, entry.found.report.name = entry.decl.ident.name ∧
        ∀ item, parseItem item = parseItem entry.found.decl.tokens →
          Reports entry.found.report.outcome entry.found.args item := by
  refine ⟨Placed.ofItems 0 items, ?_, Placed.ofItems_sorted 0 items, fun entry => ?_,
    fun entry hentry => ⟨?_, fun item hitem => entry.found.list_reports hitem⟩⟩
  · refine map_eq_ok.mpr ⟨Annotated.ofItems items, map_eq_ok.mpr ⟨items, h, rfl⟩, ?_⟩
    rw [← Placed.map_ofItems 0 items, List.map_map]
    rfl
  · rw [Placed.mem_ofItems]
    constructor
    · rintro ⟨k, place, hplace, hstands, hfound⟩
      rw [Nat.zero_add] at hplace
      exact ⟨hplace ▸ hstands, hfound⟩
    · rintro ⟨hstands, hfound⟩
      obtain ⟨k, place, hplace⟩ := hstands.exists_number
      exact ⟨k, place, by rw [hplace, Nat.zero_add], hplace ▸ hstands, hfound⟩
  · obtain ⟨_, _, _, _, before, attr, after, _, _, _, hfound⟩ := Placed.mem_ofItems.mp hentry
    rw [hfound]
    rfl

/-- A file with annotated structs in modules and next to them. -/
def nestedSource : String :=
  "struct A;
mod m \x7b
    #[memberwise_init]
    #[memberwise_init]
    struct B;
    mod n \x7b
        #[f::memberwise_init(pub)]
        struct C(u8);
    \x7d
\x7d
"

/-- The struct of the innermost module of the file has a report, which says what expanding the struct says. -/
theorem scan_nestedSource :
    ∃ items, parseFile nestedSource = .ok items ∧
      ∃ entries : List Placed, scan nestedSource = .ok (entries.map fun entry => entry.found.report) ∧
        ∃ entry ∈ entries, entry.place = [1, 1, 0] ∧ entry.decl.ident.name = "C" ∧
          Reports entry.found.report.outcome entry.found.args entry.found.decl.tokens := by
  have h : (parseFile nestedSource).toOption.any (fun items =>
      (Placed.ofItems 0 items).map (fun entry => (entry.place, entry.decl.ident.name)) ==
        [([1, 0], "B"), ([1, 1, 0], "C")]) = true := by
    decide +kernel
  obtain ⟨items, hitems, hnamed⟩ := exists_ok_of_any h
  have hsecond : ([1, 1, 0], "C") ∈
      (Placed.ofItems 0 items).map fun entry => (entry.place, entry.decl.ident.name) := by
    rw [eq_of_beq hnamed]
    simp
  obtain ⟨entry, hentry, hname⟩ := List.mem_map.mp hsecond
  obtain ⟨hplace, hname⟩ := Prod.mk.inj hname
  obtain ⟨k, place, hk, hstands, hfound⟩ := Placed.mem_ofItems.mp hentry
  obtain ⟨entries, hscan, -, hentries, hreports⟩ := scan_reports_annotated hitems
  rw [Nat.zero_add] at hk
  have hmem : entry ∈ entries := (hentries entry).mpr ⟨hk ▸ hstands, hfound⟩
  exact ⟨items, hitems, entries, hscan, entry, hmem, hplace, hname,
    (hreports entry hmem).2 _ rfl⟩

end Fieldwise
