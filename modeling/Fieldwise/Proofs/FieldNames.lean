import Fieldwise.Proofs.NamedFields
import Fieldwise.Proofs.ShrinkingItems

/-!
# Field names stand in the declaration

The name of a field is a word that the grammar took from the declaration. `Finds` states of a parser that the
names in each value it returns are words of what it was given, apart from names that were known before; the
steps of a rule pass this on, because each of them leaves the end of what it was given.
-/

namespace Fieldwise.Grammar

open Fieldwise.Grammar.Parser Fieldwise.Token

set_option synthInstance.maxSize 1024

variable {α β : Type}

/-! ## Names that are found -/

/-- The names of each value that the parser returns are known, or they are words of what it was given. -/
def Finds (p : Parser α) (known : List String) (names : α → List String) : Prop :=
  ∀ s a t, p s = .ok (a, t) → ∀ name ∈ names a, name ∈ known ∨ Mark.ident name ∈ marksAll s.tokens

namespace Finds

variable {p q : Parser α} {known : List String} {names : α → List String}

theorem pure {a : α} (h : names a ⊆ known) : Finds (Pure.pure a : Parser α) known names := by
  intro s b t hb name hname
  obtain ⟨rfl, -⟩ := pure_eq_ok.mp hb
  exact .inl (h hname)

theorem of_none (h : Yields p fun a => names a = []) : Finds p known names := by
  intro s a t ha name hname
  rw [h s a t ha] at hname
  exact absurd hname List.not_mem_nil

theorem bind_of {p : Parser β} {f : β → Parser α} {own : β → List String} [hs : Shrinks p]
    (hp : Finds p known own) (hf : ∀ b, Finds (f b) (own b ++ known) names) :
    Finds (p >>= f) known names := by
  intro s a t h name hname
  obtain ⟨b, m, hb, ha⟩ := bind_eq_ok.mp h
  rcases hf b m a t ha name hname with hknown | hmark
  · rcases List.mem_append.mp hknown with hown | hknown
    · exact hp s b m hb name hown
    · exact .inl hknown
  · exact .inr ((hs.remains s b m hb).marks.subset hmark)

theorem bind {p : Parser β} {f : β → Parser α} [Shrinks p]
    (hf : ∀ b, Finds (f b) known names) : Finds (p >>= f) known names := by
  have hp : Finds p known fun _ => [] := of_none fun _ _ _ _ => rfl
  exact bind_of hp hf

theorem ite {c : Prop} [Decidable c] (hp : Finds p known names) (hq : Finds q known names) :
    Finds (if c then p else q) known names := by
  by_cases hc : c
  · simpa only [if_pos hc] using hp
  · simpa only [if_neg hc] using hq

theorem fail {cause : Cause} : Finds (Parser.fail cause : Parser α) known names := by
  intro s a t h
  simp [Parser.fail] at h

theorem choose {named : List (String × (Tokens → Bool) × Parser α)}
    (h : ∀ entry ∈ named, Finds entry.2.2 known names) :
    Finds (Parser.choose named) known names := by
  unfold Parser.choose
  generalize named.map Prod.fst = shown
  induction named with
  | nil => exact fail
  | cons entry rest ih =>
    obtain ⟨name, test, parser⟩ := entry
    refine bind fun found => ite ?_ ?_
    · exact h _ List.mem_cons_self
    · exact ih fun entry hmem => h entry (List.mem_cons_of_mem _ hmem)

/-- What stands inside a group stands in what comes next. -/
theorem within {delim : Delim} (h : Finds p known names) :
    Finds (Parser.within delim p) known fun found => names found.1 := by
  intro s a t ha name hname
  have hinside : ∃ found body opening closing rest inner,
      bare s.tokens = .group found body opening closing :: rest ∧
        p ⟨body, closing, delim, none⟩ = .ok (a.1, inner) := by
    grind [Parser.within, Parser.fail]
  obtain ⟨found, body, opening, closing, rest, inner, hbare, hrun⟩ := hinside
  refine (h _ _ _ hrun name hname).imp_right fun hmark => ?_
  rw [← marksAll_bare, hbare, marksAll, List.mem_append]
  left
  cases found <;> simp [marks, hmark]

theorem separatedUntil {stop : Tokens → Bool} {separator : String} [Shrinks p]
    (h : ∀ known, Finds p known names) :
    Finds (Parser.separatedUntil stop separator p) known fun list => list.items.flatMap names := by
  have go : ∀ n known, Finds (Parser.separatedUntil.go stop separator p n) known
      fun list => list.items.flatMap names := by
    intro n
    induction n with
    | zero => exact fun known => pure (by simp)
    | succ n ih =>
      intro known
      refine bind fun atStop => ite (pure (by simp)) (bind_of (h known) fun a => ?_)
      refine bind fun atStop => ite (pure (by simp)) ?_
      refine bind fun _ => bind_of (ih _) fun rest => pure ?_
      rw [show (Separated.cons a rest).items = a :: rest.items from rfl, List.flatMap_cons]
      exact List.append_subset.mpr ⟨by simp, by simp⟩
  exact bind fun n => go n known

theorem repeatWhile {test : Tokens → Bool} [Shrinks p] (h : ∀ known, Finds p known names) :
    Finds (Parser.repeatWhile test p) known fun list => list.flatMap names := by
  have go : ∀ n known, Finds (Parser.repeatWhile.go test p n) known
      fun list => list.flatMap names := by
    intro n
    induction n with
    | zero => exact fun known => pure (by simp)
    | succ n ih =>
      intro known
      refine bind fun found => ite (bind_of (h known) fun a => ?_) (pure (by simp))
      refine bind_of (ih _) fun rest => pure ?_
      rw [List.flatMap_cons]
      exact List.append_subset.mpr ⟨by simp, by simp⟩
  exact bind fun n => go n known

theorem name_of_bare {p : Parser Ident}
    (h : ∀ s a t, p s = .ok (a, t) → ∃ pos rest, bare s.tokens = .ident a.name pos :: rest) :
    Finds p known fun ident => [ident.name] := by
  intro s a t ha name hname
  obtain ⟨pos, rest, hbare⟩ := h s a t ha
  rw [List.mem_singleton.mp hname, ← marksAll_bare, hbare]
  exact .inr (by simp [marksAll, marks])

theorem anyIdent : Finds Parser.anyIdent known fun ident => [ident.name] :=
  name_of_bare fun s a t h => by grind [Parser.anyIdent, Parser.fail]

theorem ident : Finds Parser.ident known fun ident => [ident.name] :=
  name_of_bare fun s a t h => by grind [Parser.ident, Parser.fail]

end Finds

/-! ## Fields and structs -/

mutual

/-- The names of the fields between the braces of structs, in modules as well. -/
def Item.fieldNames : Item → List String
  | .struct decl => decl.fieldNames
  | .module items _ => Item.fieldNamesAll items
  | .other _ => []

/-- The names of the fields between the braces of structs in several items. -/
def Item.fieldNamesAll : List Item → List String
  | [] => []
  | item :: rest => item.fieldNames ++ Item.fieldNamesAll rest

end

theorem Item.fieldNamesAll_eq (items : List Item) :
    Item.fieldNamesAll items = items.flatMap Item.fieldNames := by
  induction items with
  | nil => rfl
  | cons item rest ih => rw [fieldNamesAll, ih, List.flatMap_cons]

section Rules

variable (rules : Rules) [Rules.Shrinking rules]

theorem namedField_finds (fields : Parser (Separated Field)) (known : List String) :
    Finds (namedField rules fields) known fun field => (field.ident.map Ident.name).toList := by
  refine Finds.bind fun attrs => Finds.bind fun vis => Finds.bind fun unnamed => ?_
  have hfield : ∀ (name : Ident) (type : Ty),
      Finds (pure ⟨attrs, vis, some name, type⟩ : Parser Field) ([name.name] ++ known)
        fun field => (field.ident.map Ident.name).toList :=
    fun name type => Finds.pure (by simp)
  refine Finds.ite (Finds.bind_of Finds.anyIdent fun name => ?_)
    (Finds.bind_of Finds.ident fun name => ?_) <;>
    refine Finds.bind fun _ => Finds.bind fun nested => Finds.ite ?_ ?_
  · exact Finds.bind fun _ => Finds.bind fun _ => Finds.bind fun _ => Finds.bind fun _ =>
      hfield name _
  · exact Finds.bind fun _ => hfield name _
  · exact Finds.bind fun _ => Finds.bind fun _ => Finds.bind fun _ => Finds.bind fun _ =>
      hfield name _
  · exact Finds.bind fun _ => hfield name _

theorem namedFields_finds (known : List String) :
    Finds (namedFields rules) known fun fields =>
      fields.items.flatMap fun field => (field.ident.map Ident.name).toList := by
  refine Finds.bind fun depth => ?_
  cases depth with
  | zero => exact Finds.separatedUntil (namedField_finds rules _)
  | succ depth => exact Finds.separatedUntil (namedField_finds rules _)

theorem struct_finds (attrs : List Attribute) (vis : Visibility) (known : List String) :
    Finds (struct rules attrs vis) known Struct.fieldNames := by
  refine Finds.bind fun pos => Finds.bind fun _ => Finds.bind fun name => ?_
  refine Finds.bind fun params => Finds.bind fun first => Finds.bind fun early => ?_
  have hbraces : Finds (do
      let found ← Parser.within .brace (namedFields rules)
      return (⟨attrs, vis, pos, name, ⟨params, early⟩, .named found.1⟩ : Struct))
      known Struct.fieldNames := by
    refine Finds.bind_of (Finds.within (namedFields_finds rules known)) fun found => ?_
    refine Finds.pure fun name hname => List.mem_append_left _ ?_
    simpa [Struct.fieldNames, Struct.namedFields] using hname
  have hunit : Finds (do
      let _ ← Parser.op ";"
      return (⟨attrs, vis, pos, name, ⟨params, early⟩, .unit⟩ : Struct))
      known Struct.fieldNames :=
    Finds.bind fun _ => Finds.pure (by simp [Struct.fieldNames, Struct.namedFields])
  refine Finds.ite (Finds.choose ?_) (Finds.choose ?_)
  · simpa only [List.forall_mem_cons, List.not_mem_nil, false_implies, implies_true, and_true]
      using ⟨hbraces, hunit⟩
  · simp only [List.forall_mem_cons, List.not_mem_nil, false_implies, implies_true, and_true]
    refine ⟨hunit, ?_, hbraces, hunit⟩
    refine Finds.bind fun fields => Finds.bind fun second => Finds.bind fun late => ?_
    refine Finds.bind fun closed => Finds.ite ?_ Finds.fail
    exact Finds.bind fun _ => Finds.pure (by simp [Struct.fieldNames, Struct.namedFields])

theorem moduleItem_finds (hitem : ∀ known, Finds rules.item known Item.fieldNames)
    (known : List String) :
    Finds (moduleItem rules) known fun found => (found.1.getD []).flatMap Item.fieldNames := by
  have hbody : Finds (do
      let attrs ← innerTokens rules
      let items ← Parser.repeatWhile (fun ts => !ts.isEmpty) rules.item
      return (attrs, items)) known fun found => found.2.flatMap Item.fieldNames :=
    Finds.bind fun attrs => Finds.bind_of (Finds.repeatWhile hitem) fun items =>
      Finds.pure (List.subset_append_left _ _)
  refine Finds.bind fun head => ?_
  refine Finds.bind fun isTry => Finds.ite (Finds.bind fun name => ?_) (Finds.bind fun name => ?_)
  all_goals
    refine Finds.choose ?_
    simp only [List.forall_mem_cons, List.not_mem_nil, false_implies, implies_true, and_true]
    refine ⟨Finds.bind fun _ => Finds.pure (by simp), ?_⟩
    refine Finds.bind_of (Finds.within hbody) fun found => Finds.pure ?_
    exact List.subset_append_left _ _

theorem item_finds (hitem : ∀ known, Finds rules.item known Item.fieldNames)
    (known : List String) : Finds (item rules) known Item.fieldNames := by
  refine Finds.bind fun attrs => Finds.bind fun vis => Finds.choose ?_
  have hother : ∀ (lead : Tokens) (parser : Parser Tokens),
      Finds (do return Item.other (lead ++ (← parser))) known Item.fieldNames :=
    fun lead parser => Finds.of_none (Yields.bind fun _ => Yields.pure rfl)
  have hmodule : ∀ lead : Tokens, Finds (do
      let found ← moduleItem rules
      return Item.module (found.1.getD []) (lead ++ found.2)) known Item.fieldNames := by
    intro lead
    refine Finds.bind_of (moduleItem_finds rules hitem known) fun found => Finds.pure ?_
    rw [Item.fieldNames, Item.fieldNamesAll_eq]
    exact List.subset_append_left _ _
  have hunsafe : ∀ lead, Finds (unsafeItem rules lead) known Item.fieldNames := by
    intro lead
    refine Finds.bind fun _ => Finds.ite (hother _ _) (Finds.ite (hother _ _) ?_)
    refine Finds.ite (hother _ _) (Finds.ite (hmodule _) ?_)
    exact Finds.bind fun _ => Finds.fail
  have hstruct : Finds (do return Item.struct (← struct rules attrs vis)) known
      Item.fieldNames :=
    Finds.bind_of (struct_finds rules attrs vis known) fun decl =>
      Finds.pure (List.subset_append_left _ _)
  rw [List.forall_mem_append]
  constructor
  · simp only [List.forall_mem_cons, List.not_mem_nil, false_implies, implies_true, and_true]
    exact ⟨hother _ _, hother _ _, hother _ _, hother _ _, hother _ _, hunsafe _, hmodule _,
      hother _ _, hstruct, hother _ _, hother _ _, hother _ _, hother _ _, hother _ _, hother _ _,
      hother _ _⟩
  · split
    · simp only [List.forall_mem_cons, List.not_mem_nil, false_implies, implies_true, and_true]
      exact ⟨hother _ _, hother _ _, hother _ _, hother _ _, hother _ _⟩
    · simp

end Rules

theorem level_item_finds (depth : Nat) (known : List String) :
    Finds (Rules.level depth).item known Item.fieldNames := by
  induction depth generalizing known with
  | zero =>
    intro s a t h
    simp [Rules.level, Rules.none, failHere] at h
  | succ depth ih => exact item_finds (Rules.level depth) ih known

/-- What all of some tokens are parsed to has its names from them. -/
theorem Finds.parseAll {p : Parser α} {names : α → List String} (h : Finds p [] names)
    {tokens : Tokens} {stop : Pos} {value : α} (hv : parseAll p tokens stop = .ok value) :
    ∀ name ∈ names value, Mark.ident name ∈ marksAll tokens := by
  unfold Grammar.parseAll at hv
  split at hv
  · simp at hv
  · rename_i found after hrun
    split at hv
    · simp at hv
    · cases hv
      exact fun name hname => (h _ _ _ hrun name hname).resolve_left List.not_mem_nil

/-- The field names of a struct that was read are words of its declaration. -/
theorem parseItem_fieldNames {tokens : Tokens} {decl : Struct}
    (h : parseItem tokens = .ok (.struct decl)) :
    ∀ name ∈ decl.fieldNames, Mark.ident name ∈ marksAll tokens :=
  Finds.parseAll (level_item_finds _ []) h

/-- The field names of the structs in a file are words of its text. -/
theorem parseItems_fieldNames {tokens : Tokens} {items : List Item}
    (h : parseItems tokens = .ok items) :
    ∀ name ∈ Item.fieldNamesAll items, Mark.ident name ∈ marksAll tokens := by
  rw [Item.fieldNamesAll_eq]
  have hitems : Finds (do
      let _ ← innerAttributes (Rules.forTokens tokens)
      Parser.repeatWhile (fun ts => !ts.isEmpty) (Rules.forTokens tokens).item) []
      fun items => items.flatMap Item.fieldNames :=
    Finds.bind fun _ => Finds.repeatWhile (level_item_finds _)
  exact Finds.parseAll hitems h

end Fieldwise.Grammar
