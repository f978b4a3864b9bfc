import Fieldwise.Grammar.Parse
import Fieldwise.Proofs.Parsing

/-!
# Fields between braces have names

The grammar reads a name before the colon of every field between braces, so the fields of a struct that was
read from tokens and has named fields all carry a name. Unnamed groups of fields carry the placeholder.
-/

namespace Fieldwise.Grammar

/-- Every field between the braces of a struct has a name. -/
def Item.FieldsNamed : Item → Prop
  | .struct decl => ∀ field ∈ decl.namedFields, ∃ name, field.ident = some name
  | _ => True

theorem namedField_yields (rules : Rules) (fields : Parser (Separated Field)) :
    Yields (namedField rules fields) fun field => ∃ name, field.ident = some name := by
  refine Yields.bind fun attrs => Yields.bind fun vis => Yields.bind fun unnamed => ?_
  have hfield : ∀ name type, Yields (pure ⟨attrs, vis, some name, type⟩ : Parser Field)
      fun field => ∃ name, field.ident = some name :=
    fun name type => Yields.pure ⟨name, rfl⟩
  -- The name is read in one of two ways, and the rest of the field is the same after both.
  refine Yields.ite (Yields.bind fun name => ?_) (Yields.bind fun name => ?_) <;>
    refine Yields.bind fun _ => Yields.bind fun nested => Yields.ite ?_ ?_
  · exact Yields.bind fun _ => Yields.bind fun _ => Yields.bind fun _ => Yields.bind fun _ =>
      hfield name _
  · exact Yields.bind fun _ => hfield name _
  · exact Yields.bind fun _ => Yields.bind fun _ => Yields.bind fun _ => Yields.bind fun _ =>
      hfield name _
  · exact Yields.bind fun _ => hfield name _

theorem namedFields_yields (rules : Rules) :
    Yields (namedFields rules) fun fields =>
      ∀ field ∈ fields.items, ∃ name, field.ident = some name := by
  refine Yields.bind fun depth => ?_
  cases depth with
  | zero => exact Yields.terminated (namedField_yields rules _)
  | succ depth => exact Yields.terminated (namedField_yields rules _)

/-- A struct that was read has names for the fields between its braces. -/
theorem struct_yields (rules : Rules) (attrs : List Attribute) (vis : Visibility) :
    Yields (struct rules attrs vis) fun decl => (Item.struct decl).FieldsNamed := by
  refine Yields.bind fun pos => Yields.bind fun _ => Yields.bind fun name => ?_
  refine Yields.bind fun params => Yields.bind fun first => Yields.bind fun early => ?_
  have hbraces : Yields (do
      let found ← Parser.within .brace (namedFields rules)
      return (⟨attrs, vis, pos, name, ⟨params, early⟩, .named found.1⟩ : Struct))
      fun decl => (Item.struct decl).FieldsNamed := by
    refine Yields.bind_of (Yields.within (namedFields_yields rules)) fun found hfound => ?_
    exact Yields.pure hfound
  have hunit : Yields (do
      let _ ← Parser.op ";"
      return (⟨attrs, vis, pos, name, ⟨params, early⟩, .unit⟩ : Struct))
      fun decl => (Item.struct decl).FieldsNamed :=
    Yields.bind fun _ => Yields.pure (by simp [Item.FieldsNamed, Struct.namedFields])
  refine Yields.ite (Yields.choose ?_) (Yields.choose ?_)
  · simpa only [List.forall_mem_cons, List.not_mem_nil, false_implies, implies_true, and_true]
      using ⟨hbraces, hunit⟩
  · simp only [List.forall_mem_cons, List.not_mem_nil, false_implies, implies_true, and_true]
    refine ⟨hunit, ?_, hbraces, hunit⟩
    refine Yields.bind fun fields => Yields.bind fun second => Yields.bind fun late => ?_
    refine Yields.bind fun closed => Yields.ite ?_ Yields.fail
    exact Yields.bind fun _ => Yields.pure (by simp [Item.FieldsNamed, Struct.namedFields])

/-- An item that was read has names for the fields between the braces of a struct. -/
theorem item_yields (rules : Rules) : Yields (item rules) Item.FieldsNamed := by
  refine Yields.bind fun attrs => Yields.bind fun vis => Yields.choose ?_
  have hother : ∀ (lead : Tokens) (parser : Parser Tokens),
      Yields (do return Item.other (lead ++ (← parser))) Item.FieldsNamed :=
    fun lead parser => Yields.bind fun _ => Yields.pure trivial
  have hmodule : ∀ lead : Tokens, Yields (do
      let found ← moduleItem rules
      return Item.module (found.1.getD []) (lead ++ found.2)) Item.FieldsNamed :=
    fun lead => Yields.bind fun _ => Yields.pure trivial
  have hunsafe : ∀ lead, Yields (unsafeItem rules lead) Item.FieldsNamed := by
    intro lead
    refine Yields.bind fun _ => Yields.ite (hother _ _) (Yields.ite (hother _ _) ?_)
    refine Yields.ite (hother _ _) (Yields.ite (hmodule _) ?_)
    exact Yields.bind fun _ => Yields.fail
  have hstruct : Yields (do return Item.struct (← struct rules attrs vis)) Item.FieldsNamed :=
    Yields.bind_of (struct_yields rules attrs vis) fun _ hdecl => Yields.pure hdecl
  rw [List.forall_mem_append]
  constructor
  · simp only [List.forall_mem_cons, List.not_mem_nil, false_implies, implies_true, and_true]
    exact ⟨hother _ _, hother _ _, hother _ _, hother _ _, hother _ _, hunsafe _, hmodule _,
      hother _ _, hstruct, hother _ _, hother _ _, hother _ _, hother _ _, hother _ _, hother _ _,
      hother _ _⟩
  · split
    · simp only [List.forall_mem_cons, List.not_mem_nil, false_implies, implies_true, and_true]
      exact ⟨hother _ _, hother _ _, hother _ _, hother _ _, hother _ _⟩
    · simp

theorem level_item_yields (depth : Nat) : Yields (Rules.level depth).item Item.FieldsNamed := by
  cases depth with
  | zero =>
    intro s a t h
    simp [Rules.level, Rules.none, Parser.failHere] at h
  | succ depth => exact item_yields (Rules.level depth)

/-- What all of some tokens are parsed to is what the parser returned. -/
theorem Yields.parseAll {α : Type} {p : Parser α} {P : α → Prop} (h : Yields p P)
    {tokens : Tokens} {stop : Pos} {value : α}
    (hv : parseAll p tokens stop = .ok value) : P value := by
  obtain ⟨after, hrun, -⟩ := parseAll_run hv
  exact h _ _ _ hrun

/-- Tokens that parse as a struct with named fields give every field a name. -/
theorem parseItem_fieldsNamed {tokens : Tokens} {found : Item} (h : parseItem tokens = .ok found) :
    found.FieldsNamed :=
  Yields.parseAll (level_item_yields _) h

end Fieldwise.Grammar
