import Fieldwise.Proofs.CommaExpressions
import Fieldwise.Proofs.DirectiveLists
import Fieldwise.Proofs.Members
import Fieldwise.Proofs.ShrinkingItems

/-!
# Lists of member options

No value and no expression reaches across a comma, so two lists of member options with a comma between them are read
as the options of the one and then those of the other. A field says the same whether its options stand in one member
attribute or in several: the last initial value and the last expression count, and a mark counts wherever it stands.
-/

namespace Fieldwise

open Fieldwise.Grammar Fieldwise.Grammar.Parser Fieldwise.Token

variable {found later : List MemberOption} {closing : Pos} {field : Field}

/-! ## Options before a comma -/

instance Grammar.Stops.value (q : Sequel) [hq : Parting q] (depth : Nat) : Stops q (Value.parser (.level depth)) :=
  .intro (fun _ _ _ => value_suffix depth) fun _ _ _ => value_beforeComma hq.apart hq.comma depth

instance Grammar.Stops.memberOption (q : Sequel) [Parting q] (depth : Nat) :
    Stops q (MemberOptions.optionParser (.level depth)) := by
  have hrules := Rules.Stop.level q depth
  unfold MemberOptions.optionParser
  refine andThen q inferInstance fun name => ?_
  split <;> infer_instance

/-! ## Joined lists -/

namespace MemberOption

/-- The initial value that an option gives. -/
def initial? : MemberOption → Option Value
  | .initial value => some value
  | _ => none

/-- The expression that an option gives. -/
def computed? : MemberOption → Option Expr
  | .computed value => some value
  | _ => none

/-- Whether an option marks a member that keeps its value. -/
def isConstant : MemberOption → Bool
  | .constant => true
  | _ => false

/-- Whether an option marks a member of the type. -/
def isStatic : MemberOption → Bool
  | .static => true
  | _ => false

end MemberOption

/-- A member attribute with these tokens between its delimiters, of which the last stands at a place. -/
structure Grammar.Attribute.Lists (attr : Attribute) (body : Tokens) (closing : Pos) : Prop where
  describes : MemberOptions.describes attr = true
  value : ∃ delim opening, attr.value = .list delim body opening closing

/-- What is read of it is what stands between its delimiters. -/
theorem Grammar.Attribute.Lists.parse {attr : Attribute} {body : Tokens} (h : attr.Lists body closing) :
    MemberOptions.parseAttribute attr =
      parseAll (Separated.items <$> terminated (MemberOptions.optionParser (.forTokens body))) body closing := by
  obtain ⟨delim, opening, hvalue⟩ := h.value
  rw [MemberOptions.parseAttribute, hvalue]

namespace MemberOptions

/-- The tokens are options with commas between them, and no group in them has tokens left over. -/
def OptionList (body : Tokens) (closing : Pos) (found : List MemberOption) : Prop :=
  ∃ rest, Listed (fun s option t => optionParser (.forTokens body) s = .ok (option, t))
    ⟨body, closing, .invisible, none⟩ found rest ∧ rest.leftover = none

theorem optionParser_lt {tokens : Tokens} {s t : Stream} {option : MemberOption}
    (h : optionParser (.forTokens tokens) s = .ok (option, t)) : sizeAll t.tokens < sizeAll s.tokens := by
  obtain ⟨name, m, hname, h⟩ := Grammar.bind_eq_ok.mp h
  obtain ⟨token, hbare⟩ := anyIdent_bare hname
  have hword := sizeAll_of_bare hbare
  have hrest : sizeAll t.tokens ≤ sizeAll m.tokens := by
    refine @Shrinks.le _ _ ?_ m option t h
    split <;> infer_instance
  omega

theorem parseAll_eq_ok {body : Tokens} :
    parseAll (Separated.items <$> terminated (optionParser (.forTokens body))) body closing = .ok found ↔
      OptionList body closing found := by
  have hlist : ∀ rest, (Separated.items <$> terminated (optionParser (.forTokens body)))
      ⟨body, closing, .invisible, none⟩ = .ok (found, rest) ↔ _ :=
    fun rest => terminated_eq_ok (fun _ _ _ => Iff.rfl) fun _ _ _ => optionParser_lt
  unfold parseAll OptionList
  simp only [← hlist]
  constructor
  · intro h
    split at h
    · contradiction
    · rename_i value after hrun
      split at h
      · contradiction
      · rename_i hleft
        cases h
        exact ⟨after, hrun, (Option.or_eq_none_iff.mp hleft).1⟩
  · rintro ⟨rest, hrun, hleft⟩
    have hend : rest.tokens = [] := ((hlist rest).mp hrun).tokens_eq_nil
    simp [hrun, hleft, Stream.remainder, hend, visibleAmong]

/-- Two lists of options with a comma between them are one list. -/
theorem OptionList.join {a b : Tokens} {before : Pos} (spacing : Spacing) (pos : Pos) (hovert : overtAll a = true)
    (hovert' : overtAll b = true) (hne : a ≠ []) (hlast : endsComma a = false) (ha : OptionList a before found)
    (hb : OptionList b closing later) : OptionList (a ++ .punct ',' spacing pos :: b) closing (found ++ later) := by
  obtain ⟨t, ha, hleft⟩ := ha
  obtain ⟨u, hb, hleft'⟩ := hb
  have hrest : overtAll (.punct ',' spacing pos :: b) = true := by
    rw [overtAll, hovert']
    rfl
  let q : Sequel := ⟨false, .punct ',' spacing pos :: b, closing, .invisible, hrest, rfl⟩
  have hq : Parting q := ⟨rfl, rfl⟩
  -- The rules for all of the tokens allow for deeper nesting than those for either list.
  have hdepth : depthFor a ≤ depthFor (a ++ .punct ',' spacing pos :: b) ∧
      depthFor b ≤ depthFor (a ++ .punct ',' spacing pos :: b) := by
    simp only [depthFor, sizeAll_append, sizeAll]
    omega
  have hdeeper : ∀ {depth deeper : Nat}, depth ≤ deeper → ∀ s option t, optionParser (.level depth) s = .ok (option, t) →
      optionParser (.level deeper) s = .ok (option, t) :=
    fun hle s option t h => ok_of_deeper (fun _ _ _ _ => inferInstance) hle h
  have ha := ha.mono (hdeeper hdepth.1)
  have hb := hb.mono (hdeeper hdepth.2)
  have hstops := Stops.memberOption q (depthFor (a ++ .punct ',' spacing pos :: b))
  have hjoin := Listed.join (q := q)
    (fun s option t (hs : overtAll s.tokens = true) (h : optionParser _ s = .ok (option, t)) =>
      (⟨hstops.grown hs h, hstops.suffix hs h⟩ : _ = Except.ok (option, q.grow t) ∧ _))
    rfl ha hovert hne hlast (by rw [hleft]; exact hb)
  rw [Sequel.grow, linked_apart rfl] at hjoin
  exact ⟨u, hjoin, hleft'⟩

/-- What some options say together: the last initial value and the last expression count, and a mark counts wherever
it stands. -/
structure Collects (options : MemberOptions) (found : List MemberOption) : Prop where
  initial : options.initial = (found.filterMap MemberOption.initial?).getLast?
  isConstant : options.isConstant = found.any MemberOption.isConstant
  isStatic : options.isStatic = found.any MemberOption.isStatic
  computed : options.computed = (found.filterMap MemberOption.computed?).getLast?

theorem Collects.unique {options other : MemberOptions} (h : options.Collects found) (h' : other.Collects found) :
    options = other := by
  obtain ⟨initial, isConstant, isStatic, computed⟩ := options
  obtain ⟨rfl, rfl, rfl, rfl⟩ := h
  obtain ⟨initial', isConstant', isStatic', computed'⟩ := other
  obtain ⟨rfl, rfl, rfl, rfl⟩ := h'
  rfl

end MemberOptions

/-! ## Fields and structs -/

end Fieldwise
