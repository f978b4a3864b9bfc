import Fieldwise.Grammar.Rules

/-!
# What parsers yield

A parser that succeeds has run each of its steps successfully. `Yields` states what holds of every value
that a parser returns, whatever the stream; the combinators of the grammar pass such a statement on from
their parts, so a rule of the grammar is looked at one step at a time.
-/

namespace Fieldwise.Grammar

open Fieldwise.Grammar.Parser

variable {α β : Type}

/-! ## Running parsers -/

/-- A sequence runs its second step on what the first one leaves. -/
theorem bind_run (p : Parser α) (f : α → Parser β) (s : Stream) :
    (p >>= f) s = (p s).bind fun r => f r.1 r.2 := rfl

theorem pure_run (a : α) (s : Stream) : (pure a : Parser α) s = .ok (a, s) := rfl

theorem look_run (test : Tokens → Bool) (s : Stream) :
    look test s = .ok (test s.tokens, s) := rfl

theorem ite_run (c : Prop) [Decidable c] (p q : Parser α) (s : Stream) :
    (if c then p else q) s = if c then p s else q s := by
  split <;> rfl

theorem ok_bind {ε : Type} (a : α) (f : α → Except ε β) : (Except.ok a).bind f = f a := rfl

/-! ## What they yield -/

/-- A sequence succeeds exactly when its first step does and the second one does after it. -/
theorem bind_eq_ok {p : Parser α} {f : α → Parser β} {s t : Stream} {b : β} :
    (p >>= f) s = .ok (b, t) ↔ ∃ a m, p s = .ok (a, m) ∧ f a m = .ok (b, t) := by
  constructor
  · intro h
    change Except.bind (p s) (fun r => f r.1 r.2) = .ok (b, t) at h
    cases hp : p s with
    | error e => simp [hp, Except.bind] at h
    | ok r => exact ⟨r.1, r.2, rfl, by simpa [hp, Except.bind] using h⟩
  · rintro ⟨a, m, hp, hf⟩
    change Except.bind (p s) (fun r => f r.1 r.2) = .ok (b, t)
    simpa [hp, Except.bind] using hf

/-- A parser that takes nothing succeeds with its value and leaves the stream. -/
theorem pure_eq_ok {a b : α} {s t : Stream} :
    (pure a : Parser α) s = .ok (b, t) ↔ a = b ∧ s = t := by
  change (Except.ok (a, s) : Except SyntaxError (α × Stream)) = .ok (b, t) ↔ _
  simp

/-- A look at the tokens succeeds and leaves the stream. -/
theorem look_eq_ok {test : Tokens → Bool} {b : Bool} {s t : Stream} :
    look test s = .ok (b, t) ↔ test s.tokens = b ∧ s = t := by
  change (Except.ok (test s.tokens, s) : Except SyntaxError (Bool × Stream)) = .ok (b, t) ↔ _
  simp

/-- A choice that succeeds has run an alternative whose test holds. -/
theorem choose_eq_ok {named : List (String × (Tokens → Bool) × Parser α)} {s t : Stream} {a : α}
    (h : choose named s = .ok (a, t)) :
    ∃ entry ∈ named, entry.2.1 s.tokens = true ∧ entry.2.2 s = .ok (a, t) := by
  unfold choose at h
  generalize named.map Prod.fst = names at h
  induction named with
  | nil => contradiction
  | cons entry rest ih =>
    rw [choose.go, bind_run, look_run, ok_bind, ite_run] at h
    split at h
    case isTrue htest => exact ⟨entry, List.mem_cons_self, htest, h⟩
    case isFalse =>
      obtain ⟨found, hmem, hfound⟩ := ih h
      exact ⟨found, List.mem_cons_of_mem _ hmem, hfound⟩

/-- A parse of all tokens that succeeds has left nothing over. -/
theorem parseAll_run {p : Parser α} {tokens : Tokens} {stop : Pos} {value : α}
    (h : Grammar.parseAll p tokens stop = .ok value) :
    ∃ after, p ⟨tokens, stop, .invisible, none⟩ = .ok (value, after) ∧ after.leftover = none ∧
      after.remainder = none := by
  unfold Grammar.parseAll at h
  split at h
  case h_1 => contradiction
  case h_2 found after hrun =>
    split at h
    case h_1 => contradiction
    case h_2 hleft =>
      cases h
      exact ⟨after, hrun, Option.or_eq_none_iff.mp hleft⟩

/-- Every value that the parser returns has the property. -/
def Yields (p : Parser α) (P : α → Prop) : Prop :=
  ∀ s a t, p s = .ok (a, t) → P a

namespace Yields

variable {p q : Parser α} {P : α → Prop}

theorem pure {a : α} (h : P a) : Yields (Pure.pure a : Parser α) P := by
  intro s b t hb
  obtain ⟨rfl, -⟩ := pure_eq_ok.mp hb
  exact h

/-- A sequence yields what its second step yields after any value of the first. -/
theorem bind {f : β → Parser α} {p : Parser β} (h : ∀ b, Yields (f b) P) :
    Yields (p >>= f) P := by
  intro s a t ha
  obtain ⟨b, m, -, hf⟩ := bind_eq_ok.mp ha
  exact h b m a t hf

theorem bind_of {f : β → Parser α} {p : Parser β} {Q : β → Prop} (hp : Yields p Q)
    (h : ∀ b, Q b → Yields (f b) P) : Yields (p >>= f) P := by
  intro s a t ha
  obtain ⟨b, m, hb, hf⟩ := bind_eq_ok.mp ha
  exact h b (hp s b m hb) m a t hf

theorem ite {c : Prop} [Decidable c] (hp : Yields p P) (hq : Yields q P) :
    Yields (if c then p else q) P := by
  by_cases hc : c
  · simpa only [if_pos hc] using hp
  · simpa only [if_neg hc] using hq

theorem fail {cause : Cause} : Yields (Parser.fail cause : Parser α) P := by
  intro s a t h
  simp [Parser.fail] at h

/-- A choice among alternatives yields what each of them yields. -/
theorem choose {named : List (String × (Tokens → Bool) × Parser α)}
    (h : ∀ entry ∈ named, Yields entry.2.2 P) : Yields (Parser.choose named) P := by
  intro s a t ha
  obtain ⟨entry, hmem, -, hentry⟩ := choose_eq_ok ha
  exact h entry hmem s a t hentry

/-- The inside of a group yields what its parser yields. -/
theorem within {delim : Delim} (h : Yields p P) :
    Yields (Parser.within delim p) fun found => P found.1 := by
  intro s a t ha
  unfold Parser.within at ha
  split at ha
  · split at ha
    · split at ha
      · simp at ha
      · rename_i value inner hinside
        simp only [Except.ok.injEq, Prod.mk.injEq] at ha
        obtain ⟨rfl, -⟩ := ha
        exact h _ value inner hinside
    · exact absurd ha (by simp [Parser.fail])
  · exact absurd ha (by simp [Parser.fail])

/-- Every item of a separated list is what the parser for items yields. -/
theorem separatedUntil {stop : Tokens → Bool} {separator : String} (h : Yields p P) :
    Yields (Parser.separatedUntil stop separator p) fun list => ∀ a ∈ list.items, P a := by
  refine bind fun n => ?_
  induction n with
  | zero => exact pure (by simp)
  | succ n ih =>
    refine bind fun atStop => ite (pure (by simp)) (bind_of h fun a ha => ?_)
    refine bind fun atStop => ite (pure (by simpa using ha)) ?_
    refine bind fun _ => bind_of ih fun rest hrest => pure ?_
    simpa [Separated.cons] using ⟨ha, hrest⟩

/-- Every item of a list up to the end of the stream is what the parser for items yields. -/
theorem terminated (h : Yields p P) :
    Yields (Parser.terminated p) fun list => ∀ a ∈ list.items, P a :=
  separatedUntil h

end Yields

end Fieldwise.Grammar
