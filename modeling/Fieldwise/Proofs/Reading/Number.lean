import Fieldwise.Proofs.Reading.Character

/-!
# The characters of a number

A number takes characters that are there and none of them is a space: digits, the marks of a base, the
point, the sign of an exponent, and the letters of a suffix.
-/

namespace Fieldwise.Number

open Fieldwise.Text

variable {cs : List Char} {n : Nat}

/-- So many characters are there at the head of a text, and none of them is a space. -/
structure Spans (cs : List Char) (n : Nat) : Prop where
  /-- They are there. -/
  le_length : n ≤ cs.length
  /-- None is a space. -/
  no_space : ' ' ∉ cs.take n

theorem Spans.add {m : Nat} (hn : Spans cs n) (hm : Spans (cs.drop n) m) : Spans cs (n + m) := by
  have hlen := hm.le_length
  have hle := hn.le_length
  rw [List.length_drop] at hlen
  refine ⟨by omega, ?_⟩
  rw [List.take_add, List.mem_append, not_or]
  exact ⟨hn.no_space, hm.no_space⟩

theorem Spans.zero (cs : List Char) : Spans cs 0 := ⟨by omega, by simp⟩

/-- One character is a span, and a span after it goes on. -/
theorem Spans.cons {c : Char} (hc : c ≠ ' ') (h : Spans cs n) : Spans (c :: cs) (n + 1) := by
  refine ⟨by simpa using h.le_length, ?_⟩
  rw [List.take_succ_cons, List.mem_cons, not_or]
  exact ⟨hc.symm, h.no_space⟩

/-- The characters of a class without the space are a span. -/
theorem Spans.takeWhile {test : Char → Bool} (htest : test ' ' = false) (cs : List Char) :
    Spans cs (cs.takeWhile test).length := by
  induction cs with
  | nil => exact .zero _
  | cons c cs ih =>
    rw [List.takeWhile_cons]
    split
    · rename_i hc
      refine .cons ?_ ih
      rintro rfl
      rw [htest] at hc
      contradiction
    · exact .zero _

theorem wordLength_spans (cs : List Char) : Spans cs (wordLength cs) := by
  cases cs with
  | nil => exact .zero _
  | cons c cs =>
    rw [wordLength]
    split
    · rename_i hc
      refine .cons ?_ (.takeWhile (by decide) cs)
      rintro rfl
      revert hc
      decide
    · exact .zero _

/-- The digits of an exponent and its sign have no spaces. -/
theorem exponentLength_spans (h : exponentLength cs = some n) : Spans cs n := by
  have hfirst : Spans cs (cs.takeWhile isDigitOrBlank).length := .takeWhile (by decide) cs
  unfold exponentLength at h
  dsimp only at h
  split at h
  · cases h
    exact hfirst
  · split at h
    · rename_i sign rest hdrop
      split at h
      · rename_i hsign
        cases h
        rw [Bool.and_eq_true, Bool.or_eq_true, beq_iff_eq, beq_iff_eq] at hsign
        have hne : sign ≠ ' ' := by
          rintro rfl
          rcases hsign.1 with h | h <;> revert h <;> decide
        rw [Nat.add_assoc, Nat.add_comm 1]
        refine hfirst.add ?_
        rw [hdrop]
        exact .cons hne (.takeWhile (by decide) rest)
      · simp at h
    · simp at h

theorem pointLength_spans (h : pointLength cs = some n) : Spans cs n := by
  unfold pointLength at h
  split at h
  · rename_i rest
    split at h
    · simp at h
    · cases h
      exact .cons (by decide) (.takeWhile (by decide) rest)
  · cases h
    exact .zero _

theorem fractionLength_spans (h : fractionLength cs = some n) : Spans cs n := by
  cases cs with
  | nil => simp [fractionLength] at h
  | cons c rest =>
    rw [fractionLength] at h
    split at h
    · simp at h
    · rename_i hdigit
      have hc : c ≠ ' ' := by
        rintro rfl
        exact hdigit (by decide)
      have hwhole : Spans (c :: rest) ((rest.takeWhile isDigitOrBlank).length + 1) :=
        .cons hc (.takeWhile (by decide) rest)
      dsimp only at h
      generalize (rest.takeWhile isDigitOrBlank).length + 1 = whole at h hwhole
      split at h
      · simp at h
      · rename_i point hpoint
        have hmantissa := hwhole.add (pointLength_spans hpoint)
        -- Without an exponent only a text with a point is a fraction.
        have hplain : ∀ m, (if point = 0 then none else some (whole + point)) = some m →
            Spans (c :: rest) m := by
          intro m hm
          split at hm
          · simp at hm
          · cases hm
            exact hmantissa
        split at h
        · rename_i letter more hdrop
          split at h
          · rename_i hletter
            have hne : letter ≠ ' ' := by
              rintro rfl
              revert hletter
              decide
            split at h
            · rename_i k hk
              cases h
              rw [Nat.add_assoc, Nat.add_comm 1]
              refine hmantissa.add ?_
              rw [hdrop]
              exact .cons hne (exponentLength_spans hk)
            · exact hplain n h
          · exact hplain n h
        · exact hplain n h

theorem base_spans (cs : List Char) : Spans cs (base cs).2 := by
  unfold base
  split
  · exact .cons (by decide) (.cons (by decide) (.zero _))
  · exact .cons (by decide) (.cons (by decide) (.zero _))
  · exact .cons (by decide) (.cons (by decide) (.zero _))
  · exact .zero _

theorem inDigits_space (radix : Nat) : inDigits radix ' ' = false := by
  simp [inDigits, show isDigitOrBlank ' ' = false by decide, show isHexDigit ' ' = false by decide]

theorem wholeLength_spans (h : wholeLength cs = some n) : Spans cs n := by
  have hbase := base_spans cs
  unfold wholeLength at h
  dsimp only at h
  split at h
  · simp at h
  · split at h
    · simp at h
    · split at h
      · cases h
        exact hbase.add (.takeWhile (inDigits_space _) _)
      · simp at h

theorem withSuffix_spans {m : Nat} (hn : Spans cs n) (h : withSuffix cs n = some m) : Spans cs m := by
  unfold withSuffix at h
  dsimp only at h
  split at h
  · simp at h
  · cases h
    exact hn.add (wordLength_spans _)

theorem length_spans (h : length cs = some n) : Spans cs n := by
  unfold length at h
  split at h
  · rename_i m hm
    cases h
    obtain ⟨k, hk, hsuffix⟩ := Option.bind_eq_some_iff.mp hm
    exact withSuffix_spans (fractionLength_spans hk) hsuffix
  · obtain ⟨k, hk, hsuffix⟩ := Option.bind_eq_some_iff.mp h
    exact withSuffix_spans (wholeLength_spans hk) hsuffix

theorem fractionLength_head (h : fractionLength cs = some n) : 0 < n ∧ cs.head?.any isDigit = true := by
  cases cs with
  | nil => simp [fractionLength] at h
  | cons c rest =>
    rw [fractionLength] at h
    split at h
    · simp at h
    · rename_i hdigit
      refine ⟨?_, by simpa using hdigit⟩
      dsimp only at h
      generalize (rest.takeWhile isDigitOrBlank).length = whole at h
      split at h
      · simp at h
      · rename_i point hpoint
        have hplain : (if point = 0 then none else some (whole + 1 + point)) = some n → 0 < n := by
          intro hn
          split at hn
          · simp at hn
          · cases hn
            omega
        split at h
        · split at h
          · split at h
            · cases h
              omega
            · exact hplain h
          · exact hplain h
        · exact hplain h

/-- A whole number begins with a digit: the zero that announces a base, or a digit in base ten, where the
underscore may not come first. -/
theorem wholeLength_head (h : wholeLength cs = some n) : 0 < n ∧ cs.head?.any isDigit = true := by
  unfold wholeLength at h
  dsimp only at h
  split at h
  · simp at h
  · split at h
    · simp at h
    · rename_i hblank
      split at h
      · rename_i hdigits
        cases h
        unfold base at hblank hdigits ⊢
        split at hblank
        · exact ⟨by dsimp only; omega, rfl⟩
        · exact ⟨by dsimp only; omega, rfl⟩
        · exact ⟨by dsimp only; omega, rfl⟩
        · cases cs with
          | nil => simp at hdigits
          | cons c rest =>
            cases hc : inDigits 10 c with
            | false => simp [hc] at hdigits
            | true =>
              simp only [List.drop_zero, List.takeWhile_cons, hc, if_true, List.head?_cons,
                beq_self_eq_true, Bool.true_and, beq_iff_eq, Option.some.injEq] at hblank
              refine ⟨by simp [hc], ?_⟩
              simpa [inDigits, isDigitOrBlank, hblank] using hc
      · simp at h

theorem length_head (h : length cs = some n) : 0 < n ∧ cs.head?.any isDigit = true := by
  have hsuffix : ∀ {k m : Nat}, withSuffix cs k = some m → k ≤ m := by
    intro k m hm
    unfold withSuffix at hm
    dsimp only at hm
    split at hm
    · simp at hm
    · cases hm
      omega
  unfold length at h
  split at h
  · rename_i m hm
    cases h
    obtain ⟨k, hk, hadd⟩ := Option.bind_eq_some_iff.mp hm
    have hle := hsuffix hadd
    obtain ⟨hpos, hhead⟩ := fractionLength_head hk
    exact ⟨by omega, hhead⟩
  · obtain ⟨k, hk, hadd⟩ := Option.bind_eq_some_iff.mp h
    have hle := hsuffix hadd
    obtain ⟨hpos, hhead⟩ := wholeLength_head hk
    exact ⟨by omega, hhead⟩

end Fieldwise.Number
