import Fieldwise.Token.Lexer

/-!
# How tokens begin

A token is recognised by its first character. The classes of characters that begin words, numbers and
punctuation are apart from each other, from blanks and from delimiters.
-/

namespace Fieldwise.Lexer

open Fieldwise.Text

variable {c : Char}

/-- The points of the characters that are blanks. -/
def blankPoints : List Nat :=
  [0x9, 0xA, 0xB, 0xC, 0xD, 0x20, 0x85, 0xA0, 0x1680, 0x2000, 0x2001, 0x2002, 0x2003, 0x2004,
    0x2005, 0x2006, 0x2007, 0x2008, 0x2009, 0x200A, 0x200E, 0x200F, 0x2028, 0x2029, 0x202F,
    0x205F, 0x3000]

theorem toNat_mem_blankPoints (h : isBlank c = true) : c.toNat ∈ blankPoints := by
  have hmark : ∀ d : Char, c = d → c.toNat = d.toNat := fun d hd => by rw [hd]
  simp only [isBlank, isWhitespace, Bool.or_eq_true, Bool.and_eq_true, decide_eq_true_eq,
    beq_iff_eq] at h
  have hpoint : c.toNat = 0x200E ∨ c.toNat = 0x200F ∨
      (0x9 ≤ c.toNat ∧ c.toNat ≤ 0xD) ∨ c.toNat = 0x20 ∨ c.toNat = 0x85 ∨ c.toNat = 0xA0 ∨
      c.toNat = 0x1680 ∨ (0x2000 ≤ c.toNat ∧ c.toNat ≤ 0x200A) ∨ c.toNat = 0x2028 ∨
      c.toNat = 0x2029 ∨ c.toNat = 0x202F ∨ c.toNat = 0x205F ∨ c.toNat = 0x3000 := by
    rcases h with (h | h) | h
    · omega
    · exact .inl (hmark _ h)
    · exact .inr (.inl (hmark _ h))
  simp only [blankPoints, List.mem_cons, List.not_mem_nil, or_false]
  omega

/-- A class has no blank if none of the points of blanks is in it. -/
theorem not_blank_of_points {test : Char → Bool} (htest : ∀ point ∈ blankPoints, test (Char.ofNat point) = false)
    (h : test c = true) : isBlank c = false := by
  cases hblank : isBlank c with
  | false => rfl
  | true =>
    have hnone := htest c.toNat (toNat_mem_blankPoints hblank)
    rw [Char.ofNat_toNat, h] at hnone
    contradiction

/-- The characters with a meaning of their own: delimiters, quotes, the backslash, punctuation, and the
byte order mark. -/
def special : List Char :=
  ['(', ')', '[', ']', '{', '}', '"', '\\', '\ufeff'] ++ punctuation

/-- A property of each character in a list, checked one after the other. -/
theorem forall_mem_of_all {cs : List Char} {test : Char → Prop} [DecidablePred test]
    (h : (cs.all fun c => decide (test c)) = true) : ∀ c ∈ cs, test c := by
  simpa using h

theorem delim_special (h : c ∈ ['(', ')', '[', ']', '{', '}']) : c ∈ special := by
  have htable : ∀ d ∈ ['(', ')', '[', ']', '{', '}'], d ∈ special :=
    forall_mem_of_all (by decide)
  exact htable c h

/-- No word begins or goes on with a special character. -/
theorem special_not_ident (h : isIdentContinue c = true ∨ isIdentStart c = true) : c ∉ special := by
  have htable : ∀ d ∈ special, isIdentContinue d = false ∧ isIdentStart d = false :=
    forall_mem_of_all (by decide +kernel)
  intro hmem
  obtain ⟨hcontinue, hstart⟩ := htable c hmem
  rw [hcontinue, hstart] at h
  simp at h

theorem identStart_not_blank (h : isIdentStart c = true) : isBlank c = false :=
  not_blank_of_points (by decide +kernel) h

theorem identContinue_ne_space (h : isIdentContinue c = true) : c ≠ ' ' := by
  rintro rfl
  revert h
  decide

theorem isDigit_iff : isDigit c = true ↔ 48 ≤ c.toNat ∧ c.toNat ≤ 57 := by
  simp only [isDigit, Bool.and_eq_true, decide_eq_true_eq, Char.le_def, UInt32.le_iff_toNat_le]
  rfl

theorem isDigit_mem (h : isDigit c = true) : c ∈ ['0', '1', '2', '3', '4', '5', '6', '7', '8', '9'] := by
  have htable : ∀ point < 58, 48 ≤ point →
      Char.ofNat point ∈ ['0', '1', '2', '3', '4', '5', '6', '7', '8', '9'] := by
    decide
  obtain ⟨hlow, hhigh⟩ := isDigit_iff.mp h
  simpa [Char.ofNat_toNat] using htable c.toNat (by omega) hlow

/-- A digit is no blank, begins no word, and is not special. -/
theorem digit_apart (h : isDigit c = true) : isBlank c = false ∧ isIdentStart c = false ∧ c ∉ special := by
  have htable : ∀ d ∈ ['0', '1', '2', '3', '4', '5', '6', '7', '8', '9'],
      isBlank d = false ∧ isIdentStart d = false ∧ d ∉ special :=
    forall_mem_of_all (by decide)
  exact htable c (isDigit_mem h)

theorem punctuation_apart (h : c ∈ punctuation) :
    isBlank c = false ∧ c ∉ ['(', ')', '[', ']', '{', '}', '"', ' ', '\ufeff'] := by
  have htable : ∀ d ∈ punctuation,
      isBlank d = false ∧ d ∉ ['(', ')', '[', ']', '{', '}', '"', ' ', '\ufeff'] :=
    forall_mem_of_all (by decide)
  exact htable c h

end Fieldwise.Lexer
