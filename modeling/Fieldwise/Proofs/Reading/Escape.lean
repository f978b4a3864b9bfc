import Fieldwise.Text.Escape
import Fieldwise.Token.Quoted

/-!
# An escaped text is a literal

The text between quotes that stands for a value is read as one literal, whatever the value is: every escape
leads back to plain text, and the only quote that closes it is the last one. Escaping adds no slash.
-/

namespace Fieldwise.Quoted

open Fieldwise.Text

/-- A character that does not close the text is passed over in one step. -/
theorem cookedLength_step {flavour : Flavour} {state next : State} {c : Char} {value : Option Char}
    {rest : List Char} (hopen : (c = '"' && state.mayEnd) = false)
    (hstep : step flavour state c = some (next, value)) :
    cookedLength flavour state (c :: rest) = (cookedLength flavour next rest).map (· + 1) := by
  rw [cookedLength, hopen]
  simp [hstep]

/-- The digits of numbers below sixteen are hexadecimal and stand for themselves. -/
theorem digitChar_hex : ∀ d < 16, isHexDigit d.digitChar = true ∧ hexValue d.digitChar = d ∧
    d.digitChar ≠ '"' ∧ d.digitChar ≠ '/' := by
  decide

theorem cookedLength_digit {value digits d : Nat} {rest : List Char} (hd : d < 16)
    (hdigits : digits < 6) :
    cookedLength .text (.point value digits) (d.digitChar :: rest) =
      (cookedLength .text (.point (value * 16 + d) (digits + 1)) rest).map (· + 1) := by
  obtain ⟨hhex, hvalue, hquote, -⟩ := digitChar_hex d hd
  apply cookedLength_step
  · simp [State.mayEnd]
  · simp only [step, hhex, hvalue, if_true]
    rw [if_neg (by omega)]

/-- The digits of a number are read as the number, as long as there are no more than six. -/
theorem cookedLength_digits (n : Nat) (rest : List Char) (hlen : (hexDigits n).length ≤ 6) :
    cookedLength .text (.point 0 0) (hexDigits n ++ rest) =
      (cookedLength .text (.point n (hexDigits n).length) rest).map
        (· + (hexDigits n).length) := by
  unfold hexDigits at hlen ⊢
  induction n using Nat.strongRecOn generalizing rest with
  | ind n ih =>
    rw [Nat.toDigits_eq_if (by omega)] at hlen ⊢
    split
    · rename_i hlt
      have hread : cookedLength .text (.point 0 0) (n.digitChar :: rest) =
          (cookedLength .text (.point (0 * 16 + n) (0 + 1)) rest).map (· + 1) :=
        cookedLength_digit hlt (by omega)
      simpa using hread
    · rename_i hge
      rw [if_neg hge] at hlen
      simp only [List.length_append, List.length_cons, List.length_nil] at hlen ⊢
      rw [List.append_assoc, ih (n / 16) (by omega) _ (by omega), List.singleton_append,
        cookedLength_digit (by omega) (by omega), Option.map_map]
      rw [show n / 16 * 16 + n % 16 = n by omega]
      congr 1
      funext k
      simp only [Function.comp_apply]
      omega

/-- A backslash and a letter are passed over together. -/
theorem cookedLength_letter {c : Char} (value : Char) {rest : List Char}
    (h : step .text .escape c = some (.plain, some value)) :
    cookedLength .text .plain ('\\' :: c :: rest) =
      (cookedLength .text .plain rest).map (· + 2) := by
  have hslash : step .text .plain '\\' = some (.escape, none) := by decide
  rw [cookedLength_step (by decide) hslash, cookedLength_step (by simp [State.mayEnd]) h,
    Option.map_map]
  rfl

/-- A code point in braces leads from plain text back to plain text. -/
theorem cookedLength_escapePoint (c : Char) (rest : List Char) :
    cookedLength .text .plain (escapePoint c ++ rest) =
      (cookedLength .text .plain rest).map (· + (escapePoint c).length) := by
  have hsmall : c.toNat < 16 ^ 6 := by
    have := c.valid
    simp only [UInt32.isValidChar, Nat.isValidChar] at this
    change c.val.toNat < 16 ^ 6
    omega
  have hlen : (hexDigits c.toNat).length ≤ 6 :=
    (Nat.length_toDigits_le_iff (by omega) (by omega)).mpr hsmall
  have hpos : 0 < (hexDigits c.toNat).length := Nat.length_toDigits_pos
  have hclose : step .text (.point c.toNat (hexDigits c.toNat).length) '}' =
      some (.plain, some (Char.ofNat c.toNat)) := by
    have hvalid : c.toNat.isValidChar := c.valid
    have hsome : ((hexDigits c.toNat).length != 0) = true := by
      rw [bne_iff_ne]
      omega
    simp only [step]
    rw [if_neg (by decide), if_neg (by simp), if_pos (by simp only [hsome, Bool.and_true]; decide)]
    simp [hvalid]
  have hslash : step .text .plain '\\' = some (.escape, none) := by decide
  have hletter : step .text .escape 'u' = some (.pointOpen, none) := by decide
  have hbrace : step .text .pointOpen '{' = some (.point 0 0, none) := by decide
  simp only [escapePoint, List.cons_append, List.nil_append, List.append_assoc]
  rw [cookedLength_step (by decide) hslash, cookedLength_step (by decide) hletter,
    cookedLength_step (by decide) hbrace, cookedLength_digits _ _ hlen,
    cookedLength_step (by simp [State.mayEnd]) hclose]
  simp only [Option.map_map]
  congr 1
  funext k
  simp only [Function.comp_apply, List.length_cons, List.length_append, List.length_nil]
  omega

/-- An escaped character leads from plain text back to plain text. -/
theorem cookedLength_escapeChar (c : Char) (rest : List Char) :
    cookedLength .text .plain (escapeChar c ++ rest) =
      (cookedLength .text .plain rest).map (· + (escapeChar c).length) := by
  unfold escapeChar
  split
  · exact cookedLength_letter '\x00' (by decide)
  · split
    · exact cookedLength_letter '\t' (by decide)
    · split
      · exact cookedLength_letter '\r' (by decide)
      · split
        · exact cookedLength_letter '\n' (by decide)
        · split
          · exact cookedLength_letter '\\' (by decide)
          · split
            · exact cookedLength_letter '"' (by decide)
            · split
              · exact cookedLength_escapePoint c rest
              · rename_i hreturn _ hslash hquote _
                have hstep : step .text .plain c = some (.plain, some c) := by
                  simp [step, plainStep, hslash, hreturn]
                exact cookedLength_step (by simp [hquote]) hstep

/-- An escaped text leads from plain text back to plain text. -/
theorem cookedLength_escapeLiteral (value rest : List Char) :
    cookedLength .text .plain (escapeLiteral value ++ rest) =
      (cookedLength .text .plain rest).map (· + (escapeLiteral value).length) := by
  induction value with
  | nil => simp [escapeLiteral]
  | cons c more ih =>
    have hshown : ∀ shown : List Char,
        (∀ rest, cookedLength .text .plain (shown ++ rest) =
          (cookedLength .text .plain rest).map (· + shown.length)) →
        cookedLength .text .plain ((shown ++ escapeLiteral more) ++ rest) =
          (cookedLength .text .plain rest).map (· + (shown ++ escapeLiteral more).length) := by
      intro shown h
      rw [List.append_assoc, h, ih, Option.map_map, List.length_append]
      congr 1
      funext k
      simp only [Function.comp_apply]
      omega
    have hzero : ∀ rest, cookedLength .text .plain (['\\', 'x', '0', '0'] ++ rest) =
        (cookedLength .text .plain rest).map (· + 4) := by
      intro rest
      have h₁ : step .text .plain '\\' = some (.escape, none) := by decide
      have h₂ : step .text .escape 'x' = some (.hexHigh, none) := by decide
      have h₃ : step .text .hexHigh '0' = some (.hexLow 0, none) := by decide
      have h₄ : step .text (.hexLow 0) '0' = some (.plain, some '\x00') := by decide
      simp only [List.cons_append, List.nil_append]
      rw [cookedLength_step (by decide) h₁, cookedLength_step (by decide) h₂,
        cookedLength_step (by decide) h₃, cookedLength_step (by decide) h₄]
      simp only [Option.map_map]
      rfl
    simp only [escapeLiteral]
    split
    · split
      · exact hshown _ hzero
      · exact hshown _ fun rest => cookedLength_letter '\x00' (by decide)
    · exact hshown _ (cookedLength_escapeChar c)

theorem length_quoteLiteral (value : String) (rest : List Char) :
    length ((quoteLiteral value).toList ++ rest) = some (quoteLiteral value).toList.length := by
  have hread : cookedLength .text .plain (escapeLiteral value.toList ++ '"' :: rest) =
      some (1 + (escapeLiteral value.toList).length) := by
    rw [cookedLength_escapeLiteral]
    simp [cookedLength, State.mayEnd]
  simp only [quoteLiteral, String.toList_ofList, List.cons_append, List.append_assoc,
    List.nil_append, length, hread, Option.map_some, List.length_cons, List.length_append,
    List.length_nil, Option.some.injEq]
  omega

theorem slash_notMem_hexDigits (n : Nat) : '/' ∉ hexDigits n := by
  unfold hexDigits
  induction n using Nat.strongRecOn with
  | ind n ih =>
    rw [Nat.toDigits_eq_if (by omega)]
    split
    · rename_i hlt
      rw [List.mem_singleton]
      exact (digitChar_hex n hlt).2.2.2.symm
    · rw [List.mem_append, List.mem_singleton, not_or]
      exact ⟨ih (n / 16) (by omega), (digitChar_hex (n % 16) (by omega)).2.2.2.symm⟩

/-- Escaping a character writes a slash for a slash and none for another character. -/
theorem count_slash_escapeChar (c : Char) : (escapeChar c).count '/' = [c].count '/' := by
  by_cases hc : c = '/'
  · subst hc
    decide
  · have hself : [c].count '/' = 0 := by simp [hc]
    have hpoint : (escapePoint c).count '/' = 0 := by
      simp [escapePoint, List.count_eq_zero, slash_notMem_hexDigits]
    rw [hself]
    unfold escapeChar
    split
    · decide
    · split
      · decide
      · split
        · decide
        · split
          · decide
          · split
            · decide
            · split
              · decide
              · split
                · exact hpoint
                · exact hself

/-- The literal of a value has the slashes of the value. -/
theorem count_slash_quoteLiteral (value : String) :
    (quoteLiteral value).toList.count '/' = value.toList.count '/' := by
  have hinside : ∀ cs : List Char, (escapeLiteral cs).count '/' = cs.count '/' := by
    intro cs
    induction cs with
    | nil => rfl
    | cons c more ih =>
      have hfirst : (c :: more).count '/' = (escapeChar c).count '/' + more.count '/' := by
        rw [count_slash_escapeChar, ← List.count_append, List.singleton_append]
      simp only [escapeLiteral, List.count_append]
      rw [ih, hfirst]
      congr 1
      split
      · split <;> rfl
      · rfl
  simp [quoteLiteral, hinside]

end Fieldwise.Quoted
