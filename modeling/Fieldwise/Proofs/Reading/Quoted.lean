import Fieldwise.Token.Quoted

/-!
# Quoted literals end where they end

A reader is steady if it looks no further than the characters it takes: whatever follows them, it takes the
same ones. All readers of quoted literals are steady, because each of them stops at its own closing mark.
-/

namespace Fieldwise.Quoted

open Fieldwise.Text

variable {cs : List Char} {n hashes : Nat} {reader : List Char → Option Nat}

/-- The reader takes characters that are there, at least one, and takes the same ones whatever follows
them. -/
def Steady (reader : List Char → Option Nat) : Prop :=
  ∀ cs n, reader cs = some n →
    0 < n ∧ n ≤ cs.length ∧ ∀ rest, reader (cs.take n ++ rest) = some n

theorem cookedLength_steady (flavour : Flavour) (state : State) :
    Steady (cookedLength flavour state) := by
  intro cs
  induction cs generalizing state with
  | nil => simp [cookedLength]
  | cons c more ih =>
    intro n h
    rw [cookedLength] at h
    split at h
    · rename_i hclose
      cases h
      refine ⟨by omega, by simp, fun rest => ?_⟩
      simp only [List.take_succ_cons, List.take_zero, List.cons_append, List.nil_append]
      rw [cookedLength, if_pos hclose]
    · rename_i hclose
      split at h
      · rename_i next value hstep
        obtain ⟨m, hm, rfl⟩ := Option.map_eq_some_iff.mp h
        obtain ⟨-, hle, hagain⟩ := ih next m hm
        refine ⟨by omega, by simpa using hle, fun rest => ?_⟩
        rw [List.take_succ_cons, List.cons_append, cookedLength, if_neg hclose]
        simp [hstep, hagain]
      · simp at h

theorem escapeLength_steady (flavour : Flavour) (state : State) :
    Steady (escapeLength flavour state) := by
  intro cs
  induction cs generalizing state with
  | nil => simp [escapeLength]
  | cons c more ih =>
    intro n h
    rw [escapeLength] at h
    split at h
    · rename_i value hstep
      cases h
      refine ⟨by omega, by simp, fun rest => ?_⟩
      simp only [List.take_succ_cons, List.take_zero, List.cons_append, List.nil_append]
      rw [escapeLength, hstep]
    · simp at h
    · simp at h
    · simp at h
    · rename_i next value hplain hgap hcarriage hstep
      obtain ⟨m, hm, rfl⟩ := Option.map_eq_some_iff.mp h
      obtain ⟨-, hle, hagain⟩ := ih next m hm
      refine ⟨by omega, by simpa using hle, fun rest => ?_⟩
      rw [List.take_succ_cons, List.cons_append, escapeLength, hstep]
      simp [hagain]

/-- A single character ends at its closing apostrophe. -/
theorem charLength_steady (flavour : Flavour) : Steady (charLength flavour) := by
  intro cs n h
  cases cs with
  | nil => simp [charLength] at h
  | cons c more =>
    -- `m` is how many characters stand between the first one and the apostrophe.
    have hinner : ∀ m, (more.drop m).head? = some '\'' →
        m + 2 ≤ (c :: more).length ∧
          ∀ rest, ((more.take (m + 1) ++ rest).drop m).head? = some '\'' := by
      intro m hm
      rw [List.head?_drop] at hm
      have hlt : m < more.length := (List.getElem?_eq_some_iff.mp hm).1
      refine ⟨by simp only [List.length_cons]; omega, fun rest => ?_⟩
      rw [List.head?_drop, List.getElem?_append_left (by rw [List.length_take]; omega),
        List.getElem?_take, if_pos (by omega), hm]
    simp only [charLength] at h
    split at h
    · simp at h
    · rename_i m hm
      split at h
      · rename_i hquote
        cases h
        obtain ⟨hle, hagain⟩ := hinner m hquote
        refine ⟨by omega, hle, fun rest => ?_⟩
        have hhead := hagain rest
        rw [List.take_succ_cons, List.cons_append]
        simp only [charLength]
        split at hm
        · rename_i hslash
          obtain ⟨-, hlm, hescape⟩ := escapeLength_steady flavour .escape more m hm
          have hsplit : more.take (m + 1) ++ rest =
              more.take m ++ ((more.drop m).take 1 ++ rest) := by
            rw [← List.append_assoc, ← List.take_add]
          rw [if_pos hslash, hsplit, hescape, ← hsplit]
          simp [hhead]
        · rename_i hslash
          rw [if_neg hslash]
          split at hm
          · simp at hm
          · rename_i hascii
            cases hm
            rw [if_neg hascii]
            simp only [hhead, if_true]
      · simp at h

/-- Hash signs follow independently of what comes after so many characters. -/
theorem hashesFollow_take (hn : hashes ≤ n) (hlen : n ≤ cs.length) (rest : List Char) :
    hashesFollow hashes (cs.take n ++ rest) = hashesFollow hashes cs := by
  unfold hashesFollow
  rw [List.take_append_of_le_length (by rw [List.length_take]; omega), List.take_take,
    Nat.min_eq_left hn]

theorem hashes_le_of_hashesFollow (h : hashesFollow hashes cs = true) : hashes ≤ cs.length := by
  simp only [hashesFollow, Bool.and_eq_true, beq_iff_eq, List.length_take] at h
  omega

/-- What is left of a text without escapes has at least its closing mark. -/
theorem hashes_lt_rawLength {flavour : Flavour} (h : rawLength flavour hashes cs = some n) : hashes < n := by
  induction cs generalizing n with
  | nil => simp [rawLength] at h
  | cons c more ih =>
    rw [rawLength] at h
    split at h
    · cases h
      omega
    · split at h
      · simp at h
      · split at h
        · obtain ⟨m, hm, rfl⟩ := Option.map_eq_some_iff.mp h
          have := ih hm
          omega
        · simp at h

/-- A text without escapes ends at its closing quote and hash signs. A quote before that is told from the
closing one within the text. -/
theorem rawLength_steady (flavour : Flavour) (hashes : Nat) :
    Steady (rawLength flavour hashes) := by
  intro cs
  induction cs with
  | nil => simp [rawLength]
  | cons c more ih =>
    intro n h
    rw [rawLength] at h
    split at h
    · rename_i hclose
      cases h
      rw [Bool.and_eq_true, decide_eq_true_eq] at hclose
      obtain ⟨hquote, hfollow⟩ := hclose
      have hlen := hashes_le_of_hashesFollow hfollow
      refine ⟨by omega, by simpa using hlen, fun rest => ?_⟩
      rw [List.take_succ_cons, List.cons_append, rawLength,
        hashesFollow_take (Nat.le_refl _) hlen, hfollow]
      simp [hquote]
    · rename_i hclose
      split at h
      · simp at h
      · rename_i hreturn
        split at h
        · rename_i hadmit
          obtain ⟨m, hm, rfl⟩ := Option.map_eq_some_iff.mp h
          obtain ⟨hpos, hle, hagain⟩ := ih m hm
          have hhashes := hashes_lt_rawLength hm
          refine ⟨by omega, by simpa using hle, fun rest => ?_⟩
          have hhead : (more.take m ++ rest).head? = more.head? := by
            cases more with
            | nil => simp at hle; omega
            | cons d more => cases m with
              | zero => omega
              | succ m => simp
          rw [List.take_succ_cons, List.cons_append, rawLength,
            hashesFollow_take (by omega) hle, hhead, if_neg hclose, if_neg hreturn, if_pos hadmit,
            hagain]
          rfl
        · simp at h

/-- From its hash signs on, a text without escapes ends at its closing mark. -/
theorem rawFollow_steady (flavour : Flavour) : Steady (rawFollow flavour) := by
  intro cs n h
  have hsplit : cs.takeWhile (· == '#') ++ cs.dropWhile (· == '#') = cs :=
    List.takeWhile_append_dropWhile
  have hall : ∀ c ∈ cs.takeWhile (· == '#'), (c == '#') = true :=
    fun c hc => List.all_eq_true.mp List.all_takeWhile c hc
  unfold rawFollow at h
  generalize cs.takeWhile (· == '#') = hashes at h hsplit hall
  generalize cs.dropWhile (· == '#') = more at hsplit
  subst hsplit
  simp only [List.drop_left] at h
  split at h
  · rename_i text
    split at h
    · rename_i hbound
      obtain ⟨m, hm, rfl⟩ := Option.map_eq_some_iff.mp h
      obtain ⟨-, hle, hagain⟩ := rawLength_steady flavour _ text m hm
      refine ⟨by omega, by simp only [List.length_append, List.length_cons]; omega,
        fun rest => ?_⟩
      have htake : (hashes ++ '"' :: text).take (m + (hashes.length + 1)) ++ rest =
          hashes ++ '"' :: (text.take m ++ rest) := by
        rw [show m + (hashes.length + 1) = hashes.length + (m + 1) by omega, List.take_length_add_append,
          List.take_succ_cons, List.append_assoc, List.cons_append]
      rw [htake]
      unfold rawFollow
      rw [List.takeWhile_append_of_pos hall]
      simp [hbound, hagain]
    · simp at h
  · simp at h

/-- A reader that expects a mark first is as steady as the reader after the mark. -/
theorem Steady.marked {whole : List Char → Option Nat} (h : Steady reader) (mark : List Char)
    (hwhole : ∀ cs, whole (mark ++ cs) = (reader cs).map (· + mark.length)) (hn : whole (mark ++ cs) = some n) :
    0 < n ∧ n ≤ (mark ++ cs).length ∧
      ∀ rest, whole ((mark ++ cs).take n ++ rest) = some n := by
  rw [hwhole] at hn
  obtain ⟨m, hm, rfl⟩ := Option.map_eq_some_iff.mp hn
  obtain ⟨hpos, hle, hagain⟩ := h cs m hm
  refine ⟨by omega, by rw [List.length_append]; omega, fun rest => ?_⟩
  rw [Nat.add_comm m, List.take_length_add_append, List.append_assoc, hwhole, hagain,
    Option.map_some, Nat.add_comm m]

theorem length_steady : Steady length := by
  intro cs n h
  unfold length at h
  split at h
  · exact (cookedLength_steady .text .plain).marked ['"'] (fun _ => rfl) h
  · exact (rawFollow_steady .text).marked ['r'] (fun _ => rfl) h
  · exact (cookedLength_steady .bytes .plain).marked ['b', '"'] (fun _ => rfl) h
  · exact (rawFollow_steady .bytes).marked ['b', 'r'] (fun _ => rfl) h
  · exact (charLength_steady .bytes).marked ['b', '\''] (fun _ => rfl) h
  · exact (cookedLength_steady .terminated .plain).marked ['c', '"'] (fun _ => rfl) h
  · exact (rawFollow_steady .terminated).marked ['c', 'r'] (fun _ => rfl) h
  · exact (charLength_steady .text).marked ['\''] (fun _ => rfl) h
  · simp at h

/-! ## Closing marks -/

/-- The last character that the reader takes is one that closes a quoted literal. -/
def Closes (reader : List Char → Option Nat) : Prop :=
  ∀ cs n, reader cs = some n → ∃ c ∈ ['"', '\'', '#'], cs[n - 1]? = some c

theorem Closes.cons {c : Char} (hsteady : Steady reader) (hcloses : ∃ d ∈ ['"', '\'', '#'], cs[n - 1]? = some d)
    (h : reader cs = some n) : ∃ d ∈ ['"', '\'', '#'], (c :: cs)[n + 1 - 1]? = some d := by
  obtain ⟨hpos, -, -⟩ := hsteady cs n h
  obtain ⟨d, hmem, hd⟩ := hcloses
  refine ⟨d, hmem, ?_⟩
  rw [show n + 1 - 1 = n - 1 + 1 by omega, List.getElem?_cons_succ, hd]

theorem cookedLength_closes (flavour : Flavour) (state : State) :
    Closes (cookedLength flavour state) := by
  intro cs
  induction cs generalizing state with
  | nil => simp [cookedLength]
  | cons c more ih =>
    intro n h
    rw [cookedLength] at h
    split at h
    · rename_i hclose
      cases h
      simp_all
    · split at h
      · rename_i next value hstep
        obtain ⟨m, hm, rfl⟩ := Option.map_eq_some_iff.mp h
        exact Closes.cons (cookedLength_steady flavour next) (ih next m hm) hm
      · simp at h

theorem charLength_closes (flavour : Flavour) : Closes (charLength flavour) := by
  intro cs n h
  cases cs with
  | nil => simp [charLength] at h
  | cons c more =>
    simp only [charLength] at h
    split at h
    · simp at h
    · rename_i m hm
      split at h
      · rename_i hquote
        cases h
        rw [List.head?_drop] at hquote
        exact ⟨'\'', by simp, by simpa using hquote⟩
      · simp at h

/-- A text without escapes closes with a quote or with a hash sign after it. -/
theorem rawLength_closes (flavour : Flavour) (hashes : Nat) :
    Closes (rawLength flavour hashes) := by
  intro cs
  induction cs with
  | nil => simp [rawLength]
  | cons c more ih =>
    intro n h
    rw [rawLength] at h
    split at h
    · rename_i hclose
      cases h
      rw [Bool.and_eq_true, decide_eq_true_eq] at hclose
      obtain ⟨rfl, hfollow⟩ := hclose
      have hlen := hashes_le_of_hashesFollow hfollow
      cases hashes with
      | zero => exact ⟨'"', by simp, rfl⟩
      | succ k =>
        refine ⟨'#', by simp, ?_⟩
        rw [hashesFollow, Bool.and_eq_true, List.all_eq_true] at hfollow
        have hlast := hfollow.2 (more.get ⟨k, hlen⟩)
          (List.mem_take_iff_getElem.mpr ⟨k, by omega, rfl⟩)
        rw [Nat.add_sub_cancel, List.getElem?_cons_succ]
        rw [beq_iff_eq] at hlast
        rw [← hlast]
        exact List.getElem?_eq_getElem hlen
    · split at h
      · simp at h
      · split at h
        · obtain ⟨m, hm, rfl⟩ := Option.map_eq_some_iff.mp h
          exact Closes.cons (rawLength_steady flavour hashes) (ih m hm) hm
        · simp at h

/-- From its hash signs on, a text without escapes closes the same way. -/
theorem rawFollow_closes (flavour : Flavour) : Closes (rawFollow flavour) := by
  intro cs n h
  unfold rawFollow at h
  generalize (cs.takeWhile (· == '#')).length = hashes at h
  dsimp only at h
  split at h
  · rename_i rest hdrop
    split at h
    · obtain ⟨m, hm, rfl⟩ := Option.map_eq_some_iff.mp h
      obtain ⟨hpos, -, -⟩ := rawLength_steady flavour hashes rest m hm
      obtain ⟨c, hmem, hc⟩ := rawLength_closes flavour hashes rest m hm
      refine ⟨c, hmem, ?_⟩
      have hindex : m + (hashes + 1) - 1 = hashes + (m - 1 + 1) := by omega
      rw [hindex, ← List.getElem?_drop, hdrop, List.getElem?_cons_succ, hc]
    · simp at h
  · simp at h

/-- A reader that expects a mark first closes like the reader after the mark. -/
theorem Closes.marked (hcloses : Closes reader) (hsteady : Steady reader) (mark : List Char)
    (hn : (reader cs).map (· + mark.length) = some n) : ∃ c ∈ ['"', '\'', '#'], (mark ++ cs)[n - 1]? = some c := by
  obtain ⟨m, hm, rfl⟩ := Option.map_eq_some_iff.mp hn
  obtain ⟨hpos, -, -⟩ := hsteady cs m hm
  obtain ⟨c, hmem, hc⟩ := hcloses cs m hm
  refine ⟨c, hmem, ?_⟩
  rw [List.getElem?_append_right (by omega), show m + mark.length - 1 - mark.length = m - 1 by omega,
    hc]

/-- A quoted literal closes with a quote, an apostrophe or a hash sign. -/
theorem length_closes : Closes length := by
  intro cs n h
  unfold length at h
  split at h
  · exact (cookedLength_closes .text .plain).marked (cookedLength_steady _ _) ['"'] h
  · exact (rawFollow_closes .text).marked (rawFollow_steady _) ['r'] h
  · exact (cookedLength_closes .bytes .plain).marked (cookedLength_steady _ _) ['b', '"'] h
  · exact (rawFollow_closes .bytes).marked (rawFollow_steady _) ['b', 'r'] h
  · exact (charLength_closes .bytes).marked (charLength_steady _) ['b', '\''] h
  · exact (cookedLength_closes .terminated .plain).marked (cookedLength_steady _ _) ['c', '"'] h
  · exact (rawFollow_closes .terminated).marked (rawFollow_steady _) ['c', 'r'] h
  · exact (charLength_closes .text).marked (charLength_steady _) ['\''] h
  · simp at h

/-- A quoted literal begins with a quote, an apostrophe, or the letter of its kind. -/
theorem length_head (h : length cs = some n) : ∃ c ∈ ['"', '\'', 'r', 'b', 'c'], cs.head? = some c := by
  unfold length at h
  split at h <;> simp_all

end Fieldwise.Quoted
