import Fieldwise.Proofs.Reading.Nesting
import Fieldwise.Proofs.Writing

/-!
# Reading what was written

A written text has all marks of its tokens in their order, so it reads as the same tokens exactly when each
mark stands clear of the text after it. One direction follows the text mark by mark. The other one has to
exclude comments, which the reader could pass over without a trace; but a comment takes slashes away, and all
slashes of a woven text belong to its marks.
-/

namespace Fieldwise

open Token Lexer

variable {cs : List Char} {ms : List Mark} {pos : Pos}

namespace Mark

/-- Whether all marks of a text stand clear, each of what follows it there. -/
def allClear : List Mark → List Char → Bool
  | [], _ => true
  | m :: rest, cs =>
    let after := (cs.dropWhile (· == ' ')).drop m.text.length
    m.clear after && allClear rest after

theorem allClear_space (ms : List Mark) (cs : List Char) :
    allClear ms (' ' :: cs) = allClear ms cs := by
  cases ms with
  | nil => rfl
  | cons m rest => simp [allClear]

/-- The first mark stands clear of the rest of the text, and so do the others. -/
theorem allClear_mark {m : Mark} (hsolid : m.Solid) (ms : List Mark) (cs : List Char) :
    allClear (m :: ms) (m.text ++ cs) = (m.clear cs && allClear ms cs) := by
  obtain ⟨⟨c, rest, htext, hblank, -⟩, -⟩ := hsolid
  have hne : c ≠ ' ' := by
    rintro rfl
    exact absurd hblank (by decide)
  have hstart : (m.text ++ cs).dropWhile (· == ' ') = m.text ++ cs := by
    rw [htext, List.cons_append, List.dropWhile_cons_of_neg (by simpa using hne)]
  rw [allClear, hstart, List.drop_left]

end Mark

/-- The slashes of a woven text are those of its marks. -/
theorem Woven.count_slash (h : Woven ms cs) : cs.count '/' = slashes ms := by
  induction h with
  | nil => rfl
  | space h ih => simpa using ih
  | mark m h ih => simp [slashes, List.count_append] at ih ⊢; exact ih

namespace Lexer

/-- A text of marks that stand clear is read mark by mark. -/
theorem lexemes_of_clear (h : Woven ms cs) (hlegible : ∀ m ∈ ms, m.Legible) (hclear : Mark.allClear ms cs = true)
    (pos : Pos) : ∃ found, lexemes pos cs = (found, none) ∧ List.Forall₂ Shows found ms := by
  induction h generalizing pos with
  | nil =>
    rw [lexemes.eq_def]
    exact ⟨[], rfl, .nil⟩
  | @space ms cs h ih =>
    rw [Mark.allClear_space] at hclear
    obtain ⟨found, hfound, hshows⟩ := ih hlegible hclear (pos.advance [' '])
    have hpiece : piece? pos (' ' :: cs) = some (1, []) := rfl
    refine ⟨found, ?_, hshows⟩
    rw [lexemes_of_piece (by omega) hpiece, List.take_succ_cons, List.take_zero,
      List.drop_succ_cons, List.drop_zero, hfound]
    rfl
  | @mark m ms cs h ih =>
    obtain ⟨hm, hms⟩ := List.forall_mem_cons.mp hlegible
    rw [Mark.allClear_mark hm.solid, Bool.and_eq_true] at hclear
    obtain ⟨x, hpiece, hx⟩ := (taken_iff_clear hm pos cs).mpr hclear.1
    obtain ⟨found, hfound, hshows⟩ := ih hms hclear.2 (pos.advance m.text)
    have hpos : 0 < m.text.length := by
      obtain ⟨⟨c, rest, htext, -⟩, -⟩ := hm.solid
      simp [htext]
    rw [lexemes_of_piece hpos hpiece]
    exact ⟨x :: found, by simp [hfound], .cons hx hshows⟩

/-- A text that is read to its end begins with a piece. -/
theorem piece_of_complete (hne : cs ≠ []) (h : (lexemes pos cs).2 = none) :
    ∃ n found, 0 < n ∧ piece? pos cs = some (n, found) := by
  cases cs with
  | nil => exact absurd rfl hne
  | cons c rest =>
    rw [lexemes.eq_def] at h
    dsimp only at h
    split at h
    · contradiction
    · contradiction
    · rename_i n found hpiece
      exact ⟨n + 1, found, by omega, hpiece⟩

/-- If a woven text is read as its marks, they all stand clear. -/
theorem clear_of_lexemes (h : Woven ms cs) (hlegible : ∀ m ∈ ms, m.Legible) (hcomplete : (lexemes pos cs).2 = none)
    (hmarks : marksOf (lexemes pos cs).1 = ms) : Mark.allClear ms cs = true := by
  induction h generalizing pos with
  | nil => rfl
  | @space ms cs h ih =>
    have hpiece : piece? pos (' ' :: cs) = some (1, []) := rfl
    rw [lexemes_of_piece (by omega) hpiece] at hcomplete hmarks
    rw [Mark.allClear_space]
    exact ih hlegible hcomplete hmarks
  | @mark m ms cs h ih =>
    obtain ⟨hm, hms⟩ := List.forall_mem_cons.mp hlegible
    obtain ⟨⟨c, rest, htext, hblank, -⟩, -⟩ := hm.solid
    obtain ⟨n, found, hpos, hpiece⟩ := piece_of_complete (by simp [htext]) hcomplete
    rw [lexemes_of_piece hpos hpiece] at hcomplete hmarks
    simp only [marksOf_append] at hmarks
    rcases piece_cases hpiece with ⟨hhead, -, -⟩ | ⟨-, hless⟩ |
      ⟨x, rfl, mark, hshows, -, htake, hlength⟩
    · simp [htext, hblank] at hhead
    · -- A comment: the marks that are read have fewer slashes than the text.
      have hrest := (lexemes_legible (pos.advance ((m.text ++ cs).take n))
        ((m.text ++ cs).drop n)).2
      have htotal := (h.mark m).count_slash
      have hsplit : ((m.text ++ cs).take n).count '/' + ((m.text ++ cs).drop n).count '/' =
          (m.text ++ cs).count '/' := by
        rw [← List.count_append, List.take_append_drop]
      rw [← hmarks, slashes_append] at htotal
      omega
    · rw [hshows.marks_eq] at hmarks
      obtain ⟨rfl, hmore⟩ := List.cons.inj hmarks
      rw [hlength] at hpiece hcomplete hmore
      rw [List.drop_left] at hcomplete hmore
      have hclear := (taken_iff_clear hm pos cs).mp ⟨x, hpiece, hshows⟩
      rw [Mark.allClear_mark hm.solid, hclear, Bool.true_and]
      exact ih hms hcomplete hmore

/-- Tokens that are read have the marks of the pieces, and the text is read to its end. -/
theorem tokensFrom_marks {tokens : Tokens} (h : tokensFrom pos cs = .ok tokens) :
    (lexemes pos cs).2 = none ∧ marksAll tokens = marksOf (lexemes pos cs).1 := by
  have hmarks := nest_marks (by simp) (lexemes_legible pos cs).1 h
  simpa [marksBefore, marksAll] using hmarks

end Lexer

theorem Tokens.read_legible {source : String} {tokens : Tokens}
    (h : Tokens.read source = .ok tokens) : ∀ m ∈ marksAll tokens, m.Legible := by
  unfold Tokens.read at h
  split at h
  · rw [(tokensFrom_marks h).2]
    exact (lexemes_legible _ _).1
  · rw [(tokensFrom_marks h).2]
    exact (lexemes_legible _ _).1

/-- A woven text begins with no byte order mark, so it is read from its first character on. -/
theorem Tokens.read_woven {source : String} (h : Woven ms source.toList) (hlegible : ∀ m ∈ ms, m.Legible) :
    Tokens.read source = tokensFrom .callSite source.toList := by
  unfold Tokens.read
  split
  · rename_i rest hsource
    rw [hsource] at h
    generalize hcs : '\ufeff' :: rest = cs at h
    cases h with
    | nil => contradiction
    | space h => simp at hcs
    | mark m h =>
      obtain ⟨⟨c, more, htext, -, hmark⟩, -⟩ := (hlegible m (by simp)).solid
      rw [htext, List.cons_append] at hcs
      cases hcs
      exact absurd rfl hmark
  · rfl

/-- Tokens that come from a text, some of them perhaps in groups without delimiters, are written with all
their marks in order and with nothing but spaces between them. The written text is read as the same tokens, up to
places, spacing and groups without delimiters, exactly when each mark stands clear of what follows it. -/
theorem Tokens.read_text_iff_allClear {source : String} {tokens : Tokens}
    (h : Tokens.read source = .ok (openedAll tokens)) :
    Woven (marksAll tokens) tokens.text.toList ∧
      ((∃ again, Tokens.read tokens.text = .ok again ∧
          plainAll again = plainAll (openedAll tokens)) ↔
        Mark.allClear (marksAll tokens) tokens.text.toList = true) := by
  have hlegible := Tokens.read_legible h
  rw [marksAll_openedAll] at hlegible
  have hwoven := Tokens.text_woven fun m hm => (hlegible m hm).solid
  refine ⟨hwoven, ?_⟩
  rw [Tokens.read_woven hwoven hlegible]
  constructor
  · rintro ⟨again, hread, hplain⟩
    obtain ⟨hcomplete, hmarks⟩ := tokensFrom_marks hread
    refine clear_of_lexemes hwoven hlegible hcomplete ?_
    rw [← hmarks, ← marksAll_plainAll, hplain, marksAll_plainAll, marksAll_openedAll]
  · intro hclear
    obtain ⟨found, hfound, hshows⟩ := lexemes_of_clear hwoven hlegible hclear .callSite
    obtain ⟨again, hnest, hplain⟩ := nest_tokens tokens hshows none [] [] []
    refine ⟨again, ?_, hplain⟩
    rw [tokensFrom, hfound]
    simpa [nest] using hnest

/-- A cast of a character, the character in a group without delimiters. -/
def characterCast : Tokens :=
  [.group .invisible [.literal "'a'" ⟨1, 0⟩] ⟨1, 0⟩ ⟨1, 0⟩, .ident "as" ⟨1, 4⟩,
    .ident "u8" ⟨1, 7⟩]

/-- The cast does not read as it was written: the writer puts no space after an apostrophe, and the word
after it becomes a suffix of the character. -/
theorem characterCast_not_reread :
    Tokens.read "'a' as u8" = .ok (openedAll characterCast) ∧
      characterCast.text = "'a'as u8" ∧
      Woven (marksAll characterCast) characterCast.text.toList ∧
      ¬∃ again, Tokens.read characterCast.text = .ok again ∧
        plainAll again = plainAll (openedAll characterCast) := by
  have hread : Tokens.read "'a' as u8" = .ok (openedAll characterCast) := by
    with_unfolding_all rfl
  have hclear : Mark.allClear (marksAll characterCast) characterCast.text.toList ≠ true := by
    decide +kernel
  obtain ⟨hwoven, hiff⟩ := Tokens.read_text_iff_allClear hread
  exact ⟨hread, by decide +kernel, hwoven, fun hagain => hclear (hiff.mp hagain)⟩

end Fieldwise
