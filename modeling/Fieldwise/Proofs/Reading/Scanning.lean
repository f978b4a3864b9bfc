import Fieldwise.Proofs.Reading.Following
import Fieldwise.Proofs.Rereading

/-!
# Texts one after the other

A text that is read to its end keeps its marks when another text follows it that ends the last token. The
exception is a comment that only the end of its text has closed: it would run on into the second text. Since
tokens are determined by their marks, a text that is put together from parts is read as the tokens of the
parts.
-/

namespace Fieldwise

open Fieldwise.Text

variable {cs rest : List Char} {pos : Pos} {tokens : Tokens} {source : String} {n : Nat} {found : List Lexeme}
  {ms after : List Mark}


namespace Lexer

open Token

/-- Whether the last piece of a text is a comment that only the end of the text has closed. -/
def leftOpen (cs : List Char) : Bool :=
  match cs with
  | [] => false
  | c :: rest =>
    Comment.isOpen (c :: rest) ||
      match piece? .callSite (c :: rest) with
      | none | some (0, _) => false
      | some (n + 1, _) => leftOpen (rest.drop n)
termination_by cs.length
decreasing_by simp only [List.length_drop, List.length_cons]; omega

/-- The marks of a documenting comment do not depend on its place. -/
theorem marksOf_docTokens_eq (pos pos' last last' : Pos) (doc : Comment.Doc) :
    marksOf ((docTokens pos last doc).map .leaf) = marksOf ((docTokens pos' last' doc).map .leaf) := by
  unfold docTokens
  cases doc.inner <;> rfl

theorem piece_of_doc {c : Char} {doc : Comment.Doc} (hblank : isBlank c = false)
    (hplain : Comment.plainLength (c :: cs) = none) (hdoc : Comment.doc? (c :: cs) = some doc) (pos : Pos) :
    piece? pos (c :: cs) = some (doc.length,
      (docTokens pos (pos.advance ((c :: cs).take (doc.length - 1))) doc).map .leaf) := by
  rw [piece?, hblank, hplain, hdoc, if_neg (by simp)]

/-- The first piece of a text has the same length and the same marks in every place, and it keeps them when a
text follows that breaks. -/
theorem piece_append (h : piece? pos cs = some (n, found)) (hopen : Comment.isOpen cs = false) (hbreak : Breaks rest)
    (hinside : rest ≠ [] → marksOf found = [.opening .paren] → cs.drop n ≠ Mark.placeholderInside) (pos' : Pos) :
    n ≤ cs.length ∧
      ∃ found', piece? pos' (cs ++ rest) = some (n, found') ∧ marksOf found' = marksOf found := by
  obtain ⟨c, more, rfl⟩ : ∃ c more, cs = c :: more := by
    cases cs with
    | nil => simp [piece?] at h
    | cons c more => exact ⟨c, more, rfl⟩
  rcases piece_inv h with ⟨hblank, rfl, rfl⟩ | ⟨hblank, hplain, rfl⟩ |
    ⟨doc, hblank, hplain, hdoc, rfl, rfl⟩ | ⟨x, rfl, mark, hshows, hlegible, htake, hlength⟩
  · simp only [List.head?_cons, Option.any_some] at hblank
    exact ⟨by simp, [], by simp [piece?, hblank], rfl⟩
  · simp only [List.head?_cons, Option.any_some] at hblank
    obtain ⟨hle, hagain⟩ := Comment.plainLength_append hplain hopen rest
    rw [List.cons_append] at hagain ⊢
    exact ⟨hle, [], by simp [piece?, hblank, hagain], rfl⟩
  · simp only [List.head?_cons, Option.any_some] at hblank
    obtain ⟨hle, hnone, hagain⟩ := Comment.doc_append hplain hdoc hopen rest
    rw [List.cons_append] at hnone hagain ⊢
    exact ⟨hle, _, piece_of_doc hblank hnone hagain pos', marksOf_docTokens_eq _ _ _ _ doc⟩
  · rw [hshows.marks_eq] at hinside ⊢
    have hsplit : c :: more = mark.text ++ (c :: more).drop n := by
      rw [← htake, List.take_append_drop]
    have hle : n ≤ (c :: more).length := by
      have := congrArg List.length hsplit
      rw [List.length_append, List.length_drop] at this
      omega
    have htaken : Taken pos mark ((c :: more).drop n) :=
      ⟨x, by rw [← hsplit, ← hlength]; exact h, hshows⟩
    have hclear := (taken_iff_clear hlegible pos _).mp htaken
    have hagain : mark.clear ((c :: more).drop n ++ rest) = true := by
      by_cases hrest : rest = []
      · rw [hrest, List.append_nil]
        exact hclear
      · exact Mark.clear_append hbreak (fun hparen => hinside hrest (by rw [hparen])) hclear
    obtain ⟨y, hpiece, hy⟩ := (taken_iff_clear hlegible pos' _).mpr hagain
    refine ⟨hle, [y], ?_, hy.marks_eq⟩
    rw [← List.append_assoc, ← hsplit, ← hlength] at hpiece
    exact hpiece

/-- A text whose reading leaves nothing open leaves nothing open after its first piece. -/
theorem leftOpen_drop (h : leftOpen cs = false) (hpiece : piece? pos cs = some (n + 1, found)) :
    Comment.isOpen cs = false ∧ leftOpen (cs.drop (n + 1)) = false := by
  cases cs with
  | nil => simp [piece?] at hpiece
  | cons c more =>
    rw [leftOpen, Bool.or_eq_false_iff] at h
    obtain ⟨hopen, hmore⟩ := h
    obtain ⟨-, found', hagain, -⟩ := piece_append hpiece hopen .nil (by simp) .callSite
    rw [List.append_nil] at hagain
    rw [hagain] at hmore
    exact ⟨hopen, hmore⟩

/-- The reader gets through a text and finds these marks, wherever the text stands. -/
def Scans (cs : List Char) (ms : List Mark) : Prop :=
  ∀ pos, (lexemes pos cs).2 = none ∧ marksOf (lexemes pos cs).1 = ms

theorem Scans.nil : Scans [] [] := by
  intro pos
  rw [lexemes.eq_def]
  exact ⟨rfl, rfl⟩

theorem Scans.piece (hne : cs ≠ [])
    (h : ∀ pos, ∃ found, piece? pos (cs ++ rest) = some (cs.length, found) ∧ marksOf found = ms)
    (hrest : Scans rest after) : Scans (cs ++ rest) (ms ++ after) := by
  intro pos
  obtain ⟨found, hpiece, hmarks⟩ := h pos
  rw [lexemes_of_piece (List.length_pos_iff.mpr hne) hpiece]
  simp only [marksOf_append, List.drop_left, hmarks]
  exact ⟨(hrest _).1, by rw [(hrest _).2]⟩

theorem Scans.blank {c : Char} (hc : isBlank c = true) (h : Scans cs ms) : Scans (c :: cs) ms :=
  show Scans ([c] ++ cs) ([] ++ ms) from
    .piece (by simp) (fun pos => ⟨[], by simp [piece?, hc], rfl⟩) h

theorem Scans.mark {m : Mark} (hlegible : m.Legible) (hclear : m.clear cs = true) (h : Scans cs ms) :
    Scans (m.text ++ cs) (m :: ms) := by
  change Scans (m.text ++ cs) ([m] ++ ms)
  refine .piece ?_ (fun pos => ?_) h
  · obtain ⟨⟨c, rest, htext, -⟩, -⟩ := hlegible.solid
    simp [htext]
  · obtain ⟨x, hpiece, hx⟩ := (taken_iff_clear hlegible pos cs).mpr hclear
    exact ⟨[x], hpiece, hx.marks_eq⟩

theorem lexemes_placeholderInside (pos : Pos) : marksOf (lexemes pos Mark.placeholderInside).1 = [] := by
  have hpiece : piece? pos Mark.placeholderInside = some (9, []) := rfl
  rw [lexemes_of_piece (by omega) hpiece]
  exact (Scans.nil _).2

/-- A text that is read to its end with nothing left open keeps its marks when a text follows that breaks. The
last mark must not open a group, since the placeholder looks like a group with a comment in it. -/
theorem lexemes_append (hcomplete : (lexemes pos cs).2 = none) (hopen : leftOpen cs = false)
    (hlast : ∀ d, (marksOf (lexemes pos cs).1).getLast? ≠ some (.opening d)) (hbreak : Breaks rest)
    (hrest : Scans rest after) : Scans (cs ++ rest) (marksOf (lexemes pos cs).1 ++ after) := by
  induction pos, cs using lexemes.induct with
  | case1 pos =>
    rw [lexemes.eq_def]
    exact hrest
  | case2 pos c more hpiece =>
    rw [lexemes.eq_def] at hcomplete
    simp [hpiece] at hcomplete
  | case3 pos c more found hpiece =>
    rw [lexemes.eq_def] at hcomplete
    simp [hpiece] at hcomplete
  | case4 pos c more n found hpiece later bad hlater ih =>
    rw [lexemes_of_piece (Nat.succ_pos n) hpiece] at hcomplete hlast ⊢
    simp only [marksOf_append, List.take_succ_cons, List.drop_succ_cons] at hcomplete hlast ⊢
    obtain ⟨hclosed, hopen⟩ := leftOpen_drop hopen hpiece
    have hinside : marksOf found = [.opening .paren] →
        (c :: more).drop (n + 1) ≠ Mark.placeholderInside := by
      intro hfound hdrop
      rw [List.drop_succ_cons] at hdrop
      rw [hfound, hdrop, lexemes_placeholderInside] at hlast
      exact hlast .paren rfl
    have hagain := piece_append hpiece hclosed hbreak fun _ => hinside
    have hle : n ≤ more.length := by simpa using (hagain pos).1
    have htail := ih hcomplete hopen (fun d hd => hlast d (by
      rw [List.getLast?_append, hd]
      rfl))
    have hscans : Scans (c :: more.take n ++ (more.drop n ++ rest))
        (marksOf found ++ (marksOf (lexemes (pos.advance (c :: more.take n)) (more.drop n)).1 ++ after)) := by
      refine .piece (by simp) (fun pos' => ?_) htail
      obtain ⟨-, found', hpiece', hmarks⟩ := hagain pos'
      refine ⟨found', ?_, hmarks⟩
      simpa [List.take_append_drop, ← List.append_assoc, hle] using hpiece'
    simpa [← List.append_assoc, List.take_append_drop] using hscans

/-! ## From marks to tokens -/

mutual

/-- The pieces that nest into a token. -/
def pieces : Token → List Lexeme
  | .group delim body opening closing =>
    .opening delim opening :: (piecesAll body ++ [.closing delim closing])
  | token => [.leaf token]

/-- The pieces that nest into tokens. -/
def piecesAll : List Token → List Lexeme
  | [] => []
  | token :: rest => pieces token ++ piecesAll rest

end

mutual

theorem nest_pieces (token : Token) (bad : Option Pos) (stack : List Frame) (done : List Token)
    (rest : List Lexeme) :
    nest bad stack done (pieces token ++ rest) = nest bad stack (token :: done) rest := by
  cases token with
  | ident name pos => rfl
  | punct c spacing pos => rfl
  | literal shown pos => rfl
  | group delim body opening closing =>
    have hbody := nest_piecesAll body bad (⟨delim, opening, done⟩ :: stack) []
      (.closing delim closing :: rest)
    simp only [pieces, List.cons_append, List.append_assoc, List.nil_append, nest]
    rw [hbody, nest]
    simp

theorem nest_piecesAll (tokens : List Token) (bad : Option Pos) (stack : List Frame)
    (done : List Token) (rest : List Lexeme) :
    nest bad stack done (piecesAll tokens ++ rest) =
      nest bad stack (tokens.reverse ++ done) rest := by
  cases tokens with
  | nil => rfl
  | cons token more =>
    rw [piecesAll, List.append_assoc, nest_pieces token, nest_piecesAll more]
    simp

end

/-- A piece with the group that it may be taken apart. -/
def Lexeme.apart : Lexeme → List Lexeme
  | .leaf token => pieces token
  | x => [x]

/-- Taking groups apart does not change what pieces nest into. -/
theorem nest_apart (bad : Option Pos) (stack : List Frame) (done : List Token)
    (found : List Lexeme) :
    nest bad stack done (found.flatMap Lexeme.apart) = nest bad stack done found := by
  induction found generalizing stack done with
  | nil => rfl
  | cons x rest ih =>
    rw [List.flatMap_cons]
    cases x with
    | leaf token => rw [Lexeme.apart, nest_pieces, ih, nest]
    | opening delim pos =>
      simp only [Lexeme.apart, List.cons_append, List.nil_append, nest]
      exact ih _ _
    | closing delim pos =>
      simp only [Lexeme.apart, List.cons_append, List.nil_append]
      cases stack with
      | nil => rfl
      | cons frame stack =>
        rw [nest, nest]
        split
        · exact ih _ _
        · rfl

theorem Shows.apart_eq {x : Lexeme} {mark : Mark} (h : Shows x mark) : x.apart = [x] := by
  cases h <;> rfl

/-- With groups taken apart, the first piece of a text shows its marks one by one. -/
theorem piece_shows (h : piece? pos cs = some (n, found)) :
    List.Forall₂ Shows (found.flatMap Lexeme.apart) (marksOf found) := by
  rcases piece_inv h with ⟨-, -, rfl⟩ | ⟨-, -, rfl⟩ | ⟨doc, -, -, -, -, rfl⟩ | ⟨x, rfl, mark, hshows, -⟩
  · exact .nil
  · exact .nil
  · unfold docTokens
    cases doc.inner with
    | true => exact .cons (.punct _ _ _) (.cons (.punct _ _ _) (.cons (.opening _ _) (.cons (.ident _ _)
        (.cons (.punct _ _ _) (.cons (.literal _ _) (.cons (.closing _ _) .nil))))))
    | false => exact .cons (.punct _ _ _) (.cons (.opening _ _) (.cons (.ident _ _)
        (.cons (.punct _ _ _) (.cons (.literal _ _) (.cons (.closing _ _) .nil)))))
  · rw [hshows.marks_eq, List.flatMap_singleton, hshows.apart_eq]
    exact .cons hshows .nil

/-- With groups taken apart, the pieces of a text show its marks one by one. -/
theorem lexemes_show (pos : Pos) (cs : List Char) :
    List.Forall₂ Shows ((lexemes pos cs).1.flatMap Lexeme.apart) (marksOf (lexemes pos cs).1) := by
  induction pos, cs using lexemes.induct with
  | case1 pos =>
    rw [lexemes.eq_def]
    exact .nil
  | case2 pos c rest hpiece =>
    rw [lexemes.eq_def]
    simp [hpiece]
  | case3 pos c rest found hpiece =>
    rw [lexemes.eq_def]
    simp [hpiece]
  | case4 pos c rest n found hpiece more bad hmore ih =>
    rw [lexemes_of_piece (Nat.succ_pos n) hpiece]
    simp only [List.flatMap_append, marksOf_append]
    exact List.rel_append (piece_shows hpiece) ih

/-- A text with the marks of some tokens is read as these tokens. -/
theorem Scans.tokensFrom (h : Scans cs (marksAll tokens)) (pos : Pos) :
    ∃ again, Lexer.tokensFrom pos cs = .ok again ∧ plainAll again = plainAll (openedAll tokens) := by
  obtain ⟨hcomplete, hmarks⟩ := h pos
  have hshows := lexemes_show pos cs
  rw [hmarks] at hshows
  obtain ⟨again, hnest, hplain⟩ := nest_tokens tokens hshows none [] [] []
  refine ⟨again, ?_, hplain⟩
  change nest (lexemes pos cs).2 [] [] (lexemes pos cs).1 = _
  rw [hcomplete, ← nest_apart]
  simpa [nest] using hnest

/-- A text that is read to its end begins with no byte order mark. -/
theorem lexemes_head_ne (h : (lexemes pos cs).2 = none) : cs.head? ≠ some '\ufeff' := by
  intro hhead
  obtain ⟨rest, rfl⟩ := List.head?_eq_some_iff.mp hhead
  have hstart : isIdentStart '\ufeff' ≠ true := fun h => special_not_ident (.inr h) (by decide)
  have hword : Number.wordLength ('\ufeff' :: rest) = 0 := by
    rw [Number.wordLength, if_neg hstart]
  have hname : identLength ('\ufeff' :: rest) = none := by
    rw [identLength_of_not_raw fun tail htail => absurd (List.cons.inj htail).1 (by decide),
      if_pos hword]
  have hnone : piece? pos ('\ufeff' :: rest) = none := by
    rw [piece_eq_leaf (by decide) (by decide) (by decide), leaf?,
      literalLength_of_head (by decide) (by decide), punct?, startsPunct_of_notMem (by decide),
      placeholder_of_ne (by decide), hname]
    simp
  rw [lexemes.eq_def] at h
  simp [hnone] at h

/-- A text without a byte order mark at its front is read from its first character on. -/
theorem read_of_head_ne (h : source.toList.head? ≠ some '\ufeff') :
    Tokens.read source = tokensFrom .callSite source.toList := by
  unfold Tokens.read
  split
  · rename_i rest hsource
    exact absurd (by rw [hsource]; rfl) h
  · rfl

/-- A source with the marks of some tokens is read as these tokens. -/
theorem Scans.read (h : Scans source.toList (marksAll tokens)) :
    ∃ again, Tokens.read source = .ok again ∧ plainAll again = plainAll (openedAll tokens) := by
  rw [read_of_head_ne (lexemes_head_ne (h .callSite).1)]
  exact h.tokensFrom .callSite

/-- Tokens that are read have no groups without delimiters. -/
theorem tokensFrom_opened (h : tokensFrom pos cs = .ok tokens) : plainAll (openedAll tokens) = plainAll tokens := by
  obtain ⟨hcomplete, hmarks⟩ := tokensFrom_marks h
  have hshows := lexemes_show pos cs
  rw [← hmarks] at hshows
  obtain ⟨again, hnest, hplain⟩ := nest_tokens tokens hshows none [] [] []
  change nest (lexemes pos cs).2 [] [] (lexemes pos cs).1 = _ at h
  rw [List.append_nil, nest_apart, ← hcomplete, h] at hnest
  have hsame : tokens = again := by simpa [nest, hcomplete] using hnest
  rw [← hplain, hsame]

end Lexer

namespace Token

mutual

theorem marks_getLast (token : Token) (delim : Delim) :
    token.marks.getLast? ≠ some (.opening delim) := by
  cases token with
  | ident name pos => simp [marks]
  | punct c spacing pos => simp [marks]
  | literal shown pos => simp [marks]
  | group d body opening closing =>
    have hbody := marksAll_getLast body delim
    cases d <;> simp [marks, hbody, List.getLast?_cons]

theorem marksAll_getLast (tokens : List Token) (delim : Delim) :
    (marksAll tokens).getLast? ≠ some (.opening delim) := by
  cases tokens with
  | nil => simp [marksAll]
  | cons token rest =>
    have hfirst := marks_getLast token delim
    have hrest := marksAll_getLast rest delim
    rw [marksAll, List.getLast?_append]
    cases hlast : (marksAll rest).getLast? with
    | none => simpa using hfirst
    | some m =>
      rw [hlast] at hrest
      simpa using hrest

end

end Token

open Token Lexer

/-- Tokens that are read have no groups without delimiters. -/
theorem Tokens.read_opened (h : Tokens.read source = .ok tokens) : plainAll (openedAll tokens) = plainAll tokens := by
  unfold Tokens.read at h
  split at h <;> exact tokensFrom_opened h

/-- Whether the reader gets through a text from its first character on, and no comment is open at its
end. -/
def Lexer.closed (cs : List Char) : Bool := (lexemes .callSite cs).2.isNone && !leftOpen cs

/-- A closed text keeps its tokens when a text follows that breaks. -/
theorem Tokens.read_append (h : Tokens.read source = .ok tokens) (hclosed : closed source.toList = true)
    (hbreak : Breaks rest) (hrest : Scans rest after) : Scans (source.toList ++ rest) (marksAll tokens ++ after) := by
  rw [closed, Bool.and_eq_true, Bool.not_eq_true', Option.isNone_iff_eq_none] at hclosed
  obtain ⟨hcomplete, hopen⟩ := hclosed
  rw [read_of_head_ne (lexemes_head_ne hcomplete)] at h
  have hmarks := (tokensFrom_marks h).2
  have hlast := marksAll_getLast tokens
  rw [hmarks] at hlast ⊢
  exact lexemes_append hcomplete hopen hlast hbreak hrest

end Fieldwise
