import Fieldwise.Proofs.Sequels
import Fieldwise.Proofs.Splicing

/-!
# The tokens of texts that are put together

A closed text keeps its tokens wherever a text follows that breaks: they stand at other places, and the last one, if
it is a character, may become joined to what follows. All other tokens keep their spacing. `Spells` states what a
text is read as without places; texts before others are gone through piece by piece.
-/

namespace Fieldwise

open Fieldwise.Token Fieldwise.Text

/-- The change that forgets places and keeps the spacing. -/
def Shift.flat : Shift := ⟨⟨fun _ => .callSite, id⟩, rfl, fun _ => rfl⟩

namespace Lexer

/-! ## Pieces without places -/

/-- A piece without its place. -/
def Lexeme.flat : Lexeme → Lexeme
  | opening delim _ => opening delim .callSite
  | closing delim _ => closing delim .callSite
  | leaf token => leaf (retouch Shift.flat.toRetouch token)

/-- Pieces with groups taken apart and without places. -/
def flatten (found : List Lexeme) : List Lexeme := (found.flatMap Lexeme.apart).map Lexeme.flat

theorem flatten_append (before after : List Lexeme) : flatten (before ++ after) = flatten before ++ flatten after := by
  simp [flatten]

/-- The last piece joined to what follows, if it is a character. -/
def linkLast (joins : Bool) : List Lexeme → List Lexeme
  | [] => []
  | [.leaf (.punct c spacing pos)] => [.leaf (.punct c (if joins then .joint else spacing) pos)]
  | [x] => [x]
  | x :: y :: rest => x :: linkLast joins (y :: rest)

theorem linkLast_append {joins : Bool} (before : List Lexeme) {after : List Lexeme} (h : after ≠ []) :
    linkLast joins (before ++ after) = before ++ linkLast joins after := by
  induction before with
  | nil => rfl
  | cons x before ih =>
    obtain ⟨y, rest, hrest⟩ := List.exists_cons_of_ne_nil (List.append_ne_nil_of_right_ne_nil before h)
    rw [List.cons_append, hrest, linkLast, ← hrest, ih, List.cons_append]

theorem linkLast_false (found : List Lexeme) : linkLast false found = found := by
  fun_induction linkLast false found with
  | case1 => rfl
  | case2 c spacing pos => rfl
  | case3 x h => rfl
  | case4 x y rest ih => rw [ih]

/-- What a text is read as, wherever it stands. -/
def Spells (cs : List Char) (found : List Lexeme) : Prop :=
  ∀ pos, (lexemes pos cs).2 = none ∧ flatten (lexemes pos cs).1 = found

namespace Spells

variable {cs rest : List Char} {found after : List Lexeme}

theorem nil : Spells [] [] := by
  intro pos
  rw [lexemes.eq_def]
  exact ⟨rfl, rfl⟩

theorem piece (hne : cs ≠ [])
    (h : ∀ pos, ∃ pieces, piece? pos (cs ++ rest) = some (cs.length, pieces) ∧ flatten pieces = found)
    (hrest : Spells rest after) : Spells (cs ++ rest) (found ++ after) := by
  intro pos
  obtain ⟨pieces, hpiece, hflat⟩ := h pos
  rw [lexemes_of_piece (List.length_pos_iff.mpr hne) hpiece]
  simp only [flatten_append, List.drop_left, hflat]
  exact ⟨(hrest _).1, by rw [(hrest _).2]⟩

theorem blank {c : Char} (hc : isBlank c = true) (h : Spells cs found) : Spells (c :: cs) found :=
  show Spells ([c] ++ cs) ([] ++ found) from .piece (by simp) (fun pos => ⟨[], by simp [piece?, hc], rfl⟩) h

theorem word {name : String} (hname : (Mark.ident name).Legible) (hclear : (Mark.ident name).clear cs = true)
    (h : Spells cs found) : Spells (name.toList ++ cs) (.leaf (.ident name .callSite) :: found) := by
  change Spells (name.toList ++ cs) ([.leaf (.ident name .callSite)] ++ found)
  refine .piece ?_ (fun pos => ?_) h
  · obtain ⟨⟨d, rest, htext, -⟩, -⟩ := hname.solid
    rw [show name.toList = (Mark.ident name).text from rfl, htext]
    simp
  · obtain ⟨x, hpiece, hx⟩ := (taken_iff_clear hname pos cs).mpr hclear
    refine ⟨[x], hpiece, ?_⟩
    cases hx
    rfl

end Spells

/-! ## The spacing of characters -/

/-- The spacing of a character before a text. -/
def spacingBefore (c : Char) (rest : List Char) : Spacing :=
  if c = '\'' ∨ startsPunct rest = true then .joint else .alone

theorem punct_spacing {pos : Pos} {c : Char} {rest : List Char} {token : Token}
    (h : punct? pos (c :: rest) = some token) : token = .punct c (spacingBefore c rest) pos := by
  rw [punct?] at h
  split at h
  · contradiction
  · split at h
    · rename_i hquote
      split at h
      · cases h
        simp [spacingBefore, hquote]
      · contradiction
    · rename_i hquote
      cases h
      simp [spacingBefore, hquote]

/-- A character is joined to what follows exactly if a character follows; an apostrophe always is. -/
theorem piece_spacing {pos place : Pos} {c d : Char} {rest : List Char} {n : Nat} {spacing : Spacing}
    (h : piece? pos (c :: rest) = some (n, [.leaf (.punct d spacing place)])) : spacing = spacingBefore c rest := by
  rw [piece?] at h
  split at h
  · cases h
  · split at h
    · cases h
    · split at h
      · rename_i doc hdoc
        cases hinner : doc.inner <;> simp [docTokens, hinner] at h
      · split at h
        · cases h
        · split at h
          · cases h
          · obtain ⟨⟨k, token⟩, hleaf, hpair⟩ := Option.map_eq_some_iff.mp h
            cases hpair
            unfold leaf? at hleaf
            split at hleaf
            · cases hleaf
            · split at hleaf
              · rename_i found hpunct
                cases hleaf
                have hsame := punct_spacing hpunct
                cases hsame
                rfl
              · split at hleaf
                · cases hleaf
                · split at hleaf
                  · cases hleaf
                  · obtain ⟨k, -, hpair⟩ := Option.map_eq_some_iff.mp hleaf
                    cases hpair

/-- A slash is a character unless a comment begins with it. -/
theorem startsPunct_cons_cons (c d : Char) (rest : List Char) :
    startsPunct (c :: d :: rest) = (punctuation.contains c && !(c == '/' && (d == '/' || d == '*'))) := by
  unfold startsPunct
  split <;> simp_all
  grind

/-- What breaks does not turn a slash before it into the beginning of a comment. -/
theorem startsPunct_append {cs rest : List Char} (hne : cs ≠ []) (h : Breaks rest) :
    startsPunct (cs ++ rest) = startsPunct cs := by
  obtain ⟨c, cs, rfl⟩ := List.exists_cons_of_ne_nil hne
  cases cs with
  | cons d cs => rw [List.cons_append, List.cons_append, startsPunct_cons_cons, startsPunct_cons_cons]
  | nil =>
    cases rest with
    | nil => rfl
    | cons d rest =>
      have hslash : d ≠ '/' := h.ne (by decide)
      have hstar : d ≠ '*' := h.ne (by decide)
      rw [List.cons_append, List.nil_append, startsPunct_cons_cons]
      simp [hslash, hstar, startsPunct]

/-- The spacing of a character at the end of a text is that before the text which follows. -/
theorem spacingBefore_append (c : Char) {cs rest : List Char} (h : Breaks rest) :
    spacingBefore c (cs ++ rest) =
      if (cs.isEmpty && startsPunct rest) = true then .joint else spacingBefore c cs := by
  cases cs with
  | nil =>
    have hnil : startsPunct [] = false := rfl
    by_cases hstarts : startsPunct rest = true <;> simp [spacingBefore, hstarts, hnil]
  | cons d cs => rw [spacingBefore, startsPunct_append (by simp) h, ← spacingBefore]; rfl

/-- A sign that begins neither a comment nor a character. -/
theorem Spells.sign {cs : List Char} {found : List Lexeme} {c : Char} (hc : c ∈ punctuation) (hslash : c ≠ '/')
    (hquote : c ≠ '\'') (h : Spells cs found) :
    Spells (c :: cs) (.leaf (.punct c (spacingBefore c cs) .callSite) :: found) := by
  change Spells ([c] ++ cs) ([.leaf (.punct c (spacingBefore c cs) .callSite)] ++ found)
  refine .piece (by simp) (fun pos => ?_) h
  obtain ⟨spacing, hpiece⟩ := piece_of_punct hc hslash hquote pos cs
  refine ⟨_, hpiece, ?_⟩
  rw [piece_spacing hpiece]
  rfl

/-! ## Texts before others -/

theorem shows_of_marks {pos : Pos} {cs : List Char} {n : Nat} {found : List Lexeme} {mark : Mark}
    (h : piece? pos cs = some (n, found)) (hmarks : marksOf found = [mark]) : ∃ x, found = [x] ∧ Shows x mark := by
  rcases piece_inv h with ⟨-, -, rfl⟩ | ⟨-, -, rfl⟩ | ⟨doc, -, -, -, -, rfl⟩ | ⟨x, rfl, other, hshows, -⟩
  · cases hmarks
  · cases hmarks
  · unfold docTokens at hmarks
    cases hinner : doc.inner <;> simp [hinner, marksOf, Lexeme.marks, marks] at hmarks
  · rw [hshows.marks_eq] at hmarks
    cases hmarks
    exact ⟨x, rfl, hshows⟩

/-- The first piece of a text before another: it stays as it is, but a character at the end may become joined. -/
theorem piece_spliced {pos : Pos} {cs rest : List Char} {n : Nat} {found : List Lexeme}
    (h : piece? pos cs = some (n, found)) (hopen : Comment.isOpen cs = false) (hbreak : Breaks rest)
    (hinside : rest ≠ [] → marksOf found = [.opening .paren] → cs.drop n ≠ Mark.placeholderInside) :
    ∃ joins, (cs.drop n ≠ [] → joins = false) ∧ ∀ pos', ∃ again, piece? pos' (cs ++ rest) = some (n, again) ∧
      flatten again = linkLast joins (flatten found) := by
  refine ⟨(cs.drop n).isEmpty && startsPunct rest, fun hne => ?_, fun pos' => ?_⟩
  · simp only [List.isEmpty_eq_false_iff.mpr hne, Bool.false_and]
  obtain ⟨c, more, rfl⟩ : ∃ c more, cs = c :: more := by
    cases cs with
    | nil => simp [piece?] at h
    | cons c more => exact ⟨c, more, rfl⟩
  obtain ⟨-, again, hagain, hmarks⟩ := piece_append h hopen hbreak hinside pos'
  refine ⟨again, hagain, ?_⟩
  have hnone : found = [] → flatten again = [] := by
    rintro rfl
    have hshows := piece_shows hagain
    rw [hmarks] at hshows
    rw [flatten, List.forall₂_nil_right_iff.mp hshows, List.map_nil]
  rcases piece_inv h with ⟨-, -, rfl⟩ | ⟨-, -, rfl⟩ | ⟨doc, hblank, hplain, hdoc, rfl, rfl⟩ |
    ⟨x, rfl, mark, hshows, -, -, hlength⟩
  · exact hnone rfl
  · exact hnone rfl
  · simp only [List.head?_cons, Option.any_some] at hblank
    obtain ⟨-, hnoPlain, hdoc⟩ := Comment.doc_append hplain hdoc hopen rest
    rw [List.cons_append] at hagain hnoPlain hdoc
    rw [piece_of_doc hblank hnoPlain hdoc] at hagain
    cases hagain
    unfold docTokens
    cases doc.inner <;> rfl
  · rw [hshows.marks_eq] at hmarks
    obtain ⟨y, rfl, hy⟩ := shows_of_marks hagain hmarks
    cases hshows with
    | punct d spacing place =>
      cases hy with
      | punct _ spacing' place' =>
        cases hlength
        rw [List.cons_append] at hagain
        rw [piece_spacing h, piece_spacing hagain, spacingBefore_append c hbreak]
        rfl
    | _ => cases hy; rfl

/-- The pieces of a closed text before another that breaks. -/
theorem lexemes_spliced {pos : Pos} {cs rest : List Char} {after : List Lexeme}
    (hcomplete : (lexemes pos cs).2 = none) (hopen : leftOpen cs = false)
    (hlast : ∀ d, (marksOf (lexemes pos cs).1).getLast? ≠ some (.opening d)) (hbreak : Breaks rest)
    (hrest : Spells rest after) :
    ∃ joins, Spells (cs ++ rest) (linkLast joins (flatten (lexemes pos cs).1) ++ after) := by
  induction pos, cs using lexemes.induct with
  | case1 pos =>
    rw [lexemes.eq_def]
    exact ⟨false, hrest⟩
  | case2 pos c more hpiece =>
    rw [lexemes.eq_def] at hcomplete
    simp [hpiece] at hcomplete
  | case3 pos c more found hpiece =>
    rw [lexemes.eq_def] at hcomplete
    simp [hpiece] at hcomplete
  | case4 pos c more n found hpiece later bad hlater ih =>
    rw [lexemes_of_piece (Nat.succ_pos n) hpiece] at hcomplete hlast ⊢
    simp only [marksOf_append, List.take_succ_cons, List.drop_succ_cons] at hcomplete hlast ⊢
    obtain ⟨hclosed, hopen⟩ := leftOpen_drop hopen hpiece
    have hinside : marksOf found = [.opening .paren] →
        (c :: more).drop (n + 1) ≠ Mark.placeholderInside := by
      intro hfound hdrop
      rw [List.drop_succ_cons] at hdrop
      rw [hfound, hdrop, lexemes_placeholderInside] at hlast
      exact hlast .paren rfl
    obtain ⟨joins, hjoins, hagain⟩ := piece_spliced hpiece hclosed hbreak fun _ => hinside
    obtain ⟨joinsLater, htail⟩ := ih hcomplete hopen (fun d hd => hlast d (by
      rw [List.getLast?_append, hd]
      rfl))
    have hle : n ≤ more.length := by simpa using (piece_append hpiece hclosed hbreak (fun _ => hinside) pos).1
    have hspells : Spells (c :: more.take n ++ (more.drop n ++ rest))
        (linkLast joins (flatten found) ++ (linkLast joinsLater
          (flatten (lexemes (pos.advance (c :: more.take n)) (more.drop n)).1) ++ after)) := by
      refine .piece (by simp) (fun pos' => ?_) htail
      obtain ⟨again, hpiece', hflat⟩ := hagain pos'
      refine ⟨again, ?_, hflat⟩
      simpa [List.take_append_drop, ← List.append_assoc, hle] using hpiece'
    rw [List.cons_append, ← List.append_assoc, List.take_append_drop, ← List.cons_append,
      ← List.append_assoc] at hspells
    rw [flatten_append]
    by_cases hend : more.drop n = []
    · rw [hend, lexemes.eq_def] at hspells ⊢
      exact ⟨joins, by simpa [flatten, linkLast] using hspells⟩
    · rw [hjoins hend, linkLast_false] at hspells
      cases hflat : flatten (lexemes (pos.advance (c :: more.take n)) (more.drop n)).1 with
      | nil =>
        rw [hflat] at hspells
        exact ⟨false, by simpa [linkLast_false, linkLast] using hspells⟩
      | cons y ys =>
        rw [hflat] at hspells
        exact ⟨joinsLater, by rwa [linkLast_append _ (by simp)]⟩

/-! ## From pieces to tokens -/

mutual

theorem pieces_flat (token : Token) : (pieces token).map Lexeme.flat = pieces (retouch Shift.flat.toRetouch token) := by
  cases token with
  | group delim body opening closing =>
    rw [retouch_group, pieces, pieces, List.map_cons, List.map_append, piecesAll_flat body]
    rfl
  | _ => rfl

theorem piecesAll_flat (tokens : List Token) :
    (piecesAll tokens).map Lexeme.flat = piecesAll (retouch Shift.flat.toRetouch tokens) := by
  cases tokens with
  | nil => rfl
  | cons token rest => rw [retouch_cons, piecesAll, piecesAll, List.map_append, pieces_flat token, piecesAll_flat rest]

end

/-- The pieces before the innermost open group. -/
def piecesBefore : List Frame → List Lexeme
  | [] => []
  | frame :: stack => piecesBefore stack ++ piecesAll frame.before.reverse ++ [.opening frame.delim frame.opening]

theorem piecesAll_append (before after : List Token) :
    piecesAll (before ++ after) = piecesAll before ++ piecesAll after := by
  induction before with
  | nil => rfl
  | cons token before ih => rw [List.cons_append, piecesAll, piecesAll, ih, List.append_assoc]

theorem piecesAll_of_nest {bad : Option Pos} {stack : List Frame} {done : List Token} {found : List Lexeme}
    {tokens : Tokens} (h : nest bad stack done found = .ok tokens) :
    piecesAll tokens = piecesBefore stack ++ piecesAll done.reverse ++ found.flatMap Lexeme.apart := by
  induction found generalizing stack done with
  | nil =>
    unfold nest at h
    split at h
    · contradiction
    · contradiction
    · cases h
      simp [piecesBefore]
  | cons x rest ih =>
    cases x with
    | leaf token =>
      rw [nest] at h
      rw [ih h]
      simp [piecesAll_append, piecesAll, Lexeme.apart]
    | opening delim pos =>
      rw [nest] at h
      rw [ih h]
      simp [piecesBefore, piecesAll, Lexeme.apart]
    | closing delim pos =>
      cases stack with
      | nil => simp [nest] at h
      | cons frame stack =>
        rw [nest] at h
        split at h
        · rename_i hdelim
          rw [ih h]
          simp [piecesBefore, piecesAll_append, piecesAll, pieces, Lexeme.apart, hdelim]
        · contradiction

/-- An open group without its place. -/
def Frame.flat (frame : Frame) : Frame := ⟨frame.delim, .callSite, retouch Shift.flat.toRetouch frame.before⟩

theorem nest_of_flat {stack : List Frame} {done : List Token} {found : List Lexeme} {tokens : Tokens}
    (h : nest none (stack.map Frame.flat) (retouch Shift.flat.toRetouch done) (found.map Lexeme.flat) = .ok tokens) :
    ∃ placed, nest none stack done found = .ok placed ∧ retouch Shift.flat.toRetouch placed = tokens := by
  induction found generalizing stack done with
  | nil =>
    cases stack with
    | nil =>
      cases h
      exact ⟨_, rfl, by simp [retouch_list]⟩
    | cons frame stack => cases h
  | cons x rest ih =>
    cases x with
    | leaf token => exact ih h
    | opening delim pos => exact ih h
    | closing delim pos =>
      cases stack with
      | nil => cases h
      | cons frame stack =>
        simp only [List.map_cons, Lexeme.flat, Frame.flat] at h
        rw [nest] at h ⊢
        split at h
        · rename_i hdelim
          rw [if_pos hdelim]
          refine ih ?_
          rw [retouch_cons, retouch_group, retouch_list _ done.reverse, List.map_reverse]
          exact h
        · cases h

theorem piecesAll_ne_nil (token : Token) (rest : Tokens) : piecesAll (token :: rest) ≠ [] := by
  cases token <;> simp [piecesAll, pieces]

/-- Only a character at the end is joined to what follows. -/
theorem piecesAll_linked (q : Grammar.Sequel) (tokens : Tokens) :
    piecesAll (q.linked tokens) = linkLast q.joins (piecesAll tokens) := by
  induction tokens with
  | nil => rfl
  | cons token rest ih =>
    cases rest with
    | nil =>
      cases token with
      | group delim body opening closing =>
        have hsplit : piecesAll [group delim body opening closing] =
            (.opening delim opening :: piecesAll body) ++ [.closing delim closing] := by
          simp [piecesAll, pieces]
        change piecesAll [group delim body opening closing] = _
        rw [hsplit, linkLast_append _ (by simp)]
        rfl
      | _ => rfl
    | cons next rest =>
      rw [Grammar.Sequel.linked, piecesAll, ih, ← linkLast_append _ (piecesAll_ne_nil next rest), ← piecesAll]

end Lexer

open Lexer

/-- A closed text is read as its tokens before every text that breaks. -/
theorem Tokens.read_spliced {source : String} {tokens : Tokens} (h : Tokens.read source = .ok tokens)
    (hclosed : closed source.toList = true) {rest : List Char} {after : List Lexeme} (hbreak : Breaks rest)
    (hrest : Spells rest after) :
    ∃ joins, ∀ q : Grammar.Sequel, q.joins = joins →
      Spells (source.toList ++ rest) (piecesAll (q.linked (retouch Shift.flat.toRetouch tokens)) ++ after) := by
  rw [closed, Bool.and_eq_true, Bool.not_eq_true', Option.isNone_iff_eq_none] at hclosed
  obtain ⟨hcomplete, hopen⟩ := hclosed
  rw [read_of_head_ne (lexemes_head_ne hcomplete)] at h
  have hlast := marksAll_getLast tokens
  rw [(tokensFrom_marks h).2] at hlast
  obtain ⟨joins, hspells⟩ := lexemes_spliced hcomplete hopen hlast hbreak hrest
  refine ⟨joins, fun q hq => ?_⟩
  have hpieces : piecesAll tokens = (lexemes .callSite source.toList).1.flatMap Lexeme.apart := piecesAll_of_nest h
  rwa [piecesAll_linked, hq, ← piecesAll_flat, hpieces]

/-- A text that is read as the pieces of tokens is read as these tokens. -/
theorem Lexer.Spells.read {source : String} {tokens : Tokens} (h : Spells source.toList (piecesAll tokens)) :
    ∃ placed, Tokens.read source = .ok placed ∧ retouch Shift.flat.toRetouch placed = tokens := by
  obtain ⟨hcomplete, hflat⟩ := h .callSite
  rw [read_of_head_ne (lexemes_head_ne hcomplete)]
  have hnest := nest_piecesAll tokens none [] [] []
  rw [List.append_nil, ← hflat] at hnest
  have hdone : nest none [] [] (flatten (lexemes .callSite source.toList).1) = .ok tokens := by
    simpa [nest] using hnest
  obtain ⟨placed, hplaced, hsame⟩ := @nest_of_flat [] [] _ _ hdone
  refine ⟨placed, ?_, hsame⟩
  change nest (lexemes .callSite source.toList).2 [] [] (lexemes .callSite source.toList).1 = _
  rw [hcomplete, ← nest_apart]
  exact hplaced

end Fieldwise
