import Fieldwise.Proofs.Reading.Escape
import Fieldwise.Proofs.Reading.Taking

/-!
# The pieces of a text

A piece of a text is a blank, a comment, or a mark whose characters it has. A plain comment disappears and a
documenting one turns into an attribute; both lose slashes, and nothing else does. So a text that keeps its
slashes has no comments.
-/

namespace Fieldwise.Lexer

open Fieldwise.Text

variable {n : Nat} {cs : List Char} {pos : Pos} {found : List Lexeme}

/-- How many slashes there are in marks. -/
def slashes (marks : List Mark) : Nat := (marks.flatMap Mark.text).count '/'

@[simp] theorem slashes_nil : slashes [] = 0 := rfl

@[simp] theorem slashes_append (before after : List Mark) :
    slashes (before ++ after) = slashes before + slashes after := by
  simp [slashes, List.count_append]

theorem slashes_singleton (mark : Mark) : slashes [mark] = mark.text.count '/' := by
  simp [slashes]

/-! ## Comments -/

theorem blockLength_pos {depth : Nat} (h : Comment.blockLength depth cs = some n) : 0 < n := by
  unfold Comment.blockLength at h
  split at h
  · contradiction
  · obtain ⟨m, -, rfl⟩ := Option.map_eq_some_iff.mp h
    omega
  · split at h
    · cases h
      omega
    · obtain ⟨m, -, rfl⟩ := Option.map_eq_some_iff.mp h
      omega
  · obtain ⟨m, -, rfl⟩ := Option.map_eq_some_iff.mp h
    omega

/-- A text whose head is a slash has a slash among any of its first characters. -/
theorem count_slash_take (rest : List Char) (h : 0 < n) : 0 < (('/' :: rest).take n).count '/' := by
  cases n with
  | zero => omega
  | succ n => simp

theorem count_slash_plain (h : Comment.plainLength cs = some n) : 0 < (cs.take n).count '/' := by
  have hline : ∀ rest, 0 < (Comment.line ('/' :: rest)).length := by
    intro rest
    simp [Comment.line]
  unfold Comment.plainLength at h
  split at h
  · cases h
    exact count_slash_take _ (hline _)
  · contradiction
  · contradiction
  · cases h
    exact count_slash_take _ (hline _)
  · cases h
    exact count_slash_take _ (by omega)
  · exact count_slash_take _ (blockLength_pos h)
  · contradiction
  · contradiction
  · exact count_slash_take _ (blockLength_pos h)
  · contradiction

theorem line_front (cs : List Char) : Comment.line cs <+: cs := by
  induction cs with
  | nil => exact List.nil_prefix
  | cons c rest ih =>
    rw [Comment.line]
    split
    · exact List.nil_prefix
    · split
      · exact List.nil_prefix
      · exact List.cons_prefix_cons.mpr ⟨rfl, ih⟩

/-- A documenting comment in a line has more slashes than its text. -/
theorem count_slash_lineDoc {a b : Char} (rest : List Char) (inner : Bool) :
    (Comment.lineDoc ('/' :: a :: b :: rest) inner).text.count '/' <
      (('/' :: a :: b :: rest).take (Comment.lineDoc ('/' :: a :: b :: rest) inner).length).count
        '/' := by
  simp only [Comment.lineDoc, List.drop_succ_cons, List.drop_zero, List.take_succ_cons]
  rw [← List.prefix_iff_eq_take.mp (line_front rest)]
  have hmore : ∀ (c : Char) (cs : List Char), cs.count '/' ≤ (c :: cs).count '/' :=
    fun c cs => List.count_le_count_cons
  have hfirst := hmore b (Comment.line rest)
  have hsecond := hmore a (b :: Comment.line rest)
  rw [List.count_cons_self]
  omega

/-- A documenting comment in a block has more slashes than its text. -/
theorem count_slash_blockDoc {rest : List Char} {inner : Bool} {doc : Comment.Doc}
    (h : Comment.blockDoc ('/' :: rest) inner = some doc) :
    doc.text.count '/' < (('/' :: rest).take doc.length).count '/' := by
  obtain ⟨n, hn, rfl⟩ := Option.map_eq_some_iff.mp h
  have hpos := blockLength_pos hn
  obtain ⟨m, rfl⟩ : ∃ m, n = m + 1 := ⟨n - 1, by omega⟩
  have hsub : ((('/' :: rest).take (m + 1 - 2)).drop 3).Sublist (rest.take m) := by
    rw [List.drop_take, List.drop_succ_cons]
    refine List.Sublist.trans ?_ (List.drop_sublist 2 (rest.take m))
    rw [List.drop_take]
    exact (List.take_prefix_take_left (by omega)).sublist
  have hle := hsub.count_le '/'
  dsimp only
  rw [List.take_succ_cons, List.count_cons_self]
  omega

/-- A documenting comment has more slashes than its text. -/
theorem count_slash_doc {doc : Comment.Doc} (h : Comment.doc? cs = some doc) :
    doc.text.count '/' < (cs.take doc.length).count '/' := by
  unfold Comment.doc? at h
  obtain ⟨found, hfound, hbare⟩ := Option.bind_eq_some_iff.mp h
  have hdoc : found = doc := by
    split at hbare
    · contradiction
    · exact Option.some.inj hbare
  subst hdoc
  split at hfound
  · cases hfound
    exact count_slash_lineDoc _ _
  · exact count_slash_blockDoc hfound
  · contradiction
  · cases hfound
    exact count_slash_lineDoc _ _
  · contradiction
  · exact count_slash_blockDoc hfound
  · contradiction

/-- The attribute of a documenting comment is made of legible marks, and its slashes are those of the
comment's text. -/
theorem marksOf_docTokens (pos last : Pos) (doc : Comment.Doc) :
    (∀ mark ∈ marksOf ((docTokens pos last doc).map .leaf), mark.Legible) ∧
      slashes (marksOf ((docTokens pos last doc).map .leaf)) = doc.text.count '/' := by
  have hquote : Quoted.length (quoteLiteral (String.ofList doc.text)).toList =
      some (quoteLiteral (String.ofList doc.text)).toList.length := by
    simpa using Quoted.length_quoteLiteral (String.ofList doc.text) []
  have hliteral : (Mark.literal (quoteLiteral (String.ofList doc.text))).Legible :=
    .inl ⟨_, hquote, .inl rfl⟩
  have hcount := Quoted.count_slash_quoteLiteral (String.ofList doc.text)
  rw [String.toList_ofList] at hcount
  have hmarks : marksOf ((docTokens pos last doc).map .leaf) =
      (if doc.inner then [.punct '#', .punct '!'] else [.punct '#']) ++
        [.opening .bracket, .ident "doc", .punct '=',
          .literal (quoteLiteral (String.ofList doc.text)), .closing .bracket] := by
    unfold docTokens
    cases doc.inner <;> rfl
  have hhash : (Mark.punct '#').Legible := by
    change '#' ∈ punctuation
    decide
  have hbang : (Mark.punct '!').Legible := by
    change '!' ∈ punctuation
    decide
  have hequal : (Mark.punct '=').Legible := by
    change '=' ∈ punctuation
    decide
  have hname : (Mark.ident "doc").Legible := .inl (by decide)
  have hopening : (Mark.opening .bracket).Legible := by simp [Mark.Legible]
  have hclosing : (Mark.closing .bracket).Legible := by simp [Mark.Legible]
  rw [hmarks]
  refine ⟨?_, ?_⟩
  · cases doc.inner <;> simp [hhash, hbang, hequal, hname, hopening, hclosing, hliteral]
  · rw [← hcount]
    cases doc.inner <;> simp [slashes, Mark.text]

/-! ## Tokens -/

theorem isIdentifier_take (h : Number.wordLength cs ≠ 0) : isIdentifier (cs.take (Number.wordLength cs)) = true := by
  cases cs with
  | nil => simp [Number.wordLength] at h
  | cons c rest =>
    rw [Number.wordLength] at h ⊢
    split
    · rename_i hc
      rw [List.take_succ_cons, isIdentifier, hc, Bool.true_and,
        ← List.prefix_iff_eq_take.mp (List.takeWhile_prefix _)]
      exact List.all_takeWhile
    · rename_i hc
      simp [hc] at h

theorem literal_legible (h : literalLength cs = some n) :
    (Mark.literal (String.ofList (cs.take n))).Legible ∧ n ≤ cs.length := by
  unfold literalLength at h
  cases hlen : Quoted.length cs with
  | some k =>
    rw [hlen] at h
    cases h
    obtain ⟨hpos, hle, hagain⟩ := Quoted.length_steady cs k hlen
    have hword := Number.wordLength_spans (cs.drop k)
    have hbound := hword.le_length
    rw [List.length_drop] at hbound
    have hsplit : cs.take (k + Number.wordLength (cs.drop k)) =
        cs.take k ++ (cs.drop k).take (Number.wordLength (cs.drop k)) := List.take_add
    refine ⟨.inl ⟨k, ?_, ?_⟩, by omega⟩
    · rw [String.toList_ofList, hsplit]
      exact hagain _
    · rw [String.toList_ofList]
      by_cases hzero : Number.wordLength (cs.drop k) = 0
      · left
        rw [hzero, Nat.add_zero, List.length_take]
        omega
      · right
        rw [hsplit, List.drop_left' (by rw [List.length_take]; omega)]
        exact isIdentifier_take hzero
  | none =>
    rw [hlen] at h
    have hspans := Number.length_spans h
    obtain ⟨hpos, hhead⟩ := Number.length_head h
    refine ⟨.inr (.inr ⟨?_, ?_⟩), hspans.le_length⟩
    · rw [String.toList_ofList]
      cases cs with
      | nil => simp at hhead
      | cons c rest =>
        cases n with
        | zero => omega
        | succ n => simpa using hhead
    · rw [String.toList_ofList]
      exact hspans.no_space

theorem ident_legible (h : identLength cs = some n) :
    (Mark.ident (String.ofList (cs.take n))).Legible ∧ n ≤ cs.length := by
  unfold identLength at h
  split at h
  · rename_i rest
    split at h
    · contradiction
    · rename_i hzero
      split at h
      · contradiction
      · rename_i hraw
        cases h
        have hle := (Number.wordLength_spans rest).le_length
        refine ⟨.inr ⟨rest.take (Number.wordLength rest), ?_, ?_, ?_⟩, ?_⟩
        · rw [String.toList_ofList, List.take_succ_cons, List.take_succ_cons]
        · exact isIdentifier_take hzero
        · simpa using hraw
        · simp only [List.length_cons]
          omega
  · split at h
    · contradiction
    · rename_i hzero
      cases h
      refine ⟨.inl ?_, (Number.wordLength_spans cs).le_length⟩
      rw [String.toList_ofList]
      exact isIdentifier_take hzero

/-- A piece shows a mark whose characters are the first ones of the text. -/
def Displays (cs : List Char) (n : Nat) (x : Lexeme) : Prop :=
  ∃ mark, Shows x mark ∧ mark.Legible ∧ cs.take n = mark.text ∧ n = mark.text.length

/-- A token is a legible mark with the characters that were taken. -/
theorem leaf_displays {token : Token} (h : leaf? pos cs = some (n, token)) : Displays cs n (.leaf token) := by
  unfold leaf? at h
  split at h
  · rename_i k hk
    cases h
    obtain ⟨hlegible, hle⟩ := literal_legible hk
    refine ⟨_, .literal _ _, hlegible, ?_, ?_⟩
    · simp [Mark.text]
    · simp [Mark.text, hle]
  · split at h
    · rename_i found hpunct
      cases h
      obtain ⟨c, spacing, rest, rfl, rfl, hmem⟩ := punct_eq_some hpunct
      exact ⟨.punct c, .punct _ _ _, hmem, rfl, rfl⟩
    · split at h
      · rename_i hpre
        cases h
        obtain ⟨rest, rfl⟩ := List.isPrefixOf_iff_prefix.mp hpre
        exact ⟨.literal placeholder, .literal _ _, .inr (.inl rfl), rfl, rfl⟩
      · split at h
        · contradiction
        · obtain ⟨k, hk, hpair⟩ := Option.map_eq_some_iff.mp h
          cases hpair
          obtain ⟨hlegible, hle⟩ := ident_legible hk
          refine ⟨_, .ident _ _, hlegible, ?_, ?_⟩
          · simp [Mark.text]
          · simp [Mark.text, hle]

/-- A piece that is no blank and no comment shows a mark. -/
theorem piece_displays {c : Char} {rest : List Char} (hblank : isBlank c = false)
    (hplain : Comment.plainLength (c :: rest) = none) (hdoc : Comment.doc? (c :: rest) = none)
    (h : piece? pos (c :: rest) = some (n, found)) : ∃ x, found = [x] ∧ Displays (c :: rest) n x := by
  rw [piece?, hplain, hdoc, hblank, if_neg (by simp)] at h
  dsimp only at h
  split at h
  · rename_i delim hopening
    cases h
    refine ⟨_, rfl, .opening delim, .opening _ _, ?_⟩
    unfold opening? at hopening
    split at hopening
    · contradiction
    · simp only [List.head?_cons, Option.bind_some] at hopening
      unfold opens? at hopening
      split at hopening <;> cases hopening <;> exact ⟨by simp [Mark.Legible], rfl, rfl⟩
  · split at h
    · rename_i delim hcloses
      cases h
      refine ⟨_, rfl, .closing delim, .closing _ _, ?_⟩
      unfold closes? at hcloses
      split at hcloses <;> cases hcloses <;> exact ⟨by simp [Mark.Legible], rfl, rfl⟩
    · obtain ⟨⟨k, token⟩, hleaf, hpair⟩ := Option.map_eq_some_iff.mp h
      cases hpair
      exact ⟨_, rfl, leaf_displays hleaf⟩

/-- The first piece of a text is a blank, a plain comment, a documenting comment, or a mark. -/
theorem piece_inv (h : piece? pos cs = some (n, found)) :
    (cs.head?.any isBlank = true ∧ n = 1 ∧ found = []) ∨
      (cs.head?.any isBlank = false ∧ Comment.plainLength cs = some n ∧ found = []) ∨
      (∃ doc, cs.head?.any isBlank = false ∧ Comment.plainLength cs = none ∧
        Comment.doc? cs = some doc ∧ n = doc.length ∧
        found = (docTokens pos (pos.advance (cs.take (doc.length - 1))) doc).map .leaf) ∨
      ∃ x, found = [x] ∧ Displays cs n x := by
  cases cs with
  | nil => simp [piece?] at h
  | cons c rest =>
    cases hblank : isBlank c with
    | true =>
      rw [piece?, hblank, if_pos rfl] at h
      cases h
      exact .inl ⟨hblank, rfl, rfl⟩
    | false =>
      cases hplain : Comment.plainLength (c :: rest) with
      | some k =>
        rw [piece?, hblank, hplain, if_neg (by simp)] at h
        cases h
        exact .inr (.inl ⟨hblank, rfl, rfl⟩)
      | none =>
        cases hdoc : Comment.doc? (c :: rest) with
        | some doc =>
          rw [piece?, hblank, hplain, hdoc, if_neg (by simp)] at h
          cases h
          exact .inr (.inr (.inl ⟨doc, hblank, rfl, rfl, rfl, rfl⟩))
        | none => exact .inr (.inr (.inr (piece_displays hblank hplain hdoc h)))

/-- What a piece of a text is: a blank, something with fewer slashes than its characters, or a mark. -/
theorem piece_cases (h : piece? pos cs = some (n, found)) :
    (cs.head?.any isBlank = true ∧ n = 1 ∧ found = []) ∨
      ((∀ mark ∈ marksOf found, mark.Legible) ∧ slashes (marksOf found) < (cs.take n).count '/') ∨
      ∃ x, found = [x] ∧ Displays cs n x := by
  rcases piece_inv h with hblank | ⟨-, hplain, rfl⟩ | ⟨doc, -, -, hdoc, rfl, rfl⟩ | hmark
  · exact .inl hblank
  · exact .inr (.inl ⟨by simp [marksOf], count_slash_plain hplain⟩)
  · obtain ⟨hlegible, hslashes⟩ := marksOf_docTokens pos (pos.advance (cs.take (doc.length - 1))) doc
    exact .inr (.inl ⟨hlegible, by rw [hslashes]; exact count_slash_doc hdoc⟩)
  · exact .inr (.inr hmark)

/-! ## Whole texts -/

@[simp] theorem marksOf_nil : marksOf [] = [] := rfl

@[simp] theorem marksOf_append (before after : List Lexeme) :
    marksOf (before ++ after) = marksOf before ++ marksOf after := List.flatMap_append

/-- A piece that shows a mark has this mark and no other. -/
theorem Shows.marks_eq {x : Lexeme} {mark : Mark} (h : Shows x mark) : marksOf [x] = [mark] := by
  cases h <;> rfl

/-- The pieces of a text are its first piece and the pieces of the rest. -/
theorem lexemes_of_piece (hpos : 0 < n) (h : piece? pos cs = some (n, found)) :
    lexemes pos cs =
      (found ++ (lexemes (pos.advance (cs.take n)) (cs.drop n)).1,
        (lexemes (pos.advance (cs.take n)) (cs.drop n)).2) := by
  obtain ⟨m, rfl⟩ : ∃ m, n = m + 1 := ⟨n - 1, by omega⟩
  cases cs with
  | nil => simp [piece?] at h
  | cons c rest =>
    rw [lexemes.eq_def]
    simp only [h]
    rfl

/-- Everything that is read is legible, and reading adds no slashes. -/
theorem lexemes_legible (pos : Pos) (cs : List Char) :
    (∀ mark ∈ marksOf (lexemes pos cs).1, mark.Legible) ∧
      slashes (marksOf (lexemes pos cs).1) ≤ cs.count '/' := by
  induction pos, cs using lexemes.induct with
  | case1 pos =>
    rw [lexemes.eq_def]
    simp
  | case2 pos c rest hpiece =>
    rw [lexemes.eq_def]
    simp [hpiece]
  | case3 pos c rest found hpiece =>
    rw [lexemes.eq_def]
    simp [hpiece]
  | case4 pos c rest n found hpiece more bad hmore ih =>
    obtain ⟨hrest, hslashes⟩ := ih
    have hcount : ((c :: rest).take (n + 1)).count '/' + (rest.drop n).count '/' =
        (c :: rest).count '/' := by
      rw [← List.drop_succ_cons (a := c), ← List.count_append, List.take_append_drop]
    have hfound : (∀ mark ∈ marksOf found, mark.Legible) ∧
        slashes (marksOf found) ≤ ((c :: rest).take (n + 1)).count '/' := by
      rcases piece_cases hpiece with ⟨-, -, rfl⟩ | ⟨hlegible, hless⟩ |
        ⟨x, rfl, mark, hshows, hlegible, htake, -⟩
      · simp
      · exact ⟨hlegible, Nat.le_of_lt hless⟩
      · rw [hshows.marks_eq, slashes_singleton, htake]
        simpa using hlegible
    rw [lexemes_of_piece (Nat.succ_pos n) hpiece]
    simp only [marksOf_append, List.mem_append, slashes_append, List.drop_succ_cons,
      List.take_succ_cons]
    refine ⟨?_, by omega⟩
    rintro mark (hmem | hmem)
    · exact hfound.1 mark hmem
    · exact hrest mark hmem

end Fieldwise.Lexer
