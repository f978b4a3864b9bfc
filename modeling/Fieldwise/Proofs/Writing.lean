import Fieldwise.Proofs.Reading.Mark
import Fieldwise.Token.Printer

/-!
# What is written

A written text is woven from the marks of its tokens: they all stand in it, in their order, with nothing
between them but spaces. The writer removes spaces again, at the end of a text under construction and at both
ends of the inside of a group; no mark begins or ends with one, so no mark is damaged.
-/

namespace Fieldwise

open Fieldwise.Text

variable {marks ms before : List Mark} {cs : List Char} {draft : Draft} {sheet : Sheet}

namespace Mark

/-- The characters of a mark can be told from spaces: the first one is no blank and no byte order mark,
the last one is no space. -/
def Solid (mark : Mark) : Prop :=
  (∃ c rest, mark.text = c :: rest ∧ isBlank c = false ∧ c ≠ '\ufeff') ∧
    mark.text.getLast? ≠ some ' '

theorem space_notMem_identifier {word : List Char} (h : isIdentifier word = true) : ' ' ∉ word := by
  cases word with
  | nil => simp
  | cons c rest =>
    rw [isIdentifier, Bool.and_eq_true] at h
    rw [List.mem_cons, not_or]
    refine ⟨?_, fun hmem => ?_⟩
    · rintro rfl
      exact absurd (Lexer.identStart_not_blank h.1) (by decide)
    · exact Lexer.identContinue_ne_space (List.all_eq_true.mp h.2 ' ' hmem) rfl

theorem getLast_ne_space (h : ' ' ∉ cs) : cs.getLast? ≠ some ' ' :=
  fun hlast => h (List.mem_of_getLast? hlast)

/-- A literal that is closed, or whose suffix is a name, does not end with a space. -/
theorem quoted_getLast_ne_space {shown : List Char} {n : Nat} (hlen : Quoted.length shown = some n)
    (hsuffix : n = shown.length ∨ isIdentifier (shown.drop n) = true) :
    shown.getLast? ≠ some ' ' := by
  rcases hsuffix with rfl | hword
  · obtain ⟨c, hmem, hc⟩ := Quoted.length_closes shown _ hlen
    rw [List.getLast?_eq_getElem?, hc]
    rintro hspace
    cases hspace
    revert hmem
    decide
  · have hspace := getLast_ne_space (space_notMem_identifier hword)
    rw [← List.take_append_drop n shown, List.getLast?_append]
    cases hlast : (shown.drop n).getLast? with
    | none =>
      rw [List.getLast?_eq_none_iff] at hlast
      rw [hlast] at hword
      contradiction
    | some c =>
      rw [hlast] at hspace
      simpa using hspace

theorem Legible.solid {mark : Mark} (h : mark.Legible) : mark.Solid := by
  cases mark with
  | opening delim =>
    cases delim with
    | invisible => exact absurd rfl h
    | _ => exact ⟨⟨_, _, rfl, by decide, by decide⟩, by decide⟩
  | closing delim =>
    cases delim with
    | invisible => exact absurd rfl h
    | _ => exact ⟨⟨_, _, rfl, by decide, by decide⟩, by decide⟩
  | ident name =>
    rcases h with hword | ⟨word, hname, hword, -⟩
    · refine ⟨?_, getLast_ne_space (space_notMem_identifier hword)⟩
      cases hlist : name.toList with
      | nil =>
        rw [hlist] at hword
        contradiction
      | cons c rest =>
        rw [hlist, isIdentifier, Bool.and_eq_true] at hword
        refine ⟨c, rest, hlist, Lexer.identStart_not_blank hword.1, ?_⟩
        rintro rfl
        exact Lexer.special_not_ident (.inr hword.1) (by decide)
    · refine ⟨⟨'r', '#' :: word, hname, by decide, by decide⟩, ?_⟩
      have hspace := space_notMem_identifier hword
      exact getLast_ne_space (by rw [text, hname]; simpa using hspace)
  | punct c =>
    obtain ⟨hblank, hapart⟩ := Lexer.punctuation_apart h
    refine ⟨⟨c, [], rfl, hblank, ?_⟩, ?_⟩
    · rintro rfl
      exact hapart (by decide)
    · rintro hlast
      cases hlast
      exact hapart (by decide)
  | literal shown =>
    rcases h with ⟨n, hlen, hsuffix⟩ | rfl | ⟨hdigit, hspace⟩
    · obtain ⟨c, hmem, hhead⟩ := Quoted.length_head hlen
      obtain ⟨rest, hshown⟩ := List.head?_eq_some_iff.mp hhead
      have htable : ∀ d ∈ ['"', '\'', 'r', 'b', 'c'], isBlank d = false ∧ d ≠ '\ufeff' :=
        Lexer.forall_mem_of_all (by decide)
      obtain ⟨hblank, hmark⟩ := htable c hmem
      exact ⟨⟨c, rest, hshown, hblank, hmark⟩, quoted_getLast_ne_space hlen hsuffix⟩
    · exact ⟨⟨_, _, rfl, by decide, by decide⟩, by decide⟩
    · refine ⟨?_, getLast_ne_space hspace⟩
      cases hlist : shown.toList with
      | nil => simp [hlist] at hdigit
      | cons c rest =>
        have hc : isDigit c = true := by simpa [hlist] using hdigit
        obtain ⟨hblank, -, hspecial⟩ := Lexer.digit_apart hc
        refine ⟨c, rest, hlist, hblank, ?_⟩
        rintro rfl
        exact hspecial (by decide)

end Mark

/-! ## Woven texts -/

/-- A text of marks in their order, with nothing but spaces between and around them. -/
inductive Woven : List Mark → List Char → Prop
  | nil : Woven [] []
  | space {marks : List Mark} {cs : List Char} (h : Woven marks cs) : Woven marks (' ' :: cs)
  | mark (mark : Mark) {marks : List Mark} {cs : List Char} (h : Woven marks cs) :
    Woven (mark :: marks) (mark.text ++ cs)

namespace Woven

theorem append {after : List Mark} {ds : List Char} (hcs : Woven before cs) (hds : Woven after ds) :
    Woven (before ++ after) (cs ++ ds) := by
  induction hcs with
  | nil => exact hds
  | space _ ih => exact ih.space
  | mark m _ ih =>
    rw [List.append_assoc]
    exact ih.mark m

theorem single (m : Mark) : Woven [m] m.text := by
  simpa using Woven.nil.mark m

theorem snoc_space (h : Woven marks cs) : Woven marks (cs ++ [' ']) := by
  simpa using h.append Woven.nil.space

/-- Punctuation characters one after the other are woven. -/
theorem puncts (op : List Char) : Woven (op.map .punct) op := by
  induction op with
  | nil => exact .nil
  | cons c op ih => exact ih.mark (.punct c)

/-- The first space of a woven text belongs to no mark. -/
theorem of_space (hsolid : ∀ m ∈ marks, m.Solid) (h : Woven marks (' ' :: cs)) : Woven marks cs := by
  generalize hds : ' ' :: cs = ds at h
  cases h with
  | nil => contradiction
  | space h =>
    cases hds
    exact h
  | mark m h =>
    obtain ⟨⟨c, rest, htext, hblank, -⟩, -⟩ := hsolid m (by simp)
    rw [htext, List.cons_append] at hds
    cases hds
    exact absurd hblank (by decide)

/-- The last space of a woven text belongs to no mark. -/
theorem of_snoc_space (hsolid : ∀ m ∈ marks, m.Solid) (h : Woven marks (cs ++ [' '])) : Woven marks cs := by
  generalize hds : cs ++ [' '] = ds at h
  induction h generalizing cs with
  | nil => simp at hds
  | space h ih =>
    cases cs with
    | nil =>
      cases hds
      exact h
    | cons c cs =>
      rw [List.cons_append] at hds
      obtain ⟨rfl, htail⟩ := List.cons.inj hds
      exact (ih hsolid htail).space
  | @mark m marks tail h ih =>
    rcases List.eq_nil_or_concat tail with rfl | ⟨init, d, rfl⟩
    · -- The mark is last: it would end with the space.
      obtain ⟨-, hlast⟩ := hsolid m (by simp)
      rw [List.append_nil] at hds
      rw [← hds] at hlast
      simp at hlast
    · rw [List.concat_eq_append, ← List.append_assoc] at hds
      obtain ⟨rfl, hd⟩ := List.append_inj' hds rfl
      exact (ih (fun m' hm' => hsolid m' (by simp [hm'])) (by simpa using hd)).mark m

/-- Removing the spaces at the front keeps a text woven. -/
theorem dropWhile (hsolid : ∀ m ∈ marks, m.Solid) (h : Woven marks cs) : Woven marks (cs.dropWhile (· == ' ')) := by
  induction cs with
  | nil => exact h
  | cons c cs ih =>
    rw [List.dropWhile_cons]
    split
    · rename_i hc
      rw [beq_iff_eq] at hc
      subst hc
      exact ih (of_space hsolid h)
    · exact h

end Woven

namespace Printer

open Token

/-! ## Steps of the writer -/

/-- Removing the spaces at the end keeps a draft woven. -/
theorem woven_trimEnd (hsolid : ∀ m ∈ marks, m.Solid) (h : Woven marks draft.reverse) :
    Woven marks draft.trimEnd.reverse := by
  induction draft with
  | nil => exact h
  | cons c draft ih =>
    unfold Draft.trimEnd
    rw [List.dropWhile_cons]
    split
    · rename_i hc
      rw [beq_iff_eq] at hc
      subst hc
      rw [List.reverse_cons] at h
      exact ih (Woven.of_snoc_space hsolid h)
    · exact h

theorem woven_append {after : List Mark} (h : Woven before draft.reverse) (hcs : Woven after cs) :
    Woven (before ++ after) (draft.append cs).reverse := by
  unfold Draft.append
  rw [List.reverse_append, List.reverse_reverse]
  exact h.append hcs

theorem woven_wordGap (h : Woven marks draft.reverse) : Woven marks draft.wordGap.reverse := by
  unfold Draft.wordGap
  split
  · split
    · rw [List.reverse_cons]
      exact h.snoc_space
    · exact h
  · exact h

theorem woven_keywordGap (h : Woven marks draft.reverse) : Woven marks draft.keywordGap.reverse := by
  unfold Draft.keywordGap
  split
  · rw [List.reverse_cons]
    exact h.snoc_space
  · exact h

theorem woven_groupGap (h : Woven marks draft.reverse) (delim : Delim) :
    Woven marks (groupGap draft delim).reverse := by
  cases delim with
  | paren => exact woven_keywordGap h
  | bracket => exact woven_keywordGap h
  | brace => exact woven_wordGap h
  | invisible => exact h

theorem woven_writeOp (hsolid : ∀ m ∈ marks, m.Solid) (h : Woven marks draft.reverse) (op : List Char) :
    Woven (marks ++ op.map .punct) (writeOp draft op).reverse := by
  have hop := Woven.puncts op
  have hspaced : Woven (marks ++ op.map .punct) (draft.spaced op).reverse :=
    woven_append (woven_trimEnd hsolid h) hop.snoc_space.space
  unfold writeOp
  split
  · simpa using h
  · split
    · exact woven_append (woven_trimEnd hsolid h) hop.snoc_space
    · exact hspaced
    · split
      · exact hspaced
      · exact woven_append h hop
    · exact woven_append h hop

/-- A finished text has no spaces at its ends and is woven. -/
theorem woven_finish (hsolid : ∀ m ∈ ms, m.Solid) (h : Woven ms draft.reverse) : Woven ms draft.finish :=
  Woven.dropWhile hsolid (woven_trimEnd hsolid h)

/-- Writing a group appends its delimiters and its inside. -/
theorem woven_writeGroup {inside : List Mark} (h : Woven before draft.reverse) (hcs : Woven inside cs) {delim : Delim}
    (hdelim : delim ≠ .invisible) :
    Woven (before ++ .opening delim :: (inside ++ [.closing delim]))
      (writeGroup draft delim cs).reverse := by
  have hleft : Woven [.opening delim] (marks delim).1 ∧
      Woven [.opening delim] ((marks delim).1.filter (· != ' ')) := by
    cases delim with
    | brace => exact ⟨(Woven.single (.opening .brace)).snoc_space, Woven.single (.opening .brace)⟩
    | invisible => exact absurd rfl hdelim
    | paren => exact ⟨Woven.single (.opening .paren), Woven.single (.opening .paren)⟩
    | bracket => exact ⟨Woven.single (.opening .bracket), Woven.single (.opening .bracket)⟩
  have hright : Woven [.closing delim] (marks delim).2 ∧
      Woven [.closing delim] ((marks delim).2.filter (· != ' ')) := by
    cases delim with
    | brace => exact ⟨(Woven.single (.closing .brace)).space, Woven.single (.closing .brace)⟩
    | invisible => exact absurd rfl hdelim
    | paren => exact ⟨Woven.single (.closing .paren), Woven.single (.closing .paren)⟩
    | bracket => exact ⟨Woven.single (.closing .bracket), Woven.single (.closing .bracket)⟩
  have hwrite : writeGroup draft delim cs = (groupGap draft delim).append
      (if cs.isEmpty then
        (marks delim).1.filter (· != ' ') ++ (marks delim).2.filter (· != ' ')
      else (marks delim).1 ++ cs ++ (marks delim).2) := rfl
  rw [hwrite]
  refine woven_append (woven_groupGap h delim) ?_
  split
  · rename_i hempty
    rw [List.isEmpty_iff] at hempty
    subst hempty
    simpa using hleft.2.append (hcs.append hright.2)
  · simpa using hleft.1.append (hcs.append hright.1)

/-! ## The whole text -/

/-- So many marks are on a sheet: those of its draft, and the operator that is not written yet. -/
def Sheet.Holds (sheet : Sheet) (ms : List Mark) : Prop :=
  ∃ written, Woven written sheet.draft.reverse ∧ ms = written ++ sheet.op.map .punct

theorem Sheet.Holds.settle (hsolid : ∀ m ∈ ms, m.Solid) (h : sheet.Holds ms) : Woven ms sheet.settle.reverse := by
  obtain ⟨written, hwoven, rfl⟩ := h
  exact woven_writeOp (fun m hm => hsolid m (by simp [hm])) hwoven sheet.op

theorem Sheet.Holds.word (hsolid : ∀ m ∈ ms, m.Solid) (h : sheet.Holds ms) {m : Mark} {shown : String}
    (hm : m.text = shown.toList) : (sheet.word shown).Holds (ms ++ [m]) := by
  refine ⟨ms ++ [m], ?_, by simp [Sheet.word]⟩
  have hword := Woven.single m
  rw [hm] at hword
  exact woven_append (woven_wordGap (h.settle hsolid)) hword

theorem Sheet.Holds.punct (hsolid : ∀ m ∈ ms, m.Solid) (h : sheet.Holds ms) (c : Char) (spacing : Spacing) :
    (sheet.punct c spacing).Holds (ms ++ [.punct c]) := by
  obtain ⟨written, hwoven, rfl⟩ := h
  cases spacing with
  | joint => exact ⟨written, hwoven, by simp [Sheet.punct]⟩
  | alone =>
    have hop := woven_writeOp (fun m hm => hsolid m (by simp [hm])) hwoven (sheet.op ++ [c])
    exact ⟨_, hop, by simp [Sheet.punct]⟩

mutual

theorem writeToken_holds (token : Token) {sheet : Sheet} {ms : List Mark}
    (hsolid : ∀ m ∈ ms ++ token.marks, m.Solid) (h : sheet.Holds ms) :
    (writeToken sheet token).Holds (ms ++ token.marks) := by
  have hbefore : ∀ m ∈ ms, m.Solid := fun m hm => hsolid m (by simp [hm])
  cases token with
  | ident name pos => exact h.word hbefore rfl
  | literal shown pos => exact h.word hbefore rfl
  | punct c spacing pos => exact h.punct hbefore c spacing
  | group delim body opening closing =>
    have hsettled := h.settle hbefore
    have hbody : ∀ m ∈ marksAll body, m.Solid := fun m hm =>
      hsolid m (by cases delim <;> simp [Token.marks, hm])
    have hinside : Woven (marksAll body) (writeTokens .empty body).settle.finish := by
      have hempty : Sheet.empty.Holds [] := ⟨[], .nil, rfl⟩
      have hholds := writeTokens_holds body (by simpa using hbody) hempty
      exact woven_finish hbody (hholds.settle hbody)
    refine ⟨_, ?_, (List.append_nil _).symm⟩
    by_cases hdelim : delim = .invisible
    · subst hdelim
      have hwrite : writeGroup sheet.settle .invisible (writeTokens .empty body).settle.finish =
          sheet.settle.append (writeTokens .empty body).settle.finish := by
        unfold writeGroup
        cases (writeTokens .empty body).settle.finish <;> simp [marks, groupGap]
      rw [writeToken, hwrite]
      exact woven_append hsettled hinside
    · rw [marks_group hdelim]
      exact woven_writeGroup hsettled hinside hdelim

theorem writeTokens_holds (tokens : Tokens) {sheet : Sheet} {ms : List Mark}
    (hsolid : ∀ m ∈ ms ++ marksAll tokens, m.Solid) (h : sheet.Holds ms) :
    (writeTokens sheet tokens).Holds (ms ++ marksAll tokens) := by
  cases tokens with
  | nil => simpa [writeTokens, marksAll] using h
  | cons token rest =>
    rw [marksAll, ← List.append_assoc] at hsolid ⊢
    have hfirst := writeToken_holds token (fun m hm => hsolid m (by simp at hm ⊢; grind)) h
    exact writeTokens_holds rest hsolid hfirst

end

end Printer

/-- A written text is woven from the marks of its tokens. -/
theorem Tokens.text_woven {tokens : Tokens} (hsolid : ∀ m ∈ Token.marksAll tokens, m.Solid) :
    Woven (Token.marksAll tokens) tokens.text.toList := by
  have hempty : Printer.Sheet.empty.Holds [] := ⟨[], .nil, rfl⟩
  have hholds := Printer.writeTokens_holds tokens (by simpa using hsolid) hempty
  rw [Tokens.text, String.toList_ofList]
  exact Printer.woven_finish hsolid (hholds.settle hsolid)

end Fieldwise
