import Fieldwise.Grammar.Printer
import Fieldwise.Proofs.Reading.Scanning

/-!
# Texts that are put together

Generated code is put together from texts that are read one by one. A text stands for some marks if it is read
as these marks wherever a text follows that breaks. Such texts can be joined by commas and stacked line by line,
and indentation does not change what they stand for.
-/

namespace Fieldwise

open Token Lexer

variable {c : Char} {name : String}

namespace Token

/-! ## Comparing tokens -/

mutual

/-- Whether two tokens are the same. -/
def same : Token → Token → Bool
  | .ident name pos, .ident name' pos' => name == name' && pos == pos'
  | .punct c spacing pos, .punct c' spacing' pos' => c == c' && spacing == spacing' && pos == pos'
  | .literal shown pos, .literal shown' pos' => shown == shown' && pos == pos'
  | .group delim body opening closing, .group delim' body' opening' closing' =>
    delim == delim' && sameAll body body' && opening == opening' && closing == closing'
  | _, _ => false

/-- Whether the tokens of two lists are the same. -/
def sameAll : List Token → List Token → Bool
  | [], [] => true
  | token :: rest, other :: others => same token other && sameAll rest others
  | _, _ => false

end

mutual

theorem same_iff (token other : Token) : same token other = true ↔ token = other := by
  cases token with
  | ident name pos => cases other <;> simp [same]
  | punct c spacing pos => cases other <;> simp [same, and_assoc]
  | literal shown pos => cases other <;> simp [same]
  | group delim body opening closing =>
    cases other with
    | group delim' body' opening' closing' =>
      simp [same, sameAll_iff body body', and_assoc]
    | _ => simp [same]

theorem sameAll_iff (tokens others : List Token) :
    sameAll tokens others = true ↔ tokens = others := by
  cases tokens with
  | nil => cases others <;> simp [sameAll]
  | cons token rest =>
    cases others with
    | nil => simp [sameAll]
    | cons other more => simp [sameAll, same_iff token other, sameAll_iff rest more]

end

instance : DecidableEq Token := fun token other => decidable_of_iff _ (same_iff token other)

/-! ## Tokens without invisible groups -/

theorem openedAll_append (before after : List Token) :
    openedAll (before ++ after) = openedAll before ++ openedAll after := by
  induction before with
  | nil => rfl
  | cons token rest ih => simp [openedAll, ih]

mutual

/-- Places and spacing have no part in what is opened. -/
theorem opened_plain (token : Token) : token.plain.opened = plainAll token.opened := by
  cases token with
  | ident name pos => rfl
  | punct c spacing pos => rfl
  | literal shown pos => rfl
  | group delim body opening closing =>
    have hbody := openedAll_plainAll body
    cases delim <;> simp [plain, opened, plainAll, hbody]

/-- Places and spacing have no part in what is opened. -/
theorem openedAll_plainAll (tokens : List Token) :
    openedAll (plainAll tokens) = plainAll (openedAll tokens) := by
  cases tokens with
  | nil => rfl
  | cons token rest =>
    simp [plainAll, openedAll, plainAll_append, opened_plain token, openedAll_plainAll rest]

end

/-- Tokens without groups that have no delimiters. -/
def Visible (tokens : List Token) : Prop := plainAll (openedAll tokens) = plainAll tokens

namespace Visible

theorem nil : Visible [] := rfl

theorem append {before after : List Token} (h : Visible before) (h' : Visible after) :
    Visible (before ++ after) := by
  rw [Visible, openedAll_append, plainAll_append, plainAll_append, h, h']

theorem wrap {body : List Token} (h : Visible body) {delim : Delim} (hdelim : delim ≠ .invisible) :
    Visible (Grammar.wrap delim body) := by
  have hbody : plainAll (openedAll body) = plainAll body := h
  cases delim <;> simp_all [Visible, Grammar.wrap, openedAll, opened, plainAll, plain]

theorem of_plainAll_eq {tokens others : List Token} (h : Visible others)
    (heq : plainAll tokens = plainAll others) : Visible tokens := by
  rw [Visible, ← openedAll_plainAll, heq, openedAll_plainAll, h]

theorem joined {pieces : List (List Token)} (h : ∀ piece ∈ pieces, Visible piece)
    (trailing : Bool) : Visible (Grammar.joined (Grammar.sign ",") pieces trailing) := by
  have hcomma : Visible (Grammar.sign ",") := rfl
  induction pieces with
  | nil => exact nil
  | cons piece rest ih =>
    obtain ⟨hpiece, hrest⟩ := List.forall_mem_cons.mp h
    cases rest with
    | nil =>
      cases trailing with
      | false => exact hpiece.append nil
      | true => exact hpiece.append hcomma
    | cons next rest => exact (hpiece.append hcomma).append (ih hrest)

end Visible

theorem marksAll_term (name : String) : marksAll (Grammar.term name) = [.ident name] := rfl

theorem marksAll_wrap {delim : Delim} (hdelim : delim ≠ .invisible) (body : List Token) :
    marksAll (Grammar.wrap delim body) =
      .opening delim :: (marksAll body ++ [.closing delim]) := by
  simp [Grammar.wrap, marksAll, marks_group hdelim]

theorem marksAll_comma : marksAll (Grammar.sign ",") = [.punct ','] := rfl

theorem joined_trailing (separator : List Token) (pieces : List (List Token)) :
    Grammar.joined separator pieces true = pieces.flatMap (· ++ separator) := by
  induction pieces with
  | nil => rfl
  | cons piece rest ih =>
    cases rest with
    | nil => simp [Grammar.joined]
    | cons next rest => simp [Grammar.joined, ih]

end Token

/-! ## Words and signs before a text -/

namespace Lexer

variable {cs : List Char} {ms : List Mark}

/-- The characters that end a word in generated code. -/
def wordEnds : List Char := '(' :: ':' :: '{' :: breakers

theorem clear_word (name : String) (hc : c ∈ wordEnds) (cs : List Char) :
    (Mark.ident name).clear (c :: cs) = true := by
  have hends : ∀ d ∈ wordEnds,
      Text.isIdentContinue d = false ∧ d ≠ '"' ∧ d ≠ '#' ∧ d ≠ '\'' :=
    forall_mem_of_all (by decide)
  obtain ⟨hcontinue, hquote, hhash, hchar⟩ := hends c hc
  have hopens : Mark.opensQuote name (c :: cs) = false := by
    unfold Mark.opensQuote
    split <;> simp_all
  simp [Mark.clear, hcontinue, hopens]

theorem Scans.word (hname : (Mark.ident name).Legible) (hc : c ∈ wordEnds) (h : Scans (c :: cs) ms) :
    Scans (name.toList ++ c :: cs) (.ident name :: ms) :=
  Scans.mark hname (clear_word name hc cs) h

/-- A sign that begins neither a comment nor a character. -/
theorem Scans.sign (hc : c ∈ punctuation) (hslash : c ≠ '/') (hquote : c ≠ '\'') (h : Scans cs ms) :
    Scans (c :: cs) (.punct c :: ms) := by
  have hclear : (Mark.punct c).clear cs = true := by simp [Mark.clear, hslash, hquote]
  exact Scans.mark (m := .punct c) hc hclear h

theorem word_head (hname : (Mark.ident name).Legible) (cs : List Char) : (name.toList ++ cs).head? ≠ some '/' := by
  have hletter : ∀ {c : Char}, Text.isIdentStart c = true → c ≠ '/' := by
    rintro c hc rfl
    exact special_not_ident (.inr hc) (by decide)
  rcases hname with hname | ⟨word, hname, -⟩
  · cases hlist : name.toList with
    | nil => simp [hlist, Text.isIdentifier] at hname
    | cons c more =>
      rw [hlist, Text.isIdentifier, Bool.and_eq_true] at hname
      simpa using hletter hname.1
  · simp [hname]

theorem Scans.wordBreaks (hname : (Mark.ident name).Legible) (hbreak : Breaks cs) (h : Scans cs ms) :
    Scans (name.toList ++ cs) (.ident name :: ms) := by
  cases cs with
  | nil => exact Scans.mark hname (by simp [Mark.clear, Mark.opensQuote]) h
  | cons c cs =>
    have hc : c ∈ breakers := hbreak c rfl
    exact Scans.word hname (by simp [wordEnds, hc]) h

theorem Scans.openParen (hhead : cs.head? ≠ some '/') (h : Scans cs ms) :
    Scans ('(' :: cs) (.opening .paren :: ms) := by
  have hclear : (Mark.opening .paren).clear cs = true := by
    cases cs with
    | nil => rfl
    | cons c cs =>
      have hc : c ≠ '/' := by simpa using hhead
      simp [Mark.clear, Lexer.placeholder, List.isPrefixOf_cons_cons, hc.symm]
  exact Scans.mark (m := .opening .paren) Delim.noConfusion hclear h

theorem Scans.closeParen (h : Scans cs ms) : Scans (')' :: cs) (.closing .paren :: ms) :=
  Scans.mark (m := .closing .paren) Delim.noConfusion rfl h

theorem Scans.closeBrace (h : Scans cs ms) : Scans ('}' :: cs) (.closing .brace :: ms) :=
  Scans.mark (m := .closing .brace) Delim.noConfusion rfl h

theorem Scans.openBrace (h : Scans cs ms) : Scans ('{' :: cs) (.opening .brace :: ms) :=
  Scans.mark (m := .opening .brace) Delim.noConfusion rfl h

/-! ## Texts that stand for marks -/

/-- A text that is read as these marks wherever a text follows that breaks. -/
def Stands (cs : List Char) (ms : List Mark) : Prop :=
  ∀ rest after, Breaks rest → Scans rest after → Scans (cs ++ rest) (ms ++ after)

namespace Stands

theorem nil : Stands [] [] := fun _ _ _ h => h

theorem blank (h : Stands cs ms) : Stands (' ' :: cs) ms :=
  fun rest after hbreak hrest => Scans.blank rfl (h rest after hbreak hrest)

theorem indent (h : Stands cs ms) (n : Nat) : Stands (List.replicate n ' ' ++ cs) ms := by
  induction n with
  | zero => exact h
  | succ n ih => exact ih.blank

theorem append {ds : List Char} {ns : List Mark} (h : Stands cs ms) (h' : Stands ds ns)
    (hds : ∀ rest, Breaks rest → Breaks (ds ++ rest)) : Stands (cs ++ ds) (ms ++ ns) := by
  intro rest after hbreak hrest
  rw [List.append_assoc, List.append_assoc]
  exact h _ _ (hds rest hbreak) (h' rest after hbreak hrest)

theorem comma : Stands [','] [.punct ','] :=
  fun _ _ _ hrest => Scans.sign (by decide) (by decide) (by decide) hrest

theorem append_comma (h : Stands cs ms) : Stands (cs ++ [',']) (ms ++ [.punct ',']) :=
  h.append comma fun _ _ => .cons (by decide) _

theorem joined {texts : List (List Char)} {pieces : List Tokens}
    (h : List.Forall₂ (fun cs piece => Stands cs (marksAll piece)) texts pieces) :
    Stands ([',', ' '].intercalate texts)
      (marksAll (Grammar.joined (Grammar.sign ",") pieces false)) := by
  induction h with
  | nil => exact nil
  | @cons cs piece texts pieces hfirst hrest ih =>
    cases hrest with
    | nil => simpa [Grammar.joined] using hfirst
    | cons hnext hmore =>
      intro rest after hbreak hrest
      have htail := ih.blank rest after hbreak hrest
      have hcomma : Scans _ (.punct ',' :: _) :=
        Scans.sign (by decide) (by decide) (by decide) htail
      have hall := hfirst _ _ (.cons (by decide) _) hcomma
      simpa [Grammar.joined, marksAll_append, marksAll_comma, List.intercalate_cons_cons] using hall

/-- A text of marks that stand clear of what follows them in it. -/
theorem of_clear (h : Woven ms cs) (hlegible : ∀ m ∈ ms, m.Legible)
    (hclear : Mark.allClear ms cs = true) : Stands cs ms := by
  induction h with
  | nil => exact nil
  | @space ms cs h ih =>
    rw [Mark.allClear_space] at hclear
    exact (ih hlegible hclear).blank
  | @mark m ms cs h ih =>
    obtain ⟨hm, hms⟩ := List.forall_mem_cons.mp hlegible
    rw [Mark.allClear_mark hm.solid, Bool.and_eq_true] at hclear
    have hrest := ih hms hclear.2
    have hinside : m = .opening .paren → cs ≠ Mark.placeholderInside := by
      rintro - hcs
      have hscan : Scans cs ms := by simpa using hrest [] [] .nil .nil
      have hnone := (hscan .callSite).2
      rw [hcs, lexemes_placeholderInside] at hnone
      have hslashes := h.count_slash
      rw [← hnone, hcs] at hslashes
      exact absurd hslashes (by decide)
    intro rest after hbreak hafter
    rw [List.append_assoc]
    exact Scans.mark hm (Mark.clear_append hbreak hinside hclear.1) (hrest rest after hbreak hafter)

end Stands

/-- Lines that stand for marks are read as these marks one after the other. -/
theorem Scans.rows {rows : List (List Char)} {marks : List (List Mark)}
    (h : List.Forall₂ Stands rows marks) :
    Scans (rows.flatMap (· ++ ['\n'])) marks.flatten := by
  induction h with
  | nil => exact .nil
  | @cons row ms rows marks hrow hrest ih =>
    rw [List.flatMap_cons, List.flatten_cons, List.append_assoc]
    exact hrow _ _ (.cons (by decide) _) (Scans.blank rfl ih)

end Lexer

/-- Tokens whose text is read as they are have a text that stands for them. -/
theorem Tokens.text_stands {tokens again : Tokens} (h : Tokens.read tokens.text = .ok again)
    (hplain : plainAll again = plainAll tokens) : Stands tokens.text.toList (marksAll tokens) := by
  have hmarks : marksAll again = marksAll tokens := by
    rw [← marksAll_plainAll, hplain, marksAll_plainAll]
  have hlegible := Tokens.read_legible h
  rw [hmarks] at hlegible
  have hwoven := Tokens.text_woven fun m hm => (hlegible m hm).solid
  rw [Tokens.read_woven hwoven hlegible] at h
  obtain ⟨hcomplete, hread⟩ := tokensFrom_marks h
  rw [hmarks] at hread
  exact Stands.of_clear hwoven hlegible (clear_of_lexemes hwoven hlegible hcomplete hread.symm)

/-- A closed text stands for the tokens that it is read as. -/
theorem Tokens.read_stands {source : String} {tokens : Tokens}
    (h : Tokens.read source = .ok tokens) (hclosed : closed source.toList = true) :
    Stands source.toList (marksAll tokens) :=
  fun _ _ hbreak hrest => Tokens.read_append h hclosed hbreak hrest

end Fieldwise
