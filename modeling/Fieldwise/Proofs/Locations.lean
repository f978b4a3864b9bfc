import Fieldwise.Proofs.Reading.Pieces
import Fieldwise.Proofs.SimulationValues

/-!
# Where errors point

The tokens of a text stand at places of that text. A parser cannot make up places: what it returns, and the error
that it fails with, stands at a place of the tokens that it was given, or at the call site. This follows from the
fact that parsing commutes with every shift: a shift that leaves the tokens where they are leaves the outcome where
it is.
-/

namespace Fieldwise

open Fieldwise.Grammar Fieldwise.Token Fieldwise.Lexer

variable {pos : Pos} {tokens : Tokens}

/-! ## Places of tokens -/

namespace Token

mutual

/-- The places of a token and of what is in it. -/
def places : Token → List Pos
  | ident _ pos => [pos]
  | punct _ _ pos => [pos]
  | literal _ pos => [pos]
  | group _ body opening closing => opening :: closing :: placesAll body

/-- The places of some tokens and of what is in them. -/
def placesAll : List Token → List Pos
  | [] => []
  | token :: rest => token.places ++ placesAll rest

end

theorem mem_placesAll : pos ∈ placesAll tokens ↔ ∃ token ∈ tokens, pos ∈ token.places := by
  induction tokens with
  | nil => simp [placesAll]
  | cons token rest ih => simp [placesAll, ih]

end Token

/-! ## Places in a text -/

/-- A place in a text: the one after some of its first characters. -/
def Pos.Within (text : List Char) (pos : Pos) : Prop := ∃ n, pos = Pos.callSite.advance (text.take n)

theorem Pos.line_le_advance (pos : Pos) (text : List Char) : pos.line ≤ (pos.advance text).line := by
  induction text generalizing pos with
  | nil => exact Nat.le_refl _
  | cons c rest ih =>
    refine Nat.le_trans ?_ (ih (pos.next c))
    unfold Pos.next
    split <;> simp

theorem Pos.Within.line_pos {text : List Char} (h : pos.Within text) : 0 < pos.line := by
  obtain ⟨n, rfl⟩ := h
  exact Pos.line_le_advance Pos.callSite (text.take n)

/-- The places of a piece of a text. -/
def Lexer.Lexeme.places : Lexeme → List Pos
  | .opening _ pos => [pos]
  | .closing _ pos => [pos]
  | .leaf token => token.places

theorem leaf_places {cs : List Char} {n : Nat} {token : Token} (h : leaf? pos cs = some (n, token)) :
    token.places = [pos] := by
  unfold leaf? at h
  split at h
  · cases h
    rfl
  · split at h
    · rename_i found hpunct
      cases h
      obtain ⟨c, spacing, rest, -, rfl, -⟩ := punct_eq_some hpunct
      rfl
    · split at h
      · cases h
        rfl
      · split at h
        · contradiction
        · obtain ⟨k, -, hpair⟩ := Option.map_eq_some_iff.mp h
          cases hpair
          rfl

/-- A piece stands where it begins; only the end of a comment is further on. -/
theorem piece_places {cs : List Char} {n : Nat} {found : List Lexeme} (h : piece? pos cs = some (n, found)) :
    ∃ k, ∀ lexeme ∈ found, ∀ at_ ∈ lexeme.places, at_ = pos ∨ at_ = pos.advance (cs.take k) := by
  unfold piece? at h
  split at h
  · contradiction
  · split at h
    · cases h
      exact ⟨0, by simp⟩
    · split at h
      · cases h
        exact ⟨0, by simp⟩
      · split at h
        · rename_i doc hdoc
          cases h
          refine ⟨doc.length - 1, ?_⟩
          unfold docTokens
          cases doc.inner <;> simp [Lexeme.places, places, placesAll]
        · refine ⟨0, ?_⟩
          split at h
          · cases h
            simp [Lexeme.places]
          · split at h
            · cases h
              simp [Lexeme.places]
            · obtain ⟨⟨k, token⟩, hleaf, hpair⟩ := Option.map_eq_some_iff.mp h
              cases hpair
              simp [Lexeme.places, leaf_places hleaf]

/-- The pieces of a text stand in it, and so does the place at which none begins. -/
theorem lexemes_places (pos : Pos) (cs : List Char) :
    (∀ lexeme ∈ (lexemes pos cs).1, ∀ at_ ∈ lexeme.places, ∃ k, at_ = pos.advance (cs.take k)) ∧
      ∀ at_ ∈ (lexemes pos cs).2, ∃ k, at_ = pos.advance (cs.take k) := by
  fun_induction lexemes pos cs with
  | case1 => simp
  | case2 pos c rest hpiece =>
    refine ⟨by simp, ?_⟩
    rintro at_ ⟨⟩
    exact ⟨0, rfl⟩
  | case3 pos c rest found hpiece =>
    refine ⟨by simp, ?_⟩
    rintro at_ ⟨⟩
    exact ⟨0, rfl⟩
  | case4 pos c rest n found hpiece more bad hmore ih =>
    -- A place in the rest is so many characters further on in the whole.
    have hfurther : ∀ {at_ : Pos}, (∃ k, at_ = (pos.advance (c :: rest.take n)).advance ((rest.drop n).take k)) →
        ∃ k, at_ = pos.advance ((c :: rest).take k) := by
      rintro at_ ⟨k, rfl⟩
      refine ⟨n + 1 + k, ?_⟩
      rw [← Pos.advance_append, List.take_add]
      rfl
    rw [hmore] at ih
    refine ⟨?_, fun at_ hat => hfurther (ih.2 at_ hat)⟩
    intro lexeme hlexeme at_ hat
    rcases List.mem_append.mp hlexeme with hfound | hmem
    · obtain ⟨k, hplaces⟩ := piece_places hpiece
      rcases hplaces lexeme hfound at_ hat with rfl | rfl
      · exact ⟨0, rfl⟩
      · exact ⟨k, rfl⟩
    · exact hfurther (ih.1 lexeme hmem at_ hat)

/-- The places of tokens that were read, or the place where reading failed, are such places. -/
def Standing (P : Pos → Prop) : Except Pos Tokens → Prop
  | .ok tokens => ∀ pos ∈ placesAll tokens, P pos
  | .error pos => P pos

theorem Standing.mono {P Q : Pos → Prop} {result : Except Pos Tokens} (h : Standing P result)
    (hweak : ∀ pos, P pos → Q pos) : Standing Q result := by
  cases result with
  | ok tokens => exact fun pos hpos => hweak pos (h pos hpos)
  | error pos => exact hweak pos h

theorem nest_places {P : Pos → Prop} {bad : Option Pos} {stack : List Frame} {done : List Token}
    {found : List Lexeme} (hbad : ∀ pos ∈ bad, P pos)
    (hstack : ∀ frame ∈ stack, P frame.opening ∧ ∀ pos ∈ placesAll frame.before, P pos)
    (hdone : ∀ pos ∈ placesAll done, P pos)
    (hfound : ∀ lexeme ∈ found, ∀ pos ∈ lexeme.places, P pos) :
    Standing P (nest bad stack done found) := by
  have hreverse : ∀ {tokens : Tokens} {pos : Pos}, pos ∈ placesAll tokens.reverse ↔ pos ∈ placesAll tokens := by
    intro tokens pos
    simp only [mem_placesAll, List.mem_reverse]
  induction found generalizing stack done with
  | nil =>
    unfold nest
    rcases bad with _ | pos
    · rcases stack with _ | ⟨frame, stack⟩
      · exact fun pos hpos => hdone pos (hreverse.mp hpos)
      · exact (hstack frame (by simp)).1
    · exact hbad pos rfl
  | cons lexeme rest ih =>
    obtain ⟨hfirst, hrest⟩ := List.forall_mem_cons.mp hfound
    cases lexeme with
    | leaf token =>
      rw [nest]
      refine ih hstack ?_ hrest
      intro pos hpos
      rcases List.mem_append.mp hpos with hpos | hpos
      · exact hfirst pos hpos
      · exact hdone pos hpos
    | opening delim pos =>
      rw [nest]
      refine ih (List.forall_mem_cons.mpr ⟨⟨hfirst pos (by simp [Lexeme.places]), hdone⟩, hstack⟩) ?_ hrest
      simp [placesAll]
    | closing delim pos =>
      have hpos : P pos := hfirst pos (by simp [Lexeme.places])
      rcases stack with _ | ⟨frame, stack⟩
      · exact hpos
      rw [nest]
      split
      · obtain ⟨hframe, hstack⟩ := List.forall_mem_cons.mp hstack
        refine ih hstack ?_ hrest
        intro at_ hat
        simp only [placesAll, places, List.cons_append, List.mem_cons, List.mem_append, hreverse] at hat
        rcases hat with rfl | rfl | hat | hat
        · exact hframe.1
        · exact hpos
        · exact hdone at_ hat
        · exact hframe.2 at_ hat
      · exact hpos

theorem tokensFrom_places (pos : Pos) (cs : List Char) :
    Standing (fun at_ => ∃ k, at_ = pos.advance (cs.take k)) (tokensFrom pos cs) := by
  obtain ⟨hfound, hbad⟩ := lexemes_places pos cs
  exact nest_places hbad (by simp) (by simp [placesAll]) hfound

/-- The tokens of a text stand in it, and so does the place where it is no sequence of tokens. -/
theorem read_places (source : String) :
    Standing (Pos.Within source.toList) (Tokens.read source) := by
  unfold Tokens.read
  split
  · rename_i rest hsource
    refine (tokensFrom_places (Pos.callSite.next '\ufeff') rest).mono ?_
    rintro pos ⟨k, rfl⟩
    exact ⟨k + 1, by rw [hsource]; rfl⟩
  · exact tokensFrom_places Pos.callSite source.toList

/-! ## What a shift leaves where it is -/

namespace Shift

variable {α β : Type} [HasPlaces α] [HasPlaces β] {w : Shift}

/-- The shift leaves it where it is. -/
def Fixes (w : Shift) (a : α) : Prop := retouch w.toRetouch a = a

theorem Fixes.mem {list : List α} (h : w.Fixes list) {a : α} (ha : a ∈ list) : w.Fixes a := by
  induction list with
  | nil => contradiction
  | cons first rest ih =>
    obtain ⟨hfirst, hrest⟩ := List.cons.inj h
    rcases List.mem_cons.mp ha with rfl | ha
    · exact hfirst
    · exact ih hrest ha

mutual

theorem place_of_token {token : Token} (h : w.Fixes token) {pos : Pos} (hpos : pos ∈ token.places) :
    w.place pos = pos := by
  match token with
  | .ident name at_ =>
    rw [places, List.mem_singleton] at hpos
    exact hpos ▸ (Token.ident.inj h).2
  | .punct c spacing at_ =>
    rw [places, List.mem_singleton] at hpos
    exact hpos ▸ (Token.punct.inj h).2.2
  | .literal text at_ =>
    rw [places, List.mem_singleton] at hpos
    exact hpos ▸ (Token.literal.inj h).2
  | .group delim body opening closing =>
    rw [Fixes, retouch_group] at h
    obtain ⟨-, hbody, hopening, hclosing⟩ := Token.group.inj h
    rw [places, List.mem_cons, List.mem_cons] at hpos
    rcases hpos with rfl | rfl | hpos
    · exact hopening
    · exact hclosing
    · exact place_of_tokens hbody hpos

/-- A shift that leaves tokens where they are leaves all their places. -/
theorem place_of_tokens {tokens : Tokens} (h : w.Fixes tokens) {pos : Pos}
    (hpos : pos ∈ placesAll tokens) : w.place pos = pos := by
  match tokens with
  | [] => simp [placesAll] at hpos
  | token :: rest =>
    obtain ⟨hfirst, hrest⟩ := List.cons.inj h
    rcases List.mem_append.mp hpos with hpos | hpos
    · exact place_of_token hfirst hpos
    · exact place_of_tokens hrest hpos

end

/-- The shift that takes one place to the call site. -/
def without (pos : Pos) : Shift where
  place at_ := if at_ = pos then .callSite else at_
  space := id
  callSite := by split <;> rfl
  spacing _ := rfl

mutual

theorem without_fixes_token {pos : Pos} {token : Token} (h : pos ∉ token.places) :
    (without pos).Fixes token := by
  have hkept : ∀ {at_}, at_ ∈ token.places → (without pos).place at_ = at_ := by
    intro at_ hat
    have hne : at_ ≠ pos := fun heq => h (heq ▸ hat)
    exact if_neg hne
  match token with
  | .ident name at_ => rw [Fixes, retouch_ident, hkept (by simp [places])]
  | .punct c spacing at_ => rw [Fixes, retouch_punct, hkept (by simp [places]), (without pos).spacing]
  | .literal text at_ => rw [Fixes, retouch_literal, hkept (by simp [places])]
  | .group delim body opening closing =>
    have hbody : (without pos).Fixes body := without_fixes (by simp_all [places])
    rw [Fixes, retouch_group, hkept (by simp [places]), hkept (by simp [places]), hbody]

/-- A place that is none of the places of tokens can be taken away without moving them. -/
theorem without_fixes {pos : Pos} {tokens : Tokens} (h : pos ∉ placesAll tokens) :
    (without pos).Fixes tokens := by
  match tokens with
  | [] => rfl
  | token :: rest =>
    rw [placesAll, List.mem_append, not_or] at h
    rw [Fixes, retouch_cons, without_fixes_token h.1, without_fixes h.2]

end

/-- A place is one of the places of tokens, or the call site, if no shift moves it that leaves the tokens where they
are. -/
theorem mem_placesAll_of_fixed (h : ∀ w : Shift, w.Fixes tokens → w.place pos = pos) :
    pos = .callSite ∨ pos ∈ placesAll tokens := by
  by_contra hno
  rw [not_or] at hno
  have hplace : (without pos).place pos = .callSite := if_pos rfl
  exact hno.1 (((h _ (without_fixes hno.2)).symm.trans hplace))

end Shift

/-! ## What a parser makes of tokens -/

namespace Grammar

variable {α : Type} [HasPlaces α] {w : Shift} {p : Tokens → Except SyntaxError α}

/-- What is parsed from tokens stays where it is with them. -/
theorem fixes_of_parse (hp : ∀ tokens, p (retouch w.toRetouch tokens) = retouch w.toRetouch (p tokens))
    (hfix : w.Fixes tokens) {found : α} (h : p tokens = .ok found) : w.Fixes found := by
  have hmoved := hp tokens
  rw [hfix, h] at hmoved
  exact (Except.ok.inj hmoved).symm

theorem place_of_parse_error (hp : ∀ tokens, p (retouch w.toRetouch tokens) = retouch w.toRetouch (p tokens))
    (hfix : w.Fixes tokens) {error : SyntaxError} (h : p tokens = .error error) : w.place error.pos = error.pos := by
  have hmoved := hp tokens
  rw [hfix, h] at hmoved
  exact (congrArg SyntaxError.pos (Except.error.inj hmoved)).symm

/-- The error that a text fails with points into the text. -/
theorem parseText_error_within
    (hp : ∀ (w : Shift) tokens, p (retouch w.toRetouch tokens) = retouch w.toRetouch (p tokens))
    {text : String} {error : SyntaxError} (h : parseText p text = .error error) :
    error.pos.Within text.toList := by
  have hread := read_places text
  unfold parseText at h
  split at h
  · rename_i tokens htokens
    rw [htokens] at hread
    have hplace := Shift.mem_placesAll_of_fixed fun w hfix => place_of_parse_error (hp w) hfix h
    rcases hplace with hsite | hmem
    · exact ⟨0, hsite⟩
    · exact hread error.pos hmem
  · rename_i pos hpos
    rw [hpos] at hread
    cases h
    exact hread

end Grammar

end Fieldwise
