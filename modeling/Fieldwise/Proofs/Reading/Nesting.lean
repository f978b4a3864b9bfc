import Mathlib.Data.List.Forall2
import Fieldwise.Proofs.Reading.Pieces

/-!
# Nesting marks into trees

Token trees and the sequence of their marks determine each other, up to positions, the spacing of
punctuation, and groups without delimiters. Nesting the pieces of a text keeps their marks; and the pieces that
show the marks of some trees nest into these trees.
-/

namespace Fieldwise

namespace Token

mutual

/-- A token without its place and without the spacing of its punctuation. -/
def plain : Token → Token
  | .ident name _ => .ident name .callSite
  | .punct c _ _ => .punct c .alone .callSite
  | .literal shown _ => .literal shown .callSite
  | .group delim body _ _ => .group delim (plainAll body) .callSite .callSite

/-- Tokens without their places and without the spacing of their punctuation. -/
def plainAll : List Token → List Token
  | [] => []
  | token :: rest => token.plain :: plainAll rest

end

mutual

/-- The tokens that take the place of a token when groups without delimiters are opened. -/
def opened : Token → List Token
  | .group .invisible body _ _ => openedAll body
  | .group delim body opening closing => [.group delim (openedAll body) opening closing]
  | token => [token]

/-- Tokens with their groups without delimiters opened. -/
def openedAll : List Token → List Token
  | [] => []
  | token :: rest => token.opened ++ openedAll rest

end

theorem plainAll_append (before after : List Token) :
    plainAll (before ++ after) = plainAll before ++ plainAll after := by
  induction before with
  | nil => rfl
  | cons token rest ih => simp [plainAll, ih]

theorem marksAll_append (before after : List Token) :
    marksAll (before ++ after) = marksAll before ++ marksAll after := by
  induction before with
  | nil => rfl
  | cons token rest ih => simp [marksAll, ih]

mutual

theorem marks_plain (token : Token) : token.plain.marks = token.marks := by
  cases token with
  | ident name pos => rfl
  | punct c spacing pos => rfl
  | literal shown pos => rfl
  | group delim body opening closing =>
    have hbody := marksAll_plainAll body
    cases delim <;> simp [plain, marks, hbody]

theorem marksAll_plainAll (tokens : List Token) : marksAll (plainAll tokens) = marksAll tokens := by
  cases tokens with
  | nil => rfl
  | cons token rest => simp [plainAll, marksAll, marks_plain token, marksAll_plainAll rest]

end

mutual

/-- Opening a group without delimiters keeps the marks. -/
theorem marksAll_opened (token : Token) : marksAll token.opened = token.marks := by
  cases token with
  | ident name pos => rfl
  | punct c spacing pos => rfl
  | literal shown pos => rfl
  | group delim body opening closing =>
    have hbody := marksAll_openedAll body
    cases delim <;> simp [opened, marks, marksAll, hbody]

/-- Opening groups without delimiters keeps the marks. -/
theorem marksAll_openedAll (tokens : List Token) :
    marksAll (openedAll tokens) = marksAll tokens := by
  cases tokens with
  | nil => rfl
  | cons token rest =>
    simp [openedAll, marksAll, marksAll_append, marksAll_opened token, marksAll_openedAll rest]

end

end Token

namespace Lexer

open Token

/-! ## From pieces to trees -/

/-- The marks before the innermost open group. -/
def marksBefore : List Frame → List Mark
  | [] => []
  | frame :: stack =>
    marksBefore stack ++ marksAll frame.before.reverse ++ [.opening frame.delim]

/-- Nesting keeps the marks of the pieces, and it succeeds only on texts that were read to their end. -/
theorem nest_marks {bad : Option Pos} {stack : List Frame} {done : List Token}
    {found : List Lexeme} {tokens : Tokens} (hstack : ∀ frame ∈ stack, frame.delim ≠ .invisible)
    (hfound : ∀ mark ∈ marksOf found, mark.Legible)
    (h : nest bad stack done found = .ok tokens) :
    bad = none ∧
      marksAll tokens = marksBefore stack ++ marksAll done.reverse ++ marksOf found := by
  induction found generalizing stack done with
  | nil =>
    unfold nest at h
    split at h
    · contradiction
    · contradiction
    · cases h
      simp [marksBefore]
  | cons x rest ih =>
    have hrest : ∀ mark ∈ marksOf rest, mark.Legible := fun mark hmem =>
      hfound mark (by rw [show x :: rest = [x] ++ rest from rfl, marksOf_append]; simp [hmem])
    cases x with
    | leaf token =>
      rw [nest] at h
      obtain ⟨hbad, hmarks⟩ := ih hstack hrest h
      refine ⟨hbad, ?_⟩
      rw [hmarks]
      simp [marksAll_append, marksAll, marksOf, Lexeme.marks]
    | opening delim pos =>
      have hdelim : delim ≠ .invisible := hfound (.opening delim) (by simp [marksOf, Lexeme.marks])
      rw [nest] at h
      obtain ⟨hbad, hmarks⟩ := ih (by simpa [hdelim] using hstack) hrest h
      refine ⟨hbad, ?_⟩
      rw [hmarks]
      simp [marksBefore, marksAll, marksOf, Lexeme.marks]
    | closing delim pos =>
      cases stack with
      | nil => simp [nest] at h
      | cons frame stack =>
        rw [nest] at h
        split at h
        · rename_i hdelim
          obtain ⟨hvisible, hstack⟩ := List.forall_mem_cons.mp hstack
          obtain ⟨hbad, hmarks⟩ := ih hstack hrest h
          refine ⟨hbad, ?_⟩
          rw [hmarks]
          rw [hdelim] at hvisible
          simp [marksBefore, marksAll_append, marksAll, marks_group hvisible, marksOf,
            Lexeme.marks, hdelim]
        · contradiction

/-! ## From trees to pieces -/

mutual

/-- Pieces that show the marks of a token nest into the tokens that take its place. -/
theorem nest_token (token : Token) {found : List Lexeme}
    (h : List.Forall₂ Shows found token.marks) (bad : Option Pos) (stack : List Frame)
    (done : List Token) (rest : List Lexeme) :
    ∃ again, nest bad stack done (found ++ rest) = nest bad stack (again.reverse ++ done) rest ∧
      plainAll again = plainAll token.opened := by
  cases token with
  | ident name pos =>
    obtain ⟨x, more, hx, hmore, rfl⟩ := List.forall₂_cons_right_iff.mp h
    cases List.forall₂_nil_right_iff.mp hmore
    cases hx with
    | ident _ pos' => exact ⟨[.ident name pos'], rfl, rfl⟩
  | punct c spacing pos =>
    obtain ⟨x, more, hx, hmore, rfl⟩ := List.forall₂_cons_right_iff.mp h
    cases List.forall₂_nil_right_iff.mp hmore
    cases hx with
    | punct _ spacing' pos' => exact ⟨[.punct c spacing' pos'], rfl, rfl⟩
  | literal shown pos =>
    obtain ⟨x, more, hx, hmore, rfl⟩ := List.forall₂_cons_right_iff.mp h
    cases List.forall₂_nil_right_iff.mp hmore
    cases hx with
    | literal _ pos' => exact ⟨[.literal shown pos'], rfl, rfl⟩
  | group delim body opening closing =>
    by_cases hdelim : delim = .invisible
    · subst hdelim
      exact nest_tokens body h bad stack done rest
    · rw [marks_group hdelim] at h
      obtain ⟨x, more, hx, hmore, rfl⟩ := List.forall₂_cons_right_iff.mp h
      have hinside := List.forall₂_take_append _ _ _ hmore
      have hlast := List.forall₂_drop_append _ _ _ hmore
      generalize hn : (marksAll body).length = n at hinside hlast
      obtain ⟨y, last, hy, hend, hdrop⟩ := List.forall₂_cons_right_iff.mp hlast
      cases List.forall₂_nil_right_iff.mp hend
      have hsplit : more = more.take n ++ [y] := by
        rw [← hdrop, List.take_append_drop]
      cases hx with
      | opening _ start =>
        cases hy with
        | closing _ stop =>
          obtain ⟨again, hnest, hplain⟩ := nest_tokens body hinside bad
            (⟨delim, start, done⟩ :: stack) [] (.closing delim stop :: rest)
          refine ⟨[.group delim again start stop], ?_, ?_⟩
          · rw [hsplit]
            simp only [List.cons_append, List.append_assoc, List.nil_append]
            rw [nest, hnest, nest]
            simp
          · cases delim <;> simp [opened, plainAll, plain, hplain] at hdelim ⊢

/-- Pieces that show the marks of tokens nest into these tokens with their groups without delimiters
opened. -/
theorem nest_tokens (tokens : List Token) {found : List Lexeme}
    (h : List.Forall₂ Shows found (marksAll tokens)) (bad : Option Pos) (stack : List Frame)
    (done : List Token) (rest : List Lexeme) :
    ∃ again, nest bad stack done (found ++ rest) = nest bad stack (again.reverse ++ done) rest ∧
      plainAll again = plainAll (openedAll tokens) := by
  cases tokens with
  | nil =>
    cases List.forall₂_nil_right_iff.mp h
    exact ⟨[], rfl, rfl⟩
  | cons token tokens =>
    have hfirst := List.forall₂_take_append _ _ _ h
    have hmore := List.forall₂_drop_append _ _ _ h
    generalize token.marks.length = n at hfirst hmore
    obtain ⟨again, hnest, hplain⟩ := nest_token token hfirst bad stack done (found.drop n ++ rest)
    obtain ⟨more, hnest', hplain'⟩ :=
      nest_tokens tokens hmore bad stack (again.reverse ++ done) rest
    refine ⟨again ++ more, ?_, ?_⟩
    · rw [← List.take_append_drop n found, List.append_assoc, hnest, hnest']
      simp
    · rw [openedAll, plainAll_append, plainAll_append, hplain, hplain']

end

end Lexer

end Fieldwise
