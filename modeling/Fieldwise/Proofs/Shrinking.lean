import Fieldwise.Proofs.Parsing
import Fieldwise.Proofs.Reading.Nesting
import Fieldwise.Value

/-!
# Parsers take from the front

A parser leaves the end of what it was given: the marks of the tokens that are left are the last ones, and
counting the tokens inside groups there are no more than before. `Shrinks` states this of a parser and is a
class, so it is found for a rule of the grammar from the steps that the rule is made of. The rules that come
back to themselves are types and bounds; what stands inside a group has no say, since the group as a whole is
taken.
-/

namespace Fieldwise.Grammar

open Fieldwise.Grammar.Parser Fieldwise.Token

-- A rule of the grammar is one long term, and the search goes through all of its steps.
set_option synthInstance.maxSize 1024

variable {α β : Type}

variable {p : Parser α} {tokens rest : Tokens}

/-! ## Opening invisible groups -/

theorem sizeAll_append (left right : Tokens) :
    sizeAll (left ++ right) = sizeAll left + sizeAll right := by
  induction left with
  | nil => simp [sizeAll]
  | cons token rest ih => simp [sizeAll, ih, Nat.add_assoc]

mutual

theorem sizeAll_openToken {token : Token} {rest found : Tokens}
    (h : openToken token rest = some found) : sizeAll found ≤ size token + sizeAll rest := by
  match token with
  | .group .invisible body _ _ =>
    have hbody : sizeAll found ≤ sizeAll body + sizeAll rest := sizeAll_openTokens h
    simp only [size]
    omega
  | .group .paren _ _ _ | .group .bracket _ _ _ | .group .brace _ _ _ | .ident _ _ |
    .punct _ _ _ | .literal _ _ =>
    simp only [openToken, Option.some.injEq] at h
    simp [← h, sizeAll]

/-- Opening up the first token with visible content adds none. -/
theorem sizeAll_openTokens {tokens rest found : Tokens}
    (h : openTokens tokens rest = some found) : sizeAll found ≤ sizeAll tokens + sizeAll rest := by
  match tokens with
  | [] => simp [openTokens] at h
  | token :: more =>
    simp only [openTokens] at h
    simp only [sizeAll]
    split at h
    · rename_i opened hopen
      obtain rfl := Option.some.inj h
      have htoken := sizeAll_openToken hopen
      rw [sizeAll_append] at htoken
      omega
    · have hmore := sizeAll_openTokens h
      omega

end

theorem sizeAll_bare (tokens : Tokens) : sizeAll (bare tokens) ≤ sizeAll tokens := by
  unfold bare
  cases h : openTokens tokens [] with
  | none => simp [sizeAll]
  | some found => simpa [sizeAll] using sizeAll_openTokens h

mutual

/-- Opening up a token keeps its marks; one that cannot be opened up has none. -/
theorem marks_openToken (token : Token) (rest : Tokens) :
    ((openToken token rest).map marksAll).getD (marksAll rest) = token.marks ++ marksAll rest := by
  match token with
  | .group .invisible body _ _ => exact marks_openTokens body rest
  | .group .paren _ _ _ | .group .bracket _ _ _ | .group .brace _ _ _ | .ident _ _ |
    .punct _ _ _ | .literal _ _ => rfl

/-- Opening up the first token with visible content keeps all marks; without such a token there are none. -/
theorem marks_openTokens (tokens rest : Tokens) :
    ((openTokens tokens rest).map marksAll).getD (marksAll rest) =
      marksAll tokens ++ marksAll rest := by
  match tokens with
  | [] => rfl
  | token :: more =>
    have htoken := marks_openToken token (more ++ rest)
    have hmore := marks_openTokens more rest
    simp only [openTokens, marksAll, List.append_assoc]
    rw [marksAll_append] at htoken
    cases hopen : openToken token (more ++ rest) with
    | some found => simpa [hopen] using htoken
    | none =>
      have hnone : token.marks = [] := by simpa [hopen] using htoken
      rw [hnone]
      exact hmore

end

theorem marksAll_bare (tokens : Tokens) : marksAll (bare tokens) = marksAll tokens := by
  have hopen := marks_openTokens tokens []
  unfold bare
  cases h : openTokens tokens [] with
  | none => simpa [h, marksAll] using hopen
  | some found => simpa [h, marksAll] using hopen

/-- What follows the first visible token has fewer tokens. -/
theorem sizeAll_of_bare {token : Token} (h : bare tokens = token :: rest) : sizeAll rest < sizeAll tokens := by
  have hbare := sizeAll_bare tokens
  have htoken : 0 < size token := by cases token <;> simp [size]
  rw [h, sizeAll] at hbare
  omega

/-- Tokens that remain of others: no more of them, and the last marks. -/
structure Remains (left given : Tokens) : Prop where
  /-- There are no more of them. -/
  le : sizeAll left ≤ sizeAll given
  /-- They have the last marks. -/
  marks : marksAll left <:+ marksAll given

theorem Remains.refl (tokens : Tokens) : Remains tokens tokens :=
  ⟨Nat.le_refl _, List.suffix_refl _⟩

theorem Remains.trans {left middle given : Tokens} (h : Remains left middle)
    (h' : Remains middle given) : Remains left given :=
  ⟨Nat.le_trans h.le h'.le, h.marks.trans h'.marks⟩

theorem Remains.cons (token : Token) (rest : Tokens) : Remains rest (token :: rest) := by
  refine ⟨?_, ?_⟩
  · rw [sizeAll]
    omega
  · exact List.suffix_append _ _

theorem Remains.of_bare {token : Token} (h : bare tokens = token :: rest) : Remains rest tokens := by
  refine ⟨Nat.le_of_lt (sizeAll_of_bare h), ?_⟩
  rw [← marksAll_bare tokens, h]
  exact List.suffix_append _ _

theorem remains_dropOp {cs : List Char} (h : dropOp cs tokens = some rest) : Remains rest tokens := by
  induction cs generalizing tokens with
  | nil =>
    cases h
    exact .refl _
  | cons c more ih =>
    simp only [dropOp] at h
    split at h
    · rename_i hbare
      have hremains := Remains.of_bare hbare
      split at h
      · split at h
        · cases h
          exact hremains
        · split at h
          · exact (ih h).trans hremains
          · simp at h
      · simp at h
    · simp at h

theorem remains_lit? {found : Lit} (h : lit? tokens = some (found, rest)) : Remains rest tokens := by
  unfold lit? at h
  split at h
  · rename_i hbare
    cases h
    exact .of_bare hbare
  · rename_i hbare
    split at h
    · cases h
      exact .of_bare hbare
    · simp at h
  · rename_i hbare
    split at h
    · rename_i hnumber
      simp only [Option.map_eq_some_iff, Prod.mk.injEq] at h
      obtain ⟨kind, -, -, rfl⟩ := h
      exact (Remains.of_bare hnumber).trans (.of_bare hbare)
    · simp at h
  · simp at h

theorem anyIdent_bare {s t : Stream} {name : Ident} (h : anyIdent s = .ok (name, t)) :
    ∃ token, bare s.tokens = token :: t.tokens := by
  grind [anyIdent, Parser.fail]

/-! ## Parsers and their combinators -/

/-- The parser leaves the end of what it was given. -/
class Shrinks (p : Parser α) : Prop where
  /-- What is left. -/
  remains : ∀ s a t, p s = .ok (a, t) → Remains t.tokens s.tokens

namespace Shrinks

/-- The parser leaves no more tokens than it was given. -/
theorem le (hp : Shrinks p) (s : Stream) (a : α) (t : Stream) (h : p s = .ok (a, t)) :
    sizeAll t.tokens ≤ sizeAll s.tokens := (hp.remains s a t h).le

theorem of_same (h : ∀ s a t, p s = .ok (a, t) → t.tokens = s.tokens) :
    Shrinks p where
  remains s a t ha := by
    rw [h s a t ha]
    exact .refl _

theorem of_bare (h : ∀ s a t, p s = .ok (a, t) → ∃ token, bare s.tokens = token :: t.tokens) : Shrinks p where
  remains s a t ha := by
    obtain ⟨token, hbare⟩ := h s a t ha
    exact .of_bare hbare

/-- A parser that takes the first token, visible or not. -/
theorem of_cons (h : ∀ s a t, p s = .ok (a, t) → ∃ token, s.tokens = token :: t.tokens) : Shrinks p where
  remains s a t ha := by
    obtain ⟨token, htokens⟩ := h s a t ha
    rw [htokens]
    exact .cons token _

theorem of_error (h : ∀ s, ∃ e, p s = .error e) : Shrinks p where
  remains s a t ha := by
    obtain ⟨e, he⟩ := h s
    simp [he] at ha

instance pure (a : α) : Shrinks (Pure.pure a : Parser α) :=
  of_same fun s b t h => by rw [(pure_eq_ok.mp h).2]

theorem andThen {f : α → Parser β} (hp : Shrinks p) (hf : ∀ a, Shrinks (f a)) :
    Shrinks (p >>= f) where
  remains s b t h := by
    obtain ⟨a, m, ha, hb⟩ := bind_eq_ok.mp h
    exact ((hf a).remains m b t hb).trans (hp.remains s a m ha)

instance bind (p : Parser α) (f : α → Parser β) [hp : Shrinks p] [hf : ∀ a, Shrinks (f a)] :
    Shrinks (p >>= f) := andThen hp hf

instance map (f : α → β) (p : Parser α) [Shrinks p] : Shrinks (f <$> p) :=
  inferInstanceAs (Shrinks (p >>= fun a => Pure.pure (f a)))

theorem orElse {c : Prop} [Decidable c] {q : Parser α} (hp : Shrinks p) (hq : Shrinks q) :
    Shrinks (if c then p else q) := by
  by_cases hc : c
  · simpa only [if_pos hc] using hp
  · simpa only [if_neg hc] using hq

instance ite (c : Prop) [Decidable c] (p q : Parser α) [hp : Shrinks p] [hq : Shrinks q] :
    Shrinks (if c then p else q) := orElse hp hq

instance look (test : Tokens → Bool) : Shrinks (Parser.look test) :=
  of_same fun s b t h => by rw [(look_eq_ok.mp h).2]

instance get : Shrinks (MonadState.get : Parser Stream) :=
  of_same fun s a t h => by
    cases h
    rfl

instance here : Shrinks Parser.here := inferInstanceAs (Shrinks (_ >>= _))

instance rounds : Shrinks Parser.rounds := inferInstanceAs (Shrinks (_ >>= _))

instance since (before : Stream) : Shrinks (Parser.since before) :=
  of_same fun s a t h => by
    cases h
    rfl

instance failAt (pos : Pos) (cause : Cause) : Shrinks (Parser.failAt pos cause : Parser α) :=
  of_error fun _ => ⟨_, rfl⟩

instance failHere (cause : Cause) : Shrinks (Parser.failHere cause : Parser α) :=
  of_error fun _ => ⟨_, rfl⟩

instance fail (cause : Cause) : Shrinks (Parser.fail cause : Parser α) :=
  of_error fun _ => ⟨_, rfl⟩

instance expected (names : List String) : Shrinks (Parser.expected names : Parser α) :=
  fail (.expected names)

instance violated (rule : String) : Shrinks (Parser.violated rule : Parser α) :=
  fail (.violated rule)

instance op (text : String) : Shrinks (Parser.op text) where
  remains s a t h := by
    unfold Parser.op at h
    split at h
    · rename_i rest hdrop
      cases h
      exact remains_dropOp hdrop
    · simp at h

instance tree : Shrinks Parser.tree :=
  of_cons fun s a t h => by grind [Parser.tree, Parser.fail]

/-- A group is taken whole, whatever its inside is parsed with. -/
instance within (delim : Delim) (p : Parser α) : Shrinks (Parser.within delim p) :=
  of_bare fun s a t h => by grind [Parser.within, Parser.fail]

instance enclosed (delim : Delim) (p : Parser Tokens) : Shrinks (Parser.enclosed delim p) :=
  inferInstanceAs (Shrinks (_ >>= _))

instance anyIdent : Shrinks Parser.anyIdent :=
  of_bare fun _ _ _ h => anyIdent_bare h

instance ident : Shrinks Parser.ident :=
  of_bare fun s a t h => by grind [Parser.ident, Parser.fail]

instance word (name : String) : Shrinks (Parser.word name) :=
  of_bare fun s a t h => by grind [Parser.word, Parser.fail]

instance invisible (p : Parser α) : Shrinks (Parser.invisible p) :=
  of_cons fun s a t h => by grind [Parser.invisible, Parser.fail]

instance callBody : Shrinks Parser.callBody :=
  of_cons fun s a t h => by grind [Parser.callBody, Parser.fail]

instance lifetime : Shrinks Parser.lifetime where
  remains s a t h := by
    have hbare : ∃ mark name, bare s.tokens = mark :: name :: t.tokens := by
      grind [Parser.lifetime, Parser.fail]
    obtain ⟨mark, name, hbare⟩ := hbare
    exact (Remains.cons name _).trans (.of_bare hbare)

instance lit : Shrinks Parser.lit where
  remains s a t h := by
    have hlit : lit? s.tokens = some (a, t.tokens) := by
      grind [Parser.lit, Parser.fail]
    exact remains_lit? hlit

/-! ### Lists and choices -/

instance repeatWhile_go (test : Tokens → Bool) (p : Parser α) [Shrinks p] (n : Nat) :
    Shrinks (Parser.repeatWhile.go test p n) := by
  induction n with
  | zero => exact pure _
  | succ n ih => exact inferInstanceAs (Shrinks (_ >>= _))

instance repeatWhile (test : Tokens → Bool) (p : Parser α) [Shrinks p] :
    Shrinks (Parser.repeatWhile test p) := inferInstanceAs (Shrinks (_ >>= _))

instance separatedUntil_go (stop : Tokens → Bool) (separator : String) (p : Parser α) [Shrinks p]
    (n : Nat) : Shrinks (Parser.separatedUntil.go stop separator p n) := by
  induction n with
  | zero => exact pure _
  | succ n ih => exact inferInstanceAs (Shrinks (_ >>= _))

instance separatedUntil (stop : Tokens → Bool) (separator : String) (p : Parser α) [Shrinks p] :
    Shrinks (Parser.separatedUntil stop separator p) := inferInstanceAs (Shrinks (_ >>= _))

instance separatedWhile (stop : Tokens → Bool) (separator : String) (p : Parser α) [Shrinks p] :
    Shrinks (Parser.separatedWhile stop separator p) := by
  have go : ∀ n, Shrinks (Parser.separatedWhile.go stop separator p n) := by
    intro n
    induction n with
    | zero => exact pure _
    | succ n ih => exact inferInstanceAs (Shrinks (_ >>= _))
  exact inferInstanceAs (Shrinks (_ >>= _))

instance choose_nil (names : List String) : Shrinks (choose.go names [] : Parser α) :=
  expected names

instance choose_cons (names : List String) (name : String) (test : Tokens → Bool) (p : Parser α)
    (rest : List (String × (Tokens → Bool) × Parser α)) [Shrinks p]
    [Shrinks (choose.go names rest)] : Shrinks (choose.go names ((name, test, p) :: rest)) :=
  inferInstanceAs (Shrinks (_ >>= _))

instance choose (named : List (String × (Tokens → Bool) × Parser α))
    [h : Shrinks (choose.go (named.map Prod.fst) named)] : Shrinks (Parser.choose named) := h

instance opIf (text : String) : Shrinks (op? text) := inferInstanceAs (Shrinks (_ >>= _))

instance wordIf (name : String) : Shrinks (word? name) := inferInstanceAs (Shrinks (_ >>= _))

instance lifetimeIf : Shrinks lifetime? := inferInstanceAs (Shrinks (_ >>= _))

instance abiIf : Shrinks abi? := by
  unfold abi?
  infer_instance

instance outerAttributes (rules : Rules) : Shrinks (outerAttributes rules) := by
  unfold Grammar.outerAttributes outerAttribute attributeBody
  infer_instance

/-! ### Types and bounds -/

section TypesAndBounds

variable (rules : Rules) [∀ b, Shrinks (rules.type b)] [∀ b c, Shrinks (rules.bound b c)]

instance binderIf : Shrinks (binder? rules) := by
  unfold binder? binder lifetimeParam lifetimeBounds
  infer_instance

instance outputIf (allowPlus : Bool) : Shrinks (output? rules allowPlus) := by
  unfold output?
  infer_instance

instance callArgs : Shrinks (callArgs rules) := by
  unfold Grammar.callArgs
  infer_instance

instance constArgument : Shrinks (constArgument rules) := by
  unfold Grammar.constArgument blockWithAttributes
  infer_instance

instance genericArg : Shrinks (genericArg rules) := by
  unfold Grammar.genericArg
  refine andThen inferInstance fun _ => orElse inferInstance ?_
  refine andThen inferInstance fun _ => orElse inferInstance ?_
  refine andThen inferInstance fun type => ?_
  split <;> infer_instance

instance angleArgs : Shrinks (angleArgs rules) := by
  unfold Grammar.angleArgs
  infer_instance

instance segment (exprStyle : Bool) : Shrinks (segment rules exprStyle) := by
  unfold Grammar.segment
  dsimp only
  infer_instance

instance moreSegments (exprStyle : Bool) (goesOn : Tokens → Bool) :
    Shrinks (moreSegments rules exprStyle goesOn) := by
  unfold Grammar.moreSegments
  infer_instance

instance path (exprStyle : Bool) : Shrinks (path rules exprStyle) := by
  unfold Grammar.path
  infer_instance

instance qpath (exprStyle : Bool) : Shrinks (qpath rules exprStyle) := by
  unfold Grammar.qpath
  refine andThen inferInstance fun _ => orElse ?_ inferInstance
  refine andThen inferInstance fun _ => andThen inferInstance fun self => ?_
  refine andThen inferInstance fun _ => orElse ?_ ?_ <;>
  · refine andThen inferInstance fun asTrait => andThen inferInstance fun _ => ?_
    refine andThen inferInstance fun _ => andThen inferInstance fun first => ?_
    refine andThen inferInstance fun rest => ?_
    split <;> infer_instance

instance captured : Shrinks captured := by
  have go : ∀ n, Shrinks (captured.go n) := by
    intro n
    induction n with
    | zero => exact pure _
    | succ n ih =>
      unfold captured.go
      infer_instance
  unfold Grammar.captured
  infer_instance

instance traitBound (inParens allowConst : Bool) :
    Shrinks (traitBound rules inParens allowConst) := by
  have mark : ∀ allow, Shrinks (traitBound.constMark allow) := by
    intro allow
    unfold traitBound.constMark
    infer_instance
  unfold Grammar.traitBound
  dsimp only
  infer_instance

instance bound (allowCapture allowConst : Bool) :
    Shrinks (bound rules allowCapture allowConst) := by
  unfold Grammar.bound
  refine andThen inferInstance fun _ => orElse inferInstance ?_
  refine andThen inferInstance fun _ => orElse inferInstance ?_
  refine andThen inferInstance fun before => andThen inferInstance fun _ => orElse ?_ ?_ <;>
  · refine andThen inferInstance fun found => ?_
    cases found <;> exact inferInstance

instance bounds (allowPlus allowCapture allowConst : Bool) :
    Shrinks (bounds rules allowPlus allowCapture allowConst) := by
  have go : ∀ n, Shrinks (bounds.go rules allowPlus allowCapture allowConst n) := by
    intro n
    induction n with
    | zero => exact pure _
    | succ n ih =>
      unfold bounds.go
      infer_instance
  unfold Grammar.bounds
  infer_instance

instance objectBounds (pos : Pos) (allowPlus : Bool) : Shrinks (objectBounds rules pos allowPlus) := by
  unfold Grammar.objectBounds
  infer_instance

instance traitObject : Shrinks (traitObject rules) := by
  unfold Grammar.traitObject
  infer_instance

instance furtherBounds (first : Bound) : Shrinks (furtherBounds rules first) := by
  unfold Grammar.furtherBounds
  infer_instance

instance parenType (allowPlus : Bool) : Shrinks (parenType rules allowPlus) := by
  unfold Grammar.parenType
  refine andThen inferInstance fun found => ?_
  obtain ⟨content, opening, closing⟩ := found
  cases content with
  | type found => exact pure found
  | bound found => exact furtherBounds rules found
  | inner inner =>
    refine andThen inferInstance fun _ => orElse ?_ inferInstance
    split <;> infer_instance

instance functionType (quantified : Option Binder) : Shrinks (functionType rules quantified) := by
  unfold Grammar.functionType
  infer_instance

instance pathType (quantified : Option Binder) (allowPlus : Bool) :
    Shrinks (pathType rules quantified allowPlus) := by
  have more : ∀ n, Shrinks (pathType.more rules n) := by
    intro n
    induction n with
    | zero => exact pure _
    | succ n ih =>
      unfold pathType.more
      infer_instance
  unfold Grammar.pathType
  refine andThen inferInstance fun found => orElse inferInstance ?_
  refine andThen inferInstance fun called => ?_
  split <;> infer_instance

instance groupType (allowArgs : Bool) : Shrinks (groupType rules allowArgs) := by
  unfold Grammar.groupType
  refine andThen inferInstance fun inner => andThen inferInstance fun goesOn => ?_
  refine andThen inferInstance fun argued => ?_
  split <;> infer_instance

instance typeAfter (allowPlus : Bool) (quantified : Option Binder) :
    Shrinks (typeAfter rules allowPlus quantified) := by
  unfold Grammar.typeAfter dynType bracketType pointerType referenceType implType
  dsimp only
  infer_instance

instance type (allowPlus : Bool) : Shrinks (type rules allowPlus) := by
  unfold Grammar.type
  infer_instance

end TypesAndBounds

/-- Types and bounds take from the front at every level of nesting. -/
theorem level (depth : Nat) :
    (∀ b, Shrinks ((Rules.level depth).type b)) ∧
      ∀ b c, Shrinks ((Rules.level depth).bound b c) := by
  induction depth with
  | zero => exact ⟨fun _ => failHere _, fun _ _ => failHere _⟩
  | succ depth ih =>
    obtain ⟨htype, hbound⟩ := ih
    exact ⟨type (Rules.level depth), bound (Rules.level depth)⟩

instance forTokens_type (tokens : Tokens) (b : Bool) : Shrinks ((Rules.forTokens tokens).type b) :=
  (level _).1 b

/-! ### Values -/

/-- Going on after a group that was read ahead, or where it begins. -/
theorem ahead_within {delim : Delim} {next : Option ((α × Pos × Pos) × Stream) → Parser β}
    (hsome : ∀ found after s b t, Remains after.tokens s.tokens → next (some (found, after)) s = .ok (b, t) →
      Remains t.tokens s.tokens)
    (hnone : Shrinks (next none)) : Shrinks (ahead (Parser.within delim p) >>= next) where
  remains s b t h := by
    obtain ⟨found, m, hahead, hnext⟩ := bind_eq_ok.mp h
    unfold ahead at hahead
    split at hahead
    · rename_i result hwithin
      obtain ⟨value, after⟩ := result
      cases hahead
      have hafter := (within delim p).remains _ _ _ hwithin
      exact hsome value after s b t hafter hnext
    · split at hahead
      · simp at hahead
      · cases hahead
        exact hnone.remains _ _ _ hnext

theorem remains_resume {after s t : Stream} {a b : α} (hafter : Remains after.tokens s.tokens)
    (h : (do resume after; Pure.pure a : Parser α) s = .ok (b, t)) : Remains t.tokens s.tokens := by
  cases h
  exact hafter

instance otherValue : Shrinks Value.otherValue := by
  have go : ∀ n, Shrinks (Value.opaqueTokens.go n) := by
    intro n
    induction n with
    | zero => exact pure _
    | succ n ih =>
      unfold Value.opaqueTokens.go
      infer_instance
  unfold Value.otherValue Value.opaqueTokens
  infer_instance

instance operand (value : Parser Value) : Shrinks (Value.operand value) := by
  unfold Value.operand
  refine andThen inferInstance fun _ => orElse ?_ ?_
  · exact ahead_within (fun _ _ _ _ _ => remains_resume) otherValue
  refine andThen inferInstance fun _ => orElse ?_ inferInstance
  exact ahead_within (fun _ _ _ _ _ => remains_resume) otherValue

instance casts (rules : Rules) [∀ b, Shrinks (rules.type b)] (first : Value) :
    Shrinks (Value.casts rules first) := by
  have go : ∀ n value, Shrinks (Value.casts.go rules value n) := by
    intro n
    induction n with
    | zero => exact fun _ => pure _
    | succ n ih =>
      intro value
      unfold Value.casts.go
      infer_instance
  unfold Value.casts
  infer_instance

instance valueTo (depth : Nat) (rules : Rules) [∀ b, Shrinks (rules.type b)] :
    Shrinks (Value.parserTo depth rules) := by
  cases depth with
  | zero => exact failHere _
  | succ depth =>
    unfold Value.parserTo
    infer_instance

instance value (rules : Rules) [∀ b, Shrinks (rules.type b)] : Shrinks (Value.parser rules) := by
  unfold Value.parser
  infer_instance

end Shrinks

end Fieldwise.Grammar
