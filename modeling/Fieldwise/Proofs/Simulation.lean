import Mathlib.Data.List.Forall2
import Fieldwise.Proofs.Parsing
import Fieldwise.Proofs.Shifts

/-!
# Parsers that follow each other

A parser looks at words, characters and spacing and never at places. So a parser that is given the same tokens
at other places does the same, and what it returns, or the error that it fails with, is the same at those
places. `Follows` states this of two parsers; they may differ in how deep their rules may be nested, and then the
first one may also fail for want of depth. It is a class, so it is found for a rule of the grammar from the
steps that the rule is made of.
-/

namespace Fieldwise.Grammar

open Fieldwise.Grammar.Parser Fieldwise.Token

set_option synthInstance.maxSize 8192

variable {α β : Type} [HasPlaces α] [HasPlaces β] (w : Shift)

/-! ## Tests see no places -/

mutual

theorem openToken_retouch (token : Token) (rest : Tokens) :
    openToken (retouch w.toRetouch token) (retouch w.toRetouch rest) =
      retouch w.toRetouch (openToken token rest) := by
  match token with
  | .group .invisible body opening closing =>
    simpa [openToken] using openTokens_retouch body rest
  | .group .paren _ _ _ | .group .bracket _ _ _ | .group .brace _ _ _ => simp [openToken]
  | .ident _ _ | .punct _ _ _ | .literal _ _ => simp [openToken]

theorem openTokens_retouch (tokens rest : Tokens) :
    openTokens (retouch w.toRetouch tokens) (retouch w.toRetouch rest) =
      retouch w.toRetouch (openTokens tokens rest) := by
  match tokens with
  | [] => rfl
  | token :: more =>
    have hfirst := openToken_retouch token (more ++ rest)
    simp only [retouch_append] at hfirst
    simp only [retouch_cons, openTokens, hfirst]
    cases openToken token (more ++ rest) with
    | none => exact openTokens_retouch more rest
    | some found => rfl

end

/-- Opening up invisible groups commutes with a shift. -/
@[simp] theorem bare_retouch (tokens : Tokens) :
    bare (retouch w.toRetouch tokens) = retouch w.toRetouch (bare tokens) := by
  have hopen := openTokens_retouch w tokens []
  rw [retouch_nil] at hopen
  rw [bare, bare, hopen]
  cases openTokens tokens [] <;> rfl

@[simp] theorem dropOp_retouch (cs : List Char) (tokens : Tokens) :
    dropOp cs (retouch w.toRetouch tokens) = retouch w.toRetouch (dropOp cs tokens) := by
  induction cs generalizing tokens with
  | nil => rfl
  | cons c more ih =>
    simp only [dropOp, bare_retouch]
    cases bare tokens with
    | nil => rfl
    | cons token rest =>
      cases token with
      | punct d spacing pos =>
        simp only [retouch_cons, retouch_punct, w.spacing]
        repeat' split
        all_goals first | rfl | exact ih rest
      | _ => simp

@[simp] theorem dropTree_retouch (tokens : Tokens) :
    dropTree (retouch w.toRetouch tokens) = retouch w.toRetouch (dropTree tokens) := by
  simp only [dropTree, bare_retouch]
  rcases bare tokens with _ | ⟨_ | ⟨c, spacing, pos⟩ | _ | _, _ | ⟨_ | _ | _ | _, rest⟩⟩ <;>
    grind [w.spacing]

@[simp] theorem lit?_retouch (tokens : Tokens) :
    lit? (retouch w.toRetouch tokens) = retouch w.toRetouch (lit? tokens) := by
  simp only [lit?, bare_retouch]
  rcases bare tokens with _ | ⟨_ | ⟨c, spacing, pos⟩ | _ | _, rest⟩
  · rfl
  · simp only [retouch_cons, retouch_ident, retouch_ite, retouch_none]
    rfl
  · by_cases hminus : c = '-'
    · subst hminus
      simp only [retouch_cons, retouch_punct, bare_retouch]
      rcases bare rest with _ | ⟨_ | _ | ⟨text, at_⟩ | _, more⟩
      · rfl
      · rfl
      · rfl
      · simp only [retouch_cons, retouch_literal]
        cases negative? text with
        | none => rfl
        | some kind => simp [w.spacing]
      · rfl
    · simp [hminus]
  · rfl
  · rfl

mutual

theorem visibleIn_retouch (r : Retouch) (delim : Delim) (token : Token) :
    visibleIn delim (retouch r token) = retouch r (visibleIn delim token) := by
  match token with
  | .group .invisible body opening closing =>
    simpa [visibleIn] using visibleAmong_retouch r .invisible body
  | .group .paren _ _ _ | .group .bracket _ _ _ | .group .brace _ _ _ => simp [visibleIn, Token.pos]
  | .ident _ _ | .punct _ _ _ | .literal _ _ => simp [visibleIn, Token.pos]

theorem visibleAmong_retouch (r : Retouch) (delim : Delim) (tokens : Tokens) :
    visibleAmong delim (retouch r tokens) = retouch r (visibleAmong delim tokens) := by
  match tokens with
  | [] => rfl
  | token :: rest =>
    simp only [retouch_cons, visibleAmong, visibleIn_retouch r delim token]
    cases visibleIn delim token with
    | none => exact visibleAmong_retouch r delim rest
    | some found => rfl

end

@[simp] theorem remainder_retouch (r : Retouch) (s : Stream) :
    (retouch r s).remainder = retouch r s.remainder := visibleAmong_retouch r s.delim s.tokens

@[simp] theorem here_retouch (r : Retouch) (s : Stream) : (retouch r s).here = r.place s.here := by
  obtain ⟨tokens, stop, delim, leftover⟩ := s
  cases tokens with
  | nil => rfl
  | cons token rest => exact pos_retouch r token

@[simp] theorem atEnd_retouch (r : Retouch) (s : Stream) : (retouch r s).atEnd = s.atEnd :=
  isEmpty_retouch r s.tokens

mutual

theorem size_retouch (r : Retouch) (token : Token) : size (retouch r token) = size token := by
  match token with
  | .group delim body opening closing => simp [size, sizeAll_retouch r body]
  | .ident _ _ | .punct _ _ _ | .literal _ _ => rfl

theorem sizeAll_retouch (r : Retouch) (tokens : Tokens) :
    sizeAll (retouch r tokens) = sizeAll tokens := by
  match tokens with
  | [] => rfl
  | token :: rest => simp [sizeAll, size_retouch r token, sizeAll_retouch r rest]

end

/-- A test that sees no places. -/
class Blind (test : Tokens → Bool) : Prop where
  /-- It gives the same answer at other places. -/
  same : ∀ tokens, test (retouch w.toRetouch tokens) = test tokens

namespace Blind

instance const (b : Bool) : Blind w fun _ => b := ⟨fun _ => rfl⟩

instance isEmpty : Blind w List.isEmpty := ⟨isEmpty_retouch _⟩

instance not (test : Tokens → Bool) [h : Blind w test] : Blind w fun ts => !test ts :=
  ⟨fun tokens => by rw [h.same]⟩

instance and (test other : Tokens → Bool) [h : Blind w test] [h' : Blind w other] :
    Blind w fun ts => test ts && other ts := ⟨fun tokens => by rw [h.same, h'.same]⟩

instance or (test other : Tokens → Bool) [h : Blind w test] [h' : Blind w other] :
    Blind w fun ts => test ts || other ts := ⟨fun tokens => by rw [h.same, h'.same]⟩

instance op (text : String) : Blind w (Look.op text) :=
  ⟨fun tokens => by rw [Look.op, Look.op, dropOp_retouch, isSome_retouch]⟩

instance word (name : String) : Blind w (Look.word name) where
  same tokens := by
    simp only [Look.word, bare_retouch]
    rcases bare tokens with _ | ⟨_ | _ | _ | _, rest⟩ <;> simp

instance words (names : List String) : Blind w (Look.words names) where
  same tokens := by simp only [Look.words, (word w _).same]

instance anyWord : Blind w Look.anyWord where
  same tokens := by
    simp only [Look.anyWord, bare_retouch]
    rcases bare tokens with _ | ⟨_ | _ | _ | _, rest⟩ <;> simp

instance ident : Blind w Look.ident where
  same tokens := by
    simp only [Look.ident, bare_retouch]
    rcases bare tokens with _ | ⟨_ | _ | _ | _, rest⟩ <;> simp

instance lifetime : Blind w Look.lifetime where
  same tokens := by
    simp only [Look.lifetime, bare_retouch]
    rcases bare tokens with _ | ⟨_ | ⟨c, spacing, pos⟩ | _ | _, _ | ⟨_ | _ | _ | _, rest⟩⟩ <;>
      grind [w.spacing]

instance group (delim : Delim) : Blind w (Look.group delim) where
  same tokens := by
    cases delim with
    | invisible =>
      rcases tokens with _ | ⟨_ | _ | _ | ⟨_ | _ | _ | _, _, _, _⟩, rest⟩ <;> simp [Look.group]
    | _ =>
      simp only [Look.group, bare_retouch]
      rcases bare tokens with _ | ⟨_ | _ | _ | _, rest⟩ <;> simp

instance second (test : Tokens → Bool) [h : Blind w test] : Blind w (Look.second test) where
  same tokens := by
    simp only [Look.second, dropTree_retouch]
    cases dropTree tokens with
    | none => rfl
    | some rest => exact h.same rest

instance third (test : Tokens → Bool) [h : Blind w test] : Blind w (Look.third test) where
  same tokens := by
    simp only [Look.third, dropTree_retouch]
    cases dropTree tokens with
    | none => rfl
    | some rest =>
      simp only [retouch_some, Option.bind_some, dropTree_retouch]
      cases dropTree rest with
      | none => rfl
      | some more => exact h.same more

instance any_nil : Blind w (Look.any []) := ⟨fun _ => rfl⟩

instance any_cons (test : Tokens → Bool) (tests : List (Tokens → Bool)) [h : Blind w test]
    [h' : Blind w (Look.any tests)] : Blind w (Look.any (test :: tests)) where
  same tokens := by
    have hrest := h'.same tokens
    simp only [Look.any, List.any_cons] at hrest ⊢
    rw [h.same, hrest]

instance lookLit : Blind w lookLit where
  same tokens := by rw [Parser.lookLit, Parser.lookLit, lit?_retouch, isSome_retouch]

instance lookLitKind (test : Literal.Kind → Bool) : Blind w (lookLitKind test) where
  same tokens := by
    rw [Parser.lookLitKind, Parser.lookLitKind, lit?_retouch]
    cases lit? tokens <;> rfl

instance lookText : Blind w lookText := inferInstanceAs (Blind w (Parser.lookLitKind _))

instance startsSegment : Blind w startsSegment := inferInstanceAs (Blind w (Look.any _))

end Blind

/-! ## Values at other places -/

/-- The second value is the first one at other places. -/
class Moved (a b : α) : Prop where
  /-- It is. -/
  eq : b = retouch w.toRetouch a

namespace Moved

instance self (a : α) : Moved w a (retouch w.toRetouch a) := ⟨rfl⟩

instance (priority := low) same [h : PlaceFree α] (a : α) : Moved w a a := ⟨(h.retouch_eq _ a).symm⟩

instance sign (text : String) : Moved w (sign text) (sign text) := ⟨(retouch_sign w text).symm⟩

instance term (name : String) : Moved w (term name) (term name) := ⟨(retouch_term w name).symm⟩

instance nil : Moved w ([] : List α) [] := ⟨rfl⟩

instance cons (a a' : α) (rest rest' : List α) [h : Moved w a a'] [h' : Moved w rest rest'] :
    Moved w (a :: rest) (a' :: rest') := ⟨by rw [h.eq, h'.eq, retouch_cons]⟩

instance append (left left' right right' : List α) [h : Moved w left left']
    [h' : Moved w right right'] : Moved w (left ++ right) (left' ++ right') :=
  ⟨by rw [h.eq, h'.eq, retouch_append]⟩

instance none : Moved w (none : Option α) none := ⟨rfl⟩

instance some (a a' : α) [h : Moved w a a'] : Moved w (some a) (some a') := ⟨by rw [h.eq]; rfl⟩

instance pair (a a' : α) (b b' : β) [h : Moved w a a'] [h' : Moved w b b'] :
    Moved w (a, b) (a', b') := ⟨by rw [h.eq, h'.eq]; rfl⟩

instance fst (p p' : α × β) [h : Moved w p p'] : Moved w p.1 p'.1 := ⟨by rw [h.eq]; rfl⟩

instance snd (p p' : α × β) [h : Moved w p p'] : Moved w p.2 p'.2 := ⟨by rw [h.eq]; rfl⟩

instance isEmpty (list list' : List α) [h : Moved w list list'] :
    Moved w list.isEmpty list'.isEmpty := ⟨by rw [h.eq, isEmpty_retouch]; rfl⟩

instance length (list list' : List α) [h : Moved w list list'] :
    Moved w list.length list'.length := ⟨by rw [h.eq, length_retouch]; rfl⟩

instance or_option (option option' other other' : Option α) [h : Moved w option option']
    [h' : Moved w other other'] : Moved w (option.or other) (option'.or other') :=
  ⟨by rw [h.eq, h'.eq, retouch_or]⟩

instance head (list list' : List α) [h : Moved w list list'] : Moved w list.head? list'.head? :=
  ⟨by rw [h.eq, retouch_head?]⟩

instance getD (option option' : Option α) (a a' : α) [h : Moved w option option'] [h' : Moved w a a'] :
    Moved w (option.getD a) (option'.getD a') := ⟨by rw [h.eq, h'.eq]; cases option <;> rfl⟩

instance isSome (option option' : Option α) [h : Moved w option option'] :
    Moved w option.isSome option'.isSome := ⟨by rw [h.eq, isSome_retouch]; rfl⟩

instance isNone (option option' : Option α) [h : Moved w option option'] :
    Moved w option.isNone option'.isNone := ⟨by rw [h.eq, isNone_retouch]; rfl⟩

instance not (b b' : Bool) [h : Moved w b b'] : Moved w (!b) (!b') := ⟨by rw [h.eq]; rfl⟩

instance and (b b' c c' : Bool) [h : Moved w b b'] [h' : Moved w c c'] :
    Moved w (b && c) (b' && c') := ⟨by rw [h.eq, h'.eq]; rfl⟩

instance or (b b' c c' : Bool) [h : Moved w b b'] [h' : Moved w c c'] :
    Moved w (b || c) (b' || c') := ⟨by rw [h.eq, h'.eq]; rfl⟩

instance test (test : Tokens → Bool) [h : Blind w test] (tokens tokens' : Tokens)
    [h' : Moved w tokens tokens'] : Moved w (test tokens) (test tokens') :=
  ⟨by rw [h'.eq, h.same]; rfl⟩

instance modPath (rooted rooted' : Bool) (names names' : List Ident) [h : Moved w rooted rooted']
    [h' : Moved w names names'] : Moved w (ModPath.mk rooted names) ⟨rooted', names'⟩ :=
  ⟨by rw [h.eq, h'.eq]; rfl⟩

instance separated (items items' : List α) (trailing trailing' : Bool) [h : Moved w items items']
    [h' : Moved w trailing trailing'] :
    Moved w (Separated.mk items trailing) ⟨items', trailing'⟩ := ⟨by rw [h.eq, h'.eq]; rfl⟩

instance items (list list' : Separated α) [h : Moved w list list'] :
    Moved w list.items list'.items := ⟨by rw [h.eq]; rfl⟩

instance trailing (list list' : Separated α) [h : Moved w list list'] :
    Moved w list.trailing list'.trailing := ⟨by rw [h.eq]; rfl⟩

instance separated_cons (a a' : α) (rest rest' : Separated α) [h : Moved w a a']
    [h' : Moved w rest rest'] : Moved w (Separated.cons a rest) (.cons a' rest') := by
  refine ⟨?_⟩
  rw [h.eq, h'.eq, Separated.cons, items_retouch, isEmpty_retouch]
  rfl

instance joined (separator : Tokens) (pieces pieces' : List Tokens) (trailing trailing' : Bool)
    [hs : Moved w separator separator] [h : Moved w pieces pieces'] [h' : Moved w trailing trailing'] :
    Moved w (joined separator pieces trailing) (joined separator pieces' trailing') := by
  refine ⟨?_⟩
  rw [retouch_joined, ← hs.eq, h.eq, h'.eq]
  rfl

instance separatedTokens (separator : String) (list list' : Separated Tokens) [h : Moved w list list'] :
    Moved w (separatedTokens separator list) (Parser.separatedTokens separator list') :=
  inferInstanceAs (Moved w (Grammar.joined _ _ _) (Grammar.joined _ _ _))

instance flatten (lists lists' : List (List α)) [h : Moved w lists lists'] :
    Moved w lists.flatten lists'.flatten := ⟨by rw [h.eq, retouch_flatten]⟩

instance token (name name' : Ident) [h : Moved w name name'] : Moved w name.token name'.token :=
  ⟨by rw [h.eq]; rfl⟩

instance dropTree (tokens tokens' : Tokens) [h : Moved w tokens tokens'] :
    Moved w (dropTree tokens) (Grammar.dropTree tokens') := ⟨by rw [h.eq, dropTree_retouch]⟩

instance streamTokens (s s' : Stream) [h : Moved w s s'] : Moved w s.tokens s'.tokens :=
  ⟨by rw [h.eq]; rfl⟩

instance leftover (s s' : Stream) [h : Moved w s s'] : Moved w s.leftover s'.leftover :=
  ⟨by rw [h.eq]; rfl⟩

instance lifetimeTokens (name name' : Lifetime) [h : Moved w name name'] :
    Moved w name.tokens name'.tokens := ⟨by rw [h.eq, Lifetime.tokens_retouch]⟩

instance group (delim delim' : Delim) (body body' : Tokens) (opening opening' closing closing' : Pos)
    [hd : Moved w delim delim'] [h : Moved w body body'] [ho : Moved w opening opening']
    [hc : Moved w closing closing'] :
    Moved w (Token.group delim body opening closing) (.group delim' body' opening' closing') :=
  ⟨by rw [hd.eq, h.eq, ho.eq, hc.eq, retouch_group]; rfl⟩

instance operator (pos pos' : Pos) (cs : List Char) [h : Moved w pos pos'] :
    Moved w (Token.operator pos cs) (Token.operator pos' cs) :=
  ⟨by rw [h.eq, retouch_operator]; rfl⟩

end Moved

/-- The second condition holds when the first one does. -/
class Same (_ : Shift) (c c' : Prop) : Prop where
  /-- They hold together. -/
  iff : c' ↔ c

namespace Same

instance (priority := low) refl (c : Prop) : Same w c c := ⟨Iff.rfl⟩

instance isTrue (b b' : Bool) [h : Moved w b b'] : Same w (b = true) (b' = true) :=
  ⟨by rw [h.eq]; rfl⟩

instance eq [hfree : PlaceFree α] (a a' b b' : α) [h : Moved w a a'] [h' : Moved w b b'] :
    Same w (a = b) (a' = b') :=
  ⟨by rw [h.eq, h'.eq, hfree.retouch_eq, hfree.retouch_eq]⟩

instance not (c c' : Prop) [h : Same w c c'] : Same w (¬c) (¬c') := ⟨not_congr h.iff⟩

end Same

namespace Moved

instance ite (c c' : Prop) [Decidable c] [Decidable c'] (a a' b b' : α) [h : Same w c c']
    [ha : Moved w a a'] [hb : Moved w b b'] :
    Moved w (if c then a else b) (if c' then a' else b') := by
  refine ⟨?_⟩
  rw [ha.eq, hb.eq, retouch_ite]
  simp only [h.iff]

instance decide (c c' : Prop) [Decidable c] [Decidable c'] [h : Same w c c'] :
    Moved w (decide c) (decide c') := ⟨decide_eq_decide.mpr h.iff⟩

end Moved

/-! ## Parsers and their combinators -/

/-- The parse has failed for want of depth. -/
def Exhausted (result : Except SyntaxError α) : Prop := ∃ pos, result = .error ⟨pos, .tooDeep⟩

/-- The second parser does at other places what the first one does, unless depth is allowed to run out and the
first one has run out of it. -/
class Follows (loose : Prop) (p q : Parser α) : Prop where
  /-- It does so on every stream. -/
  run : ∀ s, q (retouch w.toRetouch s) = retouch w.toRetouch (p s) ∨ loose ∧ Exhausted (p s)

namespace Follows

variable {loose : Prop}

theorem of_eq {p q : Parser α} (h : ∀ s, q (retouch w.toRetouch s) = retouch w.toRetouch (p s)) :
    Follows w loose p q := ⟨fun s => .inl (h s)⟩

instance pure (a a' : α) [h : Moved w a a'] : Follows w loose (Pure.pure a : Parser α) (Pure.pure a') :=
  of_eq w fun s => by rw [h.eq]; rfl

theorem andThen {p q : Parser α} {f g : α → Parser β} (hp : Follows w loose p q)
    (hf : ∀ a, Follows w loose (f a) (g (retouch w.toRetouch a))) :
    Follows w loose (p >>= f) (q >>= g) where
  run s := by
    obtain hrun | ⟨hloose, pos, hdeep⟩ := hp.run s
    · simp only [bind_run, hrun]
      cases hfirst : p s with
      | error error => exact .inl rfl
      | ok found => exact (hf found.1).run found.2
    · exact .inr ⟨hloose, pos, by rw [bind_run, hdeep]; rfl⟩

instance bind (p q : Parser α) (f g : α → Parser β) [hp : Follows w loose p q]
    [hf : ∀ a, Follows w loose (f a) (g (retouch w.toRetouch a))] :
    Follows w loose (p >>= f) (q >>= g) := andThen w hp hf

instance (priority := high) bind_same (p q : Parser α) (f g : α → Parser β) [hfree : PlaceFree α]
    [hp : Follows w loose p q] [hf : ∀ a, Follows w loose (f a) (g a)] :
    Follows w loose (p >>= f) (q >>= g) :=
  andThen w hp fun a => by rw [hfree.retouch_eq]; exact hf a

section Tuples

variable {γ δ ε : Type} [HasPlaces γ] [HasPlaces δ] [HasPlaces ε]

instance (priority := 1100) bind_pair (p q : Parser (α × β)) (f g : α × β → Parser ε)
    [hp : Follows w loose p q]
    [hf : ∀ a b, Follows w loose (f (a, b)) (g (retouch w.toRetouch a, retouch w.toRetouch b))] :
    Follows w loose (p >>= f) (q >>= g) := andThen w hp fun found => hf found.1 found.2

instance (priority := 1200) bind_triple (p q : Parser (α × β × γ)) (f g : α × β × γ → Parser ε)
    [hp : Follows w loose p q]
    [hf : ∀ a b c, Follows w loose (f (a, b, c))
      (g (retouch w.toRetouch a, retouch w.toRetouch b, retouch w.toRetouch c))] :
    Follows w loose (p >>= f) (q >>= g) := andThen w hp fun found => hf found.1 found.2.1 found.2.2

instance (priority := 1300) bind_quadruple (p q : Parser (α × β × γ × δ))
    (f g : α × β × γ × δ → Parser ε) [hp : Follows w loose p q]
    [hf : ∀ a b c d, Follows w loose (f (a, b, c, d))
      (g (retouch w.toRetouch a, retouch w.toRetouch b, retouch w.toRetouch c,
        retouch w.toRetouch d))] :
    Follows w loose (p >>= f) (q >>= g) :=
  andThen w hp fun found => hf found.1 found.2.1 found.2.2.1 found.2.2.2

end Tuples

instance map (f g : α → β) (p q : Parser α) [hp : Follows w loose p q]
    [hf : ∀ a, Moved w (f a) (g (retouch w.toRetouch a))] : Follows w loose (f <$> p) (g <$> q) := by
  have hrun : ∀ (f : α → β) (p : Parser α), f <$> p = p >>= fun a => Pure.pure (f a) :=
    fun _ _ => (bind_pure_comp _ _).symm
  rw [hrun, hrun]
  exact andThen w hp fun a => pure w (f a) (g (retouch w.toRetouch a))

theorem orElse {c c' : Prop} [Decidable c] [Decidable c'] {p p' q q' : Parser α} (hc : Same w c c')
    (hp : Follows w loose p p') (hq : Follows w loose q q') :
    Follows w loose (if c then p else q) (if c' then p' else q') := by
  by_cases h : c
  · rw [if_pos h, if_pos (hc.iff.mpr h)]
    exact hp
  · rw [if_neg h, if_neg (mt hc.iff.mp h)]
    exact hq

instance ite (c c' : Prop) [Decidable c] [Decidable c'] (p p' q q' : Parser α) [hc : Same w c c']
    [hp : Follows w loose p p'] [hq : Follows w loose q q'] :
    Follows w loose (if c then p else q) (if c' then p' else q') := orElse w hc hp hq

instance look (test : Tokens → Bool) [h : Blind w test] :
    Follows w loose (Parser.look test) (Parser.look test) :=
  of_eq w fun s => by
    rw [look_run, look_run, stream_tokens_retouch, h.same]
    rfl

/-- One parser or another, chosen by a test on what comes next. -/
theorem whether {test : Tokens → Bool} {p p' q q' : Parser α} (h : Blind w test)
    (hp : Follows w loose p p') (hq : Follows w loose q q') :
    Follows w loose (do if ← Parser.look test then p else q)
      (do if ← Parser.look test then p' else q') := inferInstance

instance get : Follows w loose (MonadState.get : Parser Stream) MonadState.get :=
  of_eq w fun _ => rfl

instance set (s s' : Stream) [h : Moved w s s'] :
    Follows w loose (MonadStateOf.set s : Parser Unit) (MonadStateOf.set s') :=
  of_eq w fun _ => by rw [h.eq]; rfl

theorem modified {f g : Stream → Stream} (h : ∀ s, g (retouch w.toRetouch s) = retouch w.toRetouch (f s)) :
    Follows w loose (modify f : Parser Unit) (modify g) :=
  of_eq w fun s => by
    show Except.ok ((), g (retouch w.toRetouch s)) = _
    rw [h]
    rfl

instance atEnd : Follows w loose Parser.atEnd Parser.atEnd :=
  of_eq w fun s => by
    show Except.ok ((retouch w.toRetouch s).atEnd, _) = _
    rw [atEnd_retouch]
    rfl

instance here : Follows w loose Parser.here Parser.here :=
  of_eq w fun s => by
    show Except.ok ((retouch w.toRetouch s).here, _) = _
    rw [here_retouch]
    rfl

instance rounds : Follows w loose Parser.rounds Parser.rounds :=
  of_eq w fun s => by
    show Except.ok (sizeAll (retouch w.toRetouch s.tokens) + 1, _) = _
    rw [sizeAll_retouch]
    rfl

instance since (before before' : Stream) [h : Moved w before before'] :
    Follows w loose (Parser.since before) (Parser.since before') :=
  of_eq w fun s => by
    simp [Parser.since, h.eq, retouch_take]

instance failAt (pos pos' : Pos) (cause : Cause) [h : Moved w pos pos'] :
    Follows w loose (Parser.failAt pos cause : Parser α) (Parser.failAt pos' cause) :=
  of_eq w fun _ => by rw [h.eq]; rfl

instance failHere (cause : Cause) :
    Follows w loose (Parser.failHere cause : Parser α) (Parser.failHere cause) :=
  of_eq w fun s => by
    simp only [Parser.failHere, here_retouch]
    rfl

theorem fail_retouch (cause : Cause) (s : Stream) :
    (Parser.fail cause : Parser α) (retouch w.toRetouch s) =
      retouch w.toRetouch ((Parser.fail cause : Parser α) s) := by
  simp only [Parser.fail, here_retouch, atEnd_retouch]
  rfl

instance fail (cause : Cause) : Follows w loose (Parser.fail cause : Parser α) (Parser.fail cause) :=
  of_eq w (fail_retouch w cause)

instance expected (names : List String) :
    Follows w loose (Parser.expected names : Parser α) (Parser.expected names) :=
  fail w _

instance violated (rule : String) :
    Follows w loose (Parser.violated rule : Parser α) (Parser.violated rule) := fail w _

instance op (text : String) : Follows w loose (Parser.op text) (Parser.op text) :=
  of_eq w fun s => by
    simp only [Parser.op, stream_tokens_retouch, dropOp_retouch, here_retouch]
    cases dropOp text.toList s.tokens with
    | none => rfl
    | some rest =>
      simp only [retouch_some, retouch_ok, retouch_pair, retouch_operator]
      rfl

instance word (name : String) : Follows w loose (Parser.word name) (Parser.word name) :=
  of_eq w fun s => by
    simp only [Parser.word, stream_tokens_retouch, bare_retouch]
    rcases bare s.tokens with _ | ⟨⟨found, pos⟩ | _ | _ | _, rest⟩ <;>
      simp only [retouch_nil, retouch_cons, retouch_ident, retouch_punct, retouch_literal,
        retouch_group, fail_retouch]
    split <;> rfl

instance tree : Follows w loose Parser.tree Parser.tree :=
  of_eq w fun s => by
    obtain ⟨tokens, stop, delim, leftover⟩ := s
    cases tokens <;> rfl

theorem inside_run {p q : Parser α} (h : Follows w loose p q) (s : Stream) (delim : Delim)
    (body rest : Tokens) (opening closing : Pos) :
    let read (p : Parser α) (s : Stream) (body rest : Tokens) (opening closing : Pos) :
        Except SyntaxError ((α × Pos × Pos) × Stream) :=
      match p ⟨body, closing, delim, none⟩ with
      | .error error => .error error
      | .ok (value, inner) =>
        .ok ((value, opening, closing),
          { s with tokens := rest, leftover := (s.leftover.or inner.leftover).or inner.remainder })
    read q (retouch w.toRetouch s) (retouch w.toRetouch body) (retouch w.toRetouch rest)
        (w.place opening) (w.place closing) =
      retouch w.toRetouch (read p s body rest opening closing) ∨
        loose ∧ Exhausted (read p s body rest opening closing) := by
  obtain hrun | ⟨hloose, pos, hdeep⟩ := h.run ⟨body, closing, delim, none⟩
  · refine .inl ?_
    have hstream : retouch w.toRetouch (Stream.mk body closing delim none) =
      ⟨retouch w.toRetouch body, w.place closing, delim, none⟩ := rfl
    rw [hstream] at hrun
    simp only [hrun]
    cases p ⟨body, closing, delim, none⟩ with
    | error error => rfl
    | ok found =>
      obtain ⟨value, inner⟩ := found
      simp only [retouch_ok, retouch_pair, leftover_retouch, remainder_retouch, ← retouch_or]
      rfl
  · exact .inr ⟨hloose, pos, by simp only [hdeep]⟩

instance within (delim : Delim) (p q : Parser α) [h : Follows w loose p q] :
    Follows w loose (Parser.within delim p) (Parser.within delim q) where
  run s := by
    simp only [Parser.within, stream_tokens_retouch, bare_retouch]
    rcases bare s.tokens with _ | ⟨_ | _ | _ | ⟨found, body, opening, closing⟩, rest⟩
    · exact .inl (fail_retouch w _ s)
    · exact .inl (fail_retouch w _ s)
    · exact .inl (fail_retouch w _ s)
    · exact .inl (fail_retouch w _ s)
    · simp only [retouch_cons, retouch_group]
      split
      · exact inside_run w h s delim body rest opening closing
      · exact .inl (fail_retouch w _ s)

instance enclosed (delim : Delim) (p q : Parser Tokens) [Follows w loose p q] :
    Follows w loose (Parser.enclosed delim p) (Parser.enclosed delim q) :=
  andThen w inferInstance fun ⟨body, opening, closing⟩ =>
    pure w [Token.group delim body opening closing] _

instance invisible (p q : Parser α) [h : Follows w loose p q] :
    Follows w loose (Parser.invisible p) (Parser.invisible q) where
  run s := by
    simp only [Parser.invisible, stream_tokens_retouch]
    rcases s.tokens with _ | ⟨_ | _ | _ | ⟨_ | _ | _ | _, body, opening, closing⟩, rest⟩
    case cons.group.invisible =>
      simp only [retouch_cons, retouch_group]
      exact inside_run w h s .invisible body rest opening closing
    all_goals simp [fail_retouch]

instance ahead (p q : Parser α) [h : Follows w loose p q] :
    Follows w loose (Parser.ahead p) (Parser.ahead q) where
  run s := by
    have hstream : { retouch w.toRetouch s with leftover := none } =
      retouch w.toRetouch { s with leftover := none } := rfl
    simp only [Parser.ahead, hstream]
    obtain hrun | ⟨hloose, pos, hdeep⟩ := h.run { s with leftover := none }
    · refine .inl ?_
      simp only [hrun]
      cases p { s with leftover := none } with
      | error error =>
        simp only [retouch_error, cause_retouch]
        split <;> rfl
      | ok found => rfl
    · exact .inr ⟨hloose, pos, by simp only [hdeep, if_true]⟩

instance resume (after after' : Stream) [h : Moved w after after'] :
    Follows w loose (Parser.resume after) (Parser.resume after') :=
  modified w fun s => by
    simp only [h.eq, leftover_retouch, ← retouch_or]
    rfl

/-! ### Words and literals -/

instance ident : Follows w loose Parser.ident Parser.ident :=
  of_eq w fun s => by
    simp only [Parser.ident, stream_tokens_retouch, bare_retouch]
    rcases bare s.tokens with _ | ⟨⟨name, pos⟩ | _ | _ | _, rest⟩ <;>
      simp only [retouch_nil, retouch_cons, retouch_ident, retouch_punct, retouch_literal,
        retouch_group, fail_retouch]
    split <;> rfl

instance anyIdent : Follows w loose Parser.anyIdent Parser.anyIdent :=
  of_eq w fun s => by
    simp only [Parser.anyIdent, stream_tokens_retouch, bare_retouch]
    rcases bare s.tokens with _ | ⟨⟨name, pos⟩ | _ | _ | _, rest⟩ <;>
      simp only [retouch_nil, retouch_cons, retouch_ident, retouch_punct, retouch_literal,
        retouch_group, fail_retouch]
    rfl

instance identOrUnderscore : Follows w loose Parser.identOrUnderscore Parser.identOrUnderscore := by
  unfold Parser.identOrUnderscore
  infer_instance

instance lifetime : Follows w loose Parser.lifetime Parser.lifetime :=
  of_eq w fun s => by
    simp only [Parser.lifetime, stream_tokens_retouch, bare_retouch]
    rcases bare s.tokens with _ | ⟨_ | ⟨c, spacing, pos⟩ | _ | _, _ | ⟨⟨name, at_⟩ | _ | _ | _, rest⟩⟩ <;>
      simp only [retouch_nil, retouch_cons, retouch_ident, retouch_punct, retouch_literal,
        retouch_group, fail_retouch, w.spacing]
    by_cases hquote : c = '\''
    · subst hquote
      cases spacing <;> rfl
    · simp [hquote]

instance lit : Follows w loose Parser.lit Parser.lit :=
  of_eq w fun s => by
    simp only [Parser.lit, stream_tokens_retouch, lit?_retouch]
    cases lit? s.tokens with
    | none => exact fail_retouch w _ s
    | some found => rfl

instance callBody : Follows w loose Parser.callBody Parser.callBody :=
  of_eq w fun s => by
    simp only [Parser.callBody, stream_tokens_retouch]
    rcases s.tokens with _ | ⟨_ | _ | _ | ⟨_ | _ | _ | _, body, opening, closing⟩, rest⟩ <;>
      simp only [retouch_nil, retouch_cons, retouch_ident, retouch_punct, retouch_literal,
        retouch_group, fail_retouch] <;> rfl

instance opIf (text : String) : Follows w loose (op? text) (op? text) := by
  unfold op?
  infer_instance

instance wordIf (name : String) : Follows w loose (word? name) (word? name) := by
  unfold word?
  infer_instance

instance lifetimeIf : Follows w loose lifetime? lifetime? := by
  unfold lifetime?
  infer_instance

/-! ### Repetitions and choices -/

instance repeatWhile (test : Tokens → Bool) (p q : Parser α) [Blind w test] [Follows w loose p q] :
    Follows w loose (Parser.repeatWhile test p) (Parser.repeatWhile test q) := by
  have go : ∀ n, Follows w loose (Parser.repeatWhile.go test p n) (Parser.repeatWhile.go test q n) := by
    intro n
    induction n with
    | zero => exact pure w _ _
    | succ n ih =>
      unfold Parser.repeatWhile.go
      infer_instance
  unfold Parser.repeatWhile
  infer_instance

instance separatedUntil (stop : Tokens → Bool) (separator : String) (p q : Parser α) [Blind w stop]
    [Follows w loose p q] : Follows w loose (Parser.separatedUntil stop separator p)
      (Parser.separatedUntil stop separator q) := by
  have go : ∀ n, Follows w loose (Parser.separatedUntil.go stop separator p n)
      (Parser.separatedUntil.go stop separator q n) := by
    intro n
    induction n with
    | zero => exact pure w _ _
    | succ n ih =>
      unfold Parser.separatedUntil.go
      infer_instance
  unfold Parser.separatedUntil
  infer_instance

instance separatedWhile (stop : Tokens → Bool) (separator : String) (p q : Parser α) [Blind w stop]
    [Follows w loose p q] : Follows w loose (Parser.separatedWhile stop separator p)
      (Parser.separatedWhile stop separator q) := by
  have go : ∀ n, Follows w loose (Parser.separatedWhile.go stop separator p n)
      (Parser.separatedWhile.go stop separator q n) := by
    intro n
    induction n with
    | zero => exact pure w _ _
    | succ n ih =>
      unfold Parser.separatedWhile.go
      infer_instance
  unfold Parser.separatedWhile
  infer_instance

instance terminated (p q : Parser α) [Follows w loose p q] :
    Follows w loose (Parser.terminated p) (Parser.terminated q) :=
  separatedUntil w List.isEmpty "," p q

instance modPath : Follows w loose modPath modPath := by
  have go : ∀ n, Follows w loose (modPath.go n) (modPath.go n) := by
    intro n
    induction n with
    | zero => exact pure w _ _
    | succ n ih =>
      unfold modPath.go
      infer_instance
  unfold Grammar.Parser.modPath
  infer_instance

instance seq_nil : Follows w loose (seq []) (seq []) := pure w [] []

instance seq_cons (p q : Parser Tokens) (ps qs : List (Parser Tokens)) [Follows w loose p q]
    [Follows w loose (seq ps) (seq qs)] : Follows w loose (seq (p :: ps)) (seq (q :: qs)) := by
  unfold Parser.seq
  infer_instance

instance optionally (test : Tokens → Bool) (p q : Parser Tokens) [Blind w test] [Follows w loose p q] :
    Follows w loose (Parser.optionally test p) (Parser.optionally test q) := by
  unfold Parser.optionally
  infer_instance

instance opOpt (text : String) : Follows w loose (opOpt text) (opOpt text) :=
  optionally w (Look.op text) (Parser.op text) (Parser.op text)

instance identTokens : Follows w loose identTokens identTokens := by
  unfold Parser.identTokens
  infer_instance

instance lifetimeOpt : Follows w loose lifetimeOpt lifetimeOpt := by
  refine andThen w inferInstance fun found => ?_
  cases found with
  | none => exact pure w [] []
  | some name => exact pure w name.tokens (retouch w.toRetouch name).tokens

instance commaList (p q : Parser Tokens) [Follows w loose p q] :
    Follows w loose (commaList p) (commaList q) := by
  unfold Parser.commaList separatedTokens
  infer_instance

end Follows

/-- Alternatives of a choice that follow each other, with the same names and tests. -/
class Alternatives (loose : Prop) (ps qs : List (String × (Tokens → Bool) × Parser α)) : Prop where
  /-- They follow each other one by one. -/
  each : List.Forall₂
    (fun p q => q.1 = p.1 ∧ q.2.1 = p.2.1 ∧ Blind w p.2.1 ∧ Follows w loose p.2.2 q.2.2) ps qs

namespace Alternatives

variable {loose : Prop}

instance nil : Alternatives w loose ([] : List (String × (Tokens → Bool) × Parser α)) [] := ⟨.nil⟩

instance cons (name : String) (test : Tokens → Bool) (p q : Parser α)
    (ps qs : List (String × (Tokens → Bool) × Parser α)) [hb : Blind w test] [h : Follows w loose p q]
    [hs : Alternatives w loose ps qs] :
    Alternatives w loose ((name, test, p) :: ps) ((name, test, q) :: qs) :=
  ⟨.cons ⟨rfl, rfl, hb, h⟩ hs.each⟩

instance append (ps qs ps' qs' : List (String × (Tokens → Bool) × Parser α))
    [h : Alternatives w loose ps qs] [h' : Alternatives w loose ps' qs'] :
    Alternatives w loose (ps ++ ps') (qs ++ qs') := ⟨List.rel_append h.each h'.each⟩

instance ite (c c' : Prop) [Decidable c] [Decidable c']
    (ps qs ps' qs' : List (String × (Tokens → Bool) × Parser α)) [hc : Same w c c']
    [h : Alternatives w loose ps qs] [h' : Alternatives w loose ps' qs'] :
    Alternatives w loose (if c then ps else ps') (if c' then qs else qs') := by
  by_cases hp : c
  · rw [if_pos hp, if_pos (hc.iff.mpr hp)]
    exact h
  · rw [if_neg hp, if_neg (mt hc.iff.mp hp)]
    exact h'

end Alternatives

namespace Follows

variable {loose : Prop}

instance choose (ps qs : List (String × (Tokens → Bool) × Parser α)) [h : Alternatives w loose ps qs] :
    Follows w loose (Parser.choose ps) (Parser.choose qs) := by
  have hnames : qs.map Prod.fst = ps.map Prod.fst := by
    induction h.each with
    | nil => rfl
    | cons hfirst _ ih => rw [List.map_cons, List.map_cons, hfirst.1, ih]
  unfold Parser.choose
  rw [hnames]
  generalize ps.map Prod.fst = names
  clear hnames
  obtain ⟨heach⟩ := h
  induction heach with
  | nil => exact expected w names
  | @cons first second _ _ hfirst _ ih =>
    obtain ⟨name, test, p⟩ := first
    obtain ⟨name', test', q⟩ := second
    obtain ⟨-, htest, hblind, hp⟩ := hfirst
    obtain rfl : test' = test := htest
    have hblind : Blind w test' := hblind
    have hp : Follows w loose p q := hp
    unfold Parser.choose.go
    infer_instance

end Follows

end Fieldwise.Grammar
