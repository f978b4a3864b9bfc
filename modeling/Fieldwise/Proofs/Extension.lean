import Fieldwise.Proofs.Sequels

/-!
# Parsers before other tokens

A parser that has read some tokens reads them again where others follow, as long as it could not have taken any
of those. If it leaves some of its own tokens it does not see the difference, which is `Extends`. If it takes all
of them it sees what follows, which is `Closes`; a character at the end may be joined to what follows, so what is
read to the end is the same value up to a relation. A parser with nothing to take from must not begin on what
follows, which is `Idles`.
-/

namespace Fieldwise.Grammar

open Fieldwise.Grammar.Parser Fieldwise.Token

set_option synthInstance.maxSize 4096

variable {α β : Type} (q : Sequel)

variable {f : α → Parser β} {s t : Stream}

/-! ## With tokens left -/

/-- The parser takes from the front, and as long as it leaves something it does the same before others. -/
class Extends (p : Parser α) : Prop where
  /-- It leaves the end of the tokens. -/
  suffix : ∀ s a t, overtAll s.tokens = true → p s = .ok (a, t) → t.tokens <:+ s.tokens
  /-- What it leaves is followed by the others. -/
  grown : ∀ s a t, overtAll s.tokens = true → p s = .ok (a, t) → q.Good t.tokens →
    p (q.grow s) = .ok (a, q.grow t)

/-- The parser takes a token. -/
class Takes (p : Parser α) : Prop where
  /-- It leaves fewer tokens. -/
  lt : ∀ s a t, overtAll s.tokens = true → p s = .ok (a, t) → t.tokens.length < s.tokens.length

namespace Extends

/-- A parser that leaves the stream, and sees nothing but its first tokens. -/
theorem of_same {p : Parser α} (h : ∀ s a t, p s = .ok (a, t) → t = s)
    (hgrown : ∀ s a, overtAll s.tokens = true → q.Good s.tokens → p s = .ok (a, s) →
      p (q.grow s) = .ok (a, q.grow s)) : Extends q p where
  suffix s a t _ ha := by
    obtain rfl := h s a t ha
    exact List.suffix_refl _
  grown s a t hovert ha hgood := by
    obtain rfl := h s a t ha
    exact hgrown t a hovert hgood ha

theorem of_error {p : Parser α} (h : ∀ s, ∃ e, p s = .error e) : Extends q p :=
  of_same q (fun s a t ha => by obtain ⟨e, he⟩ := h s; simp [he] at ha)
    fun s a _ _ ha => by obtain ⟨e, he⟩ := h s; simp [he] at ha

instance pure (a : α) : Extends q (Pure.pure a : Parser α) :=
  of_same q (fun s b t h => (pure_eq_ok.mp h).2.symm) fun s b _ _ h => by
    obtain ⟨rfl, -⟩ := pure_eq_ok.mp h
    rfl

theorem andThen {p : Parser α} (hp : Extends q p) (hf : ∀ a, Extends q (f a)) :
    Extends q (p >>= f) where
  suffix s b t hovert h := by
    obtain ⟨a, m, ha, hb⟩ := bind_eq_ok.mp h
    have hm := hp.suffix s a m hovert ha
    exact ((hf a).suffix m b t (overtAll_of_suffix hm hovert) hb).trans hm
  grown s b t hovert h hgood := by
    obtain ⟨a, m, ha, hb⟩ := bind_eq_ok.mp h
    have hm := overtAll_of_suffix (hp.suffix s a m hovert ha) hovert
    have hgood' : q.Good m.tokens := hgood.of_suffix ((hf a).suffix m b t hm hb)
    exact bind_eq_ok.mpr ⟨a, q.grow m, hp.grown s a m hovert ha hgood', (hf a).grown m b t hm hb hgood⟩

instance bind (p : Parser α) (f : α → Parser β) [hp : Extends q p] [hf : ∀ a, Extends q (f a)] :
    Extends q (p >>= f) := andThen q hp hf

instance map (f : α → β) (p : Parser α) [Extends q p] : Extends q (f <$> p) :=
  inferInstanceAs (Extends q (p >>= fun a => Pure.pure (f a)))

theorem orElse {c : Prop} [Decidable c] {p p' : Parser α} (hp : Extends q p) (hp' : Extends q p') :
    Extends q (if c then p else p') := by
  by_cases hc : c
  · simpa only [if_pos hc] using hp
  · simpa only [if_neg hc] using hp'

instance ite (c : Prop) [Decidable c] (p p' : Parser α) [hp : Extends q p] [hp' : Extends q p'] :
    Extends q (if c then p else p') := orElse q hp hp'

instance look (test : Tokens → Bool) [h : Steady q test] : Extends q (Parser.look test) :=
  of_same q (fun s b t hb => (look_eq_ok.mp hb).2.symm) fun s b hovert hgood hb => by
    obtain ⟨rfl, -⟩ := look_eq_ok.mp hb
    exact look_eq_ok.mpr ⟨h.same s.tokens hovert hgood, rfl⟩

instance here : Extends q Parser.here :=
  of_same q (fun s b t hb => by cases hb; rfl) fun s b _ hgood hb => by
    cases hb
    exact congrArg (fun pos => Except.ok (pos, q.grow s)) (here_grow q hgood.ne)

instance failAt (pos : Pos) (cause : Cause) : Extends q (Parser.failAt pos cause : Parser α) :=
  of_error q fun _ => ⟨_, rfl⟩

instance failHere (cause : Cause) : Extends q (Parser.failHere cause : Parser α) :=
  of_error q fun _ => ⟨_, rfl⟩

instance fail (cause : Cause) : Extends q (Parser.fail cause : Parser α) :=
  of_error q fun _ => ⟨_, rfl⟩

instance expected (names : List String) : Extends q (Parser.expected names : Parser α) :=
  fail q (.expected names)

instance op (text : String) : Extends q (Parser.op text) where
  suffix s a t hovert h := by
    unfold Parser.op at h
    split at h
    · rename_i rest hdrop
      cases h
      exact dropOp_suffix hovert hdrop
    · contradiction
  grown s a t hovert h hgood := by
    unfold Parser.op at h ⊢
    split at h
    · rename_i rest hdrop
      cases h
      have hne : s.tokens ≠ [] := (hgood.of_suffix (dropOp_suffix hovert hdrop)).ne
      rw [here_grow q hne]
      simp only [Sequel.grow, dropOp_grown q hovert hdrop hgood.ne]
    · contradiction

end Extends

/-! ### Single tokens -/

/-- The parser takes one token, which is no punctuation character, and looks at nothing else. -/
class Picks (p : Parser α) : Prop where
  /-- What it makes of the token and of an earlier token that is left over. -/
  run : ∃ view : Token → Option (Pos × Delim) → Option (α × Option (Pos × Delim)),
    (∀ c spacing pos leftover, view (.punct c spacing pos) leftover = none) ∧
      ∀ s a t, overtAll s.tokens = true →
        (p s = .ok (a, t) ↔ ∃ token rest, s.tokens = token :: rest ∧
          view token s.leftover = some (a, t.leftover) ∧ t = ⟨rest, s.stop, s.delim, t.leftover⟩)

namespace Picks

variable {p : Parser α}

theorem cons (h : Picks p) {a : α} (hovert : overtAll s.tokens = true) (ha : p s = .ok (a, t)) :
    ∃ token, s.tokens = token :: t.tokens ∧
      (∀ c spacing pos, token ≠ .punct c spacing pos) ∧
      p ⟨token :: (q.linked t.tokens ++ q.rest), q.stop, q.delim, s.leftover⟩ = .ok (a, q.grow t) := by
  obtain ⟨view, hpunct, hrun⟩ := h.run
  obtain ⟨token, rest, htokens, hview, ht⟩ := (hrun s a t hovert).mp ha
  have hrest : t.tokens = rest := by rw [ht]
  rw [htokens, overtAll, Bool.and_eq_true] at hovert
  refine ⟨token, by rw [htokens, hrest], ?_, ?_⟩
  · rintro c spacing pos rfl
    simp [hpunct] at hview
  · have hgrown : overtAll (token :: (q.linked t.tokens ++ q.rest)) = true := by
      rw [overtAll, hovert.1, hrest, overtAll_grown q hovert.2]
      rfl
    exact (hrun _ a _ hgrown).mpr ⟨token, _, rfl, hview, rfl⟩

instance anyIdent : Picks anyIdent where
  run := by
    refine ⟨fun token left => match token with
      | .ident name pos => some (⟨name, pos⟩, left)
      | _ => none, fun _ _ _ _ => rfl, fun s a t hovert => ?_⟩
    obtain ⟨_ | ⟨token, rest⟩, stop, delim, leftover⟩ := s
    · simp [Parser.anyIdent, Parser.fail, bare_overt hovert]
    · rcases token with _ | _ | _ | _ <;> simp [Parser.anyIdent, Parser.fail, bare_overt hovert]
      grind

instance ident : Picks ident where
  run := by
    refine ⟨fun token left => match token with
      | .ident name pos => if isKeyword name then none else some (⟨name, pos⟩, left)
      | _ => none, fun _ _ _ _ => rfl, fun s a t hovert => ?_⟩
    obtain ⟨_ | ⟨token, rest⟩, stop, delim, leftover⟩ := s
    · simp [Parser.ident, Parser.fail, bare_overt hovert]
    · rcases token with _ | _ | _ | _ <;> simp [Parser.ident, Parser.fail, bare_overt hovert]
      grind

instance word (name : String) : Picks (word name) where
  run := by
    refine ⟨fun token left => match token with
      | .ident found pos => if found == name then some ([.ident found pos], left) else none
      | _ => none, fun _ _ _ _ => rfl, fun s a t hovert => ?_⟩
    obtain ⟨_ | ⟨token, rest⟩, stop, delim, leftover⟩ := s
    · simp [Parser.word, Parser.fail, bare_overt hovert]
    · rcases token with _ | _ | _ | _ <;> simp [Parser.word, Parser.fail, bare_overt hovert]
      grind

/-- A group is taken whole, whatever its inside is parsed with. -/
instance within (delim : Delim) (p : Parser α) : Picks (within delim p) where
  run := by
    refine ⟨fun token left => match token with
      | .group found body opening closing =>
        if found = delim then
          match p ⟨body, closing, delim, none⟩ with
          | .ok (value, inner) =>
            some ((value, opening, closing), (left.or inner.leftover).or inner.remainder)
          | .error _ => none
        else none
      | _ => none, fun _ _ _ _ => rfl, fun s a t hovert => ?_⟩
    obtain ⟨_ | ⟨token, rest⟩, stop, around, leftover⟩ := s
    · simp [Parser.within, Parser.fail, bare_overt hovert]
    · rcases token with _ | _ | _ | ⟨found, body, opening, closing⟩ <;>
        simp [Parser.within, Parser.fail, bare_overt hovert]
      by_cases hdelim : found = delim
      · simp only [hdelim, if_true]
        cases p ⟨body, closing, delim, none⟩ with
        | error error => simp
        | ok found => grind
      · simp [hdelim]

instance callBody : Picks callBody where
  run := by
    refine ⟨fun token left => match token with
      | .group delim body opening closing => some ((delim, body, opening, closing), left)
      | _ => none, fun _ _ _ _ => rfl, fun s a t hovert => ?_⟩
    obtain ⟨_ | ⟨token, rest⟩, stop, around, leftover⟩ := s
    · simp [Parser.callBody, Parser.fail]
    · rcases token with _ | _ | _ | ⟨_ | _ | _ | _, body, opening, closing⟩ <;>
        simp [Parser.callBody, Parser.fail]
      all_goals first | grind | simp [overtAll, overt] at hovert

end Picks

namespace Extends

instance picks (p : Parser α) [h : Picks p] : Extends q p where
  suffix s a t hovert ha := by
    obtain ⟨token, htokens, -⟩ := h.cons q hovert ha
    rw [htokens]
    exact List.suffix_cons token _
  grown s a t hovert ha hgood := by
    obtain ⟨token, htokens, -, hrun⟩ := h.cons q hovert ha
    rw [Sequel.grow, htokens, linked_cons q token hgood.ne]
    exact hrun

instance enclosed (delim : Delim) (p : Parser Tokens) : Extends q (enclosed delim p) :=
  inferInstanceAs (Extends q (_ >>= _))

instance invisible (p : Parser α) : Extends q (invisible p) := by
  have hfail : ∀ s a t, overtAll s.tokens = true → Parser.invisible p s ≠ .ok (a, t) := by
    intro s a t hovert ha
    unfold Parser.invisible at ha
    split at ha
    · rename_i htokens
      simp [htokens, overtAll, overt] at hovert
    · simp [Parser.fail] at ha
  exact ⟨fun s a t hovert ha => absurd ha (hfail s a t hovert),
    fun s a t hovert ha _ => absurd ha (hfail s a t hovert)⟩

end Extends

/-! ### Lifetimes and literals -/

theorem lifetime_eq_ok {a : Lifetime} (hovert : overtAll s.tokens = true) :
    lifetime s = .ok (a, t) ↔ ∃ pos name at_ rest,
      s.tokens = .punct '\'' .joint pos :: .ident name at_ :: rest ∧ a = ⟨pos, ⟨name, at_⟩⟩ ∧
        t = { s with tokens := rest } := by
  obtain ⟨tokens, stop, delim, leftover⟩ := s
  simp only [lifetime, Parser.fail, bare_overt hovert]
  split
  · simp only [Except.ok.injEq, Prod.mk.injEq]
    grind
  · grind

instance Extends.lifetime : Extends q lifetime where
  suffix s a t hovert ha := by
    obtain ⟨pos, name, at_, rest, htokens, -, rfl⟩ := (lifetime_eq_ok hovert).mp ha
    rw [htokens]
    exact (List.suffix_cons _ _).trans (List.suffix_cons _ _)
  grown s a t hovert ha hgood := by
    obtain ⟨pos, name, at_, rest, htokens, rfl, rfl⟩ := (lifetime_eq_ok hovert).mp ha
    have hgrown : q.linked s.tokens = .punct '\'' .joint pos :: .ident name at_ :: q.linked rest := by
      rw [htokens, Sequel.linked, linked_cons q _ hgood.ne]
    refine (lifetime_eq_ok (overtAll_grown q hovert)).mpr ⟨pos, name, at_, q.linked rest ++ q.rest, ?_, rfl, rfl⟩
    rw [Sequel.grow, hgrown]
    rfl

theorem lit?_suffix {tokens left : Tokens} {found : Lit} (hovert : overtAll tokens = true)
    (h : lit? tokens = some (found, left)) : left <:+ tokens := by
  unfold lit? at h
  rw [bare_overt hovert] at h
  split at h
  · cases h
    exact List.suffix_cons _ _
  · split at h
    · cases h
      exact List.suffix_cons _ _
    · contradiction
  · rename_i spacing pos rest
    have hrest : overtAll rest = true := by simpa [overtAll, overt] using hovert
    rw [bare_overt hrest] at h
    split at h
    · simp only [Option.map_eq_some_iff, Prod.mk.injEq] at h
      obtain ⟨kind, -, -, rfl⟩ := h
      exact (List.suffix_cons _ _).trans (List.suffix_cons _ _)
    · contradiction
  · contradiction

theorem lit_eq_ok {a : Lit} :
    lit s = .ok (a, t) ↔ lit? s.tokens = some (a, t.tokens) ∧ t = { s with tokens := t.tokens } := by
  unfold lit
  split
  · rename_i found rest h
    simp only [Except.ok.injEq, Prod.mk.injEq, h, Option.some.injEq]
    grind
  · rename_i h
    simp [h, Parser.fail]

instance Extends.lit : Extends q lit where
  suffix s a t hovert ha := lit?_suffix hovert (lit_eq_ok.mp ha).1
  grown s a t hovert ha hgood := by
    obtain ⟨hlit, ht⟩ := lit_eq_ok.mp ha
    have hgood' := hgood.of_suffix (lit?_suffix hovert hlit)
    refine lit_eq_ok.mpr ⟨?_, ?_⟩
    · have hgrown : lit? (q.grow s).tokens = _ := lit?_grown q hovert hgood'.ne
      rw [hgrown, hlit]
      rfl
    · rw [ht]
      rfl

/-! ### Parsers that take something -/

namespace Takes

theorem andThen {p : Parser α} (hp : Takes p) (hq : Extends q p) (hf : ∀ a, Extends q (f a)) : Takes (p >>= f) where
  lt s b t hovert h := by
    obtain ⟨a, m, ha, hb⟩ := bind_eq_ok.mp h
    have hm := overtAll_of_suffix (hq.suffix s a m hovert ha) hovert
    have hle := ((hf a).suffix m b t hm hb).length_le
    have hlt := hp.lt s a m hovert ha
    omega

theorem after {p : Parser α} (hp : Extends q p) (hf : ∀ a, Takes (f a)) :
    Takes (p >>= f) where
  lt s b t hovert h := by
    obtain ⟨a, m, ha, hb⟩ := bind_eq_ok.mp h
    have hm := hp.suffix s a m hovert ha
    have hlt := (hf a).lt m b t (overtAll_of_suffix hm hovert) hb
    have hle := hm.length_le
    omega

theorem op {text : String} (h : text.toList ≠ []) : Takes (Parser.op text) where
  lt s a t hovert ha := by
    unfold Parser.op at ha
    split at ha
    · rename_i rest hdrop
      cases ha
      refine Nat.lt_of_le_of_ne (dropOp_suffix hovert hdrop).length_le fun heq => ?_
      -- An operator has a first character, and that one is gone.
      obtain ⟨c, more, hcs⟩ := List.exists_cons_of_ne_nil h
      rw [hcs, dropOp, bare_overt hovert] at hdrop
      split at hdrop
      · rename_i d spacing pos after htokens
        have hafter : overtAll after = true := by simpa [htokens, overtAll, overt] using hovert
        have hle : rest.length ≤ after.length := by
          repeat' split at hdrop
          · cases hdrop
            exact Nat.le_refl _
          · exact (dropOp_suffix hafter hdrop).length_le
          all_goals contradiction
        simp only [htokens, List.length_cons] at heq
        omega
      · contradiction
    · contradiction

instance (priority := low) ite (c : Prop) [Decidable c] (p p' : Parser α) [hp : Takes p] [hp' : Takes p'] :
    Takes (if c then p else p') := by
  by_cases hc : c
  · simpa only [if_pos hc] using hp
  · simpa only [if_neg hc] using hp'

instance op_path : Takes (Parser.op "::") := .op (by decide)

instance op_arrow : Takes (Parser.op "->") := .op (by decide)

instance op_less : Takes (Parser.op "<") := .op (by decide)

instance op_greater : Takes (Parser.op ">") := .op (by decide)

instance op_comma : Takes (Parser.op ",") := .op (by decide)

instance op_plus : Takes (Parser.op "+") := .op (by decide)

instance op_bang : Takes (Parser.op "!") := .op (by decide)

instance op_hash : Takes (Parser.op "#") := .op (by decide)

instance picks (p : Parser α) [h : Picks p] : Takes p where
  lt s a t hovert ha := by
    obtain ⟨view, -, hrun⟩ := h.run
    obtain ⟨token, rest, htokens, -, ht⟩ := (hrun s a t hovert).mp ha
    rw [ht, htokens]
    exact Nat.lt_succ_self _

instance lifetime : Takes lifetime where
  lt s a t hovert ha := by
    obtain ⟨pos, name, at_, rest, htokens, -, rfl⟩ := (lifetime_eq_ok hovert).mp ha
    rw [htokens]
    simp only [List.length_cons]
    omega

end Takes

/-! ### Lists and choices -/

/-- On fewer tokens than some number, the second parser does before others what the first one does. -/
class ExtendsTo (k : Nat) (p p' : Parser α) : Prop where
  /-- It leaves the end of the tokens. -/
  suffix : ∀ s a t, s.tokens.length < k → overtAll s.tokens = true → p s = .ok (a, t) →
    t.tokens <:+ s.tokens
  /-- What is left is followed by the others. -/
  grown : ∀ s a t, s.tokens.length < k → overtAll s.tokens = true → p s = .ok (a, t) →
    q.Good t.tokens → p' (q.grow s) = .ok (a, q.grow t)

namespace ExtendsTo

variable {k : Nat}

instance (priority := low) same (p : Parser α) [h : Extends q p] : ExtendsTo q k p p :=
  ⟨fun s a t _ => h.suffix s a t, fun s a t _ => h.grown s a t⟩

instance next (p : Parser α) (f f' : α → Parser β) [hp : Extends q p]
    [hf : ∀ a, ExtendsTo q k (f a) (f' a)] : ExtendsTo q k (p >>= f) (p >>= f') where
  suffix s b t hk hovert h := by
    obtain ⟨a, m, ha, hb⟩ := bind_eq_ok.mp h
    have hm := hp.suffix s a m hovert ha
    have hle := hm.length_le
    exact ((hf a).suffix m b t (by omega) (overtAll_of_suffix hm hovert) hb).trans hm
  grown s b t hk hovert h hgood := by
    obtain ⟨a, m, ha, hb⟩ := bind_eq_ok.mp h
    have hm := hp.suffix s a m hovert ha
    have hle := hm.length_le
    have hovert' := overtAll_of_suffix hm hovert
    have hgood' := hgood.of_suffix ((hf a).suffix m b t (by omega) hovert' hb)
    exact bind_eq_ok.mpr ⟨a, q.grow m, hp.grown s a m hovert ha hgood',
      (hf a).grown m b t (by omega) hovert' hb hgood⟩

instance (priority := high) taking (p : Parser α) (f f' : α → Parser β) [hp : Extends q p]
    [htakes : Takes p] [hf : ∀ a, ExtendsTo q k (f a) (f' a)] :
    ExtendsTo q (k + 1) (p >>= f) (p >>= f') where
  suffix s b t hk hovert h := by
    obtain ⟨a, m, ha, hb⟩ := bind_eq_ok.mp h
    have hm := hp.suffix s a m hovert ha
    have hlt := htakes.lt s a m hovert ha
    exact ((hf a).suffix m b t (by omega) (overtAll_of_suffix hm hovert) hb).trans hm
  grown s b t hk hovert h hgood := by
    obtain ⟨a, m, ha, hb⟩ := bind_eq_ok.mp h
    have hm := hp.suffix s a m hovert ha
    have hlt := htakes.lt s a m hovert ha
    have hovert' := overtAll_of_suffix hm hovert
    have hgood' := hgood.of_suffix ((hf a).suffix m b t (by omega) hovert' hb)
    exact bind_eq_ok.mpr ⟨a, q.grow m, hp.grown s a m hovert ha hgood',
      (hf a).grown m b t (by omega) hovert' hb hgood⟩

instance first (p p' : Parser α) (f : α → Parser β) [hp : ExtendsTo q k p p']
    [hf : ∀ a, Extends q (f a)] : ExtendsTo q k (p >>= f) (p' >>= f) where
  suffix s b t hk hovert h := by
    obtain ⟨a, m, ha, hb⟩ := bind_eq_ok.mp h
    have hm := hp.suffix s a m hk hovert ha
    exact ((hf a).suffix m b t (overtAll_of_suffix hm hovert) hb).trans hm
  grown s b t hk hovert h hgood := by
    obtain ⟨a, m, ha, hb⟩ := bind_eq_ok.mp h
    have hm := hp.suffix s a m hk hovert ha
    have hovert' := overtAll_of_suffix hm hovert
    have hgood' := hgood.of_suffix ((hf a).suffix m b t hovert' hb)
    exact bind_eq_ok.mpr ⟨a, q.grow m, hp.grown s a m hk hovert ha hgood',
      (hf a).grown m b t hovert' hb hgood⟩

instance ite (c : Prop) [Decidable c] (p p' r r' : Parser α) [hp : ExtendsTo q k p p']
    [hr : ExtendsTo q k r r'] : ExtendsTo q k (if c then p else r) (if c then p' else r') := by
  by_cases hc : c
  · simpa only [if_pos hc] using hp
  · simpa only [if_neg hc] using hr

/-- A list is read alike if each of its rounds is, whatever is carried from one round to the next. There are more
rounds than tokens, and each round takes one, so it does not matter how many there are. -/
theorem carriedLoop {ι : Type} {go : ι → Nat → Parser α}
    (h : ∀ k n m, (∀ i, ExtendsTo q k (go i n) (go i m)) → ∀ i, ExtendsTo q (k + 1) (go i (n + 1)) (go i (m + 1)))
    (i : ι) : Extends q (rounds >>= go i) := by
  have hgo : ∀ k n m, k ≤ n → k ≤ m → ∀ i, ExtendsTo q k (go i n) (go i m) := by
    intro k
    induction k with
    | zero => exact fun n m _ _ _ => ⟨fun s a t hk => by omega, fun s a t hk => by omega⟩
    | succ k ih =>
      intro n m hn hm
      obtain ⟨n, rfl⟩ : ∃ n', n = n' + 1 := ⟨n - 1, by omega⟩
      obtain ⟨m, rfl⟩ : ∃ m', m = m' + 1 := ⟨m - 1, by omega⟩
      exact h k n m (ih n m (by omega) (by omega))
  have hrun : ∀ s, (rounds >>= go i) s = go i (sizeAll s.tokens + 1) s := fun s => rfl
  have hrounds : ∀ s, ExtendsTo q (s.tokens.length + 1) (go i (sizeAll s.tokens + 1))
      (go i (sizeAll (q.grow s).tokens + 1)) := by
    intro s
    have hlength := length_le_sizeAll s.tokens
    have hgrown := length_le_sizeAll (q.grow s).tokens
    rw [Sequel.grow, List.length_append, length_linked] at hgrown
    exact hgo _ _ _ (by omega) (by rw [Sequel.grow]; omega) i
  constructor
  · intro s a t hovert ha
    rw [hrun] at ha
    exact (hrounds s).suffix s a t (Nat.lt_succ_self _) hovert ha
  · intro s a t hovert ha hgood
    rw [hrun] at ha ⊢
    exact (hrounds s).grown s a t (Nat.lt_succ_self _) hovert ha hgood

theorem loop {go : Nat → Parser α}
    (h : ∀ k n m, ExtendsTo q k (go n) (go m) → ExtendsTo q (k + 1) (go (n + 1)) (go (m + 1))) :
    Extends q (rounds >>= go) :=
  carriedLoop q (fun k n m ih (_ : Unit) => h k n m (ih ())) ()

end ExtendsTo

namespace Extends

instance repeatWhile (test : Tokens → Bool) (p : Parser α) [Steady q test] [Extends q p] [Takes p] :
    Extends q (repeatWhile test p) := by
  refine ExtendsTo.loop q fun k n m ih => ?_
  simp only [repeatWhile.go]
  infer_instance

instance separatedUntil_comma (stop : Tokens → Bool) (p : Parser α) [Steady q stop] [Extends q p] :
    Extends q (separatedUntil stop "," p) := by
  refine ExtendsTo.loop q fun k n m ih => ?_
  simp only [separatedUntil.go]
  infer_instance

instance separatedWhile_plus (stop : Tokens → Bool) (p : Parser α) [Steady q stop] [Extends q p] :
    Extends q (separatedWhile stop "+" p) := by
  refine ExtendsTo.loop q fun k n m ih => ?_
  simp only [separatedWhile.go]
  infer_instance

instance choose_nil (names : List String) : Extends q (choose.go names [] : Parser α) :=
  expected q names

instance choose_cons (names : List String) (name : String) (test : Tokens → Bool) (p : Parser α)
    (rest : List (String × (Tokens → Bool) × Parser α)) [Steady q test] [Extends q p]
    [Extends q (choose.go names rest)] : Extends q (choose.go names ((name, test, p) :: rest)) :=
  inferInstanceAs (Extends q (_ >>= _))

instance choose (named : List (String × (Tokens → Bool) × Parser α))
    [h : Extends q (choose.go (named.map Prod.fst) named)] : Extends q (choose named) := h

instance opIf (text : String) [Steady q (Look.op text)] : Extends q (op? text) :=
  inferInstanceAs (Extends q (_ >>= _))

instance wordIf (name : String) : Extends q (word? name) := inferInstanceAs (Extends q (_ >>= _))

instance lifetimeIf : Extends q lifetime? := inferInstanceAs (Extends q (_ >>= _))

end Extends

end Fieldwise.Grammar
