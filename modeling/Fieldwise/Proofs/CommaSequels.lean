import Fieldwise.Proofs.ValueSequels

/-!
# Parsers before a comma

A comma outside of groups ends whatever comes before it. A parser that succeeds on some tokens does the same where a
comma and other tokens follow them, which is `Stops`: unlike for other sequels it does not matter whether the parser
leaves any of its own tokens, so parsers with this property can be put together without further conditions. The tests
that they make have to give the same answer at the end and before the comma, which is `Settled`.
-/

namespace Fieldwise.Grammar

open Fieldwise.Grammar.Parser Fieldwise.Token

set_option synthInstance.maxSize 4096

variable {α β : Type} (q : Sequel)

variable {p p' : Parser α} {tokens : Tokens} {s t : Stream} {f : α → Parser β}

/-- A comma follows, to which nothing is joined. -/
class Parting : Prop where
  /-- Nothing is joined. -/
  apart : q.joins = false
  /-- A comma comes first. -/
  comma : opensComma q.rest = true

/-! ## Operators -/

/-- An operator that is found is found before others too. -/
theorem dropOp_append {cs : List Char} {left : Tokens} (hovert : overtAll tokens = true)
    (h : dropOp cs tokens = some left) (more : Tokens) : dropOp cs (tokens ++ more) = some (left ++ more) := by
  induction cs generalizing tokens with
  | nil =>
    cases h
    rfl
  | cons c rest ih =>
    rcases tokens with _ | ⟨token, tokens⟩
    · contradiction
    · rw [overtAll, Bool.and_eq_true] at hovert
      rw [dropOp, bare_cons hovert.1] at h
      rw [List.cons_append, dropOp, bare_cons hovert.1]
      rcases token with _ | ⟨d, spacing, pos⟩ | _ | _ <;> try contradiction
      grind

/-- An operator without a comma in it does not go on with a comma. -/
theorem dropOp_append_none {cs : List Char} {more : Tokens} (hovert : overtAll tokens = true) (hcs : ',' ∉ cs)
    (hmore : opensComma more = true) (h : dropOp cs tokens = none) : dropOp cs (tokens ++ more) = none := by
  induction cs generalizing tokens with
  | nil => contradiction
  | cons c rest ih =>
    rw [List.mem_cons, not_or] at hcs
    rcases tokens with _ | ⟨token, tokens⟩
    · obtain ⟨spacing, pos, after, rfl⟩ := exists_of_opensComma hmore
      rw [List.nil_append, dropOp, bare_cons rfl]
      simp [Ne.symm hcs.1]
    · rw [overtAll, Bool.and_eq_true] at hovert
      rw [dropOp, bare_cons hovert.1] at h
      rw [List.cons_append, dropOp, bare_cons hovert.1]
      rcases token with _ | ⟨d, spacing, pos⟩ | _ | _ <;> try rfl
      grind

/-- An operator other than a comma. -/
class Sign (text : String) : Prop where
  /-- It has a first character. -/
  ne : text.toList ≠ []
  /-- It has no comma. -/
  free : ',' ∉ text.toList

instance : Sign "::" := ⟨by decide, by decide⟩
instance : Sign ":" := ⟨by decide, by decide⟩
instance : Sign ";" := ⟨by decide, by decide⟩
instance : Sign "." := ⟨by decide, by decide⟩
instance : Sign ".." := ⟨by decide, by decide⟩
instance : Sign "..." := ⟨by decide, by decide⟩
instance : Sign "..=" := ⟨by decide, by decide⟩
instance : Sign "=" := ⟨by decide, by decide⟩
instance : Sign "=>" := ⟨by decide, by decide⟩
instance : Sign "->" := ⟨by decide, by decide⟩
instance : Sign "<" := ⟨by decide, by decide⟩
instance : Sign "<=" := ⟨by decide, by decide⟩
instance : Sign "<<=" := ⟨by decide, by decide⟩
instance : Sign ">" := ⟨by decide, by decide⟩
instance : Sign "|" := ⟨by decide, by decide⟩
instance : Sign "||" := ⟨by decide, by decide⟩
instance : Sign "|=" := ⟨by decide, by decide⟩
instance : Sign "&" := ⟨by decide, by decide⟩
instance : Sign "&=" := ⟨by decide, by decide⟩
instance : Sign "*" := ⟨by decide, by decide⟩
instance : Sign "*=" := ⟨by decide, by decide⟩
instance : Sign "-" := ⟨by decide, by decide⟩
instance : Sign "-=" := ⟨by decide, by decide⟩
instance : Sign "!" := ⟨by decide, by decide⟩
instance : Sign "!=" := ⟨by decide, by decide⟩
instance : Sign "+" := ⟨by decide, by decide⟩
instance : Sign "/" := ⟨by decide, by decide⟩
instance : Sign "%" := ⟨by decide, by decide⟩
instance : Sign "^" := ⟨by decide, by decide⟩
instance : Sign "?" := ⟨by decide, by decide⟩
instance : Sign "#" := ⟨by decide, by decide⟩
instance : Sign "@" := ⟨by decide, by decide⟩

/-! ## Tests -/

/-- A test that gives the same answer before others, whether tokens are left or not. -/
class Settled (test : Tokens → Bool) : Prop where
  /-- What follows makes no difference. -/
  same : ∀ tokens, overtAll tokens = true → test (q.linked tokens ++ q.rest) = test tokens

/-- A test that holds of some token. -/
class Begins (test : Tokens → Bool) : Prop where
  /-- It does not hold at the end. -/
  nil : test [] = false

instance (priority := low) Steady.settled (test : Tokens → Bool) [h : Settled q test] : Steady q test :=
  ⟨fun tokens hovert _ => h.same tokens hovert⟩

instance (priority := low) Quiet.settled (test : Tokens → Bool) [h : Settled q test] : Quiet q test :=
  ⟨h.same [] rfl⟩

namespace Settled

variable [hq : Parting q]

theorem of_steady {test : Tokens → Bool} [h : Steady q test]
    (hcomma : ∀ spacing pos rest, test (.punct ',' spacing pos :: rest) = test []) : Settled q test where
  same tokens hovert := by
    by_cases hne : tokens = []
    · obtain ⟨spacing, pos, rest, hrest⟩ := exists_of_opensComma hq.comma
      rw [hne, hrest]
      exact hcomma spacing pos rest
    · exact h.same tokens hovert (good_of_opensComma hq.comma hne)

instance op (text : String) [hsign : Sign text] : Settled q (Look.op text) where
  same tokens hovert := by
    rw [linked_apart hq.apart, Look.op, Look.op]
    cases hdrop : dropOp text.toList tokens with
    | none => rw [dropOp_append_none hovert hsign.free hq.comma hdrop]
    | some left =>
      rw [dropOp_append hovert hdrop]
      rfl

instance word (name : String) : Settled q (Look.word name) := of_steady q fun _ _ _ => rfl

instance words (names : List String) : Settled q (Look.words names) where
  same tokens hovert := by simp only [Look.words, (word q _).same tokens hovert]

instance anyWord : Settled q Look.anyWord := of_steady q fun _ _ _ => rfl

instance ident : Settled q Look.ident := of_steady q fun _ _ _ => rfl

instance lifetime : Settled q Look.lifetime := of_steady q fun _ _ _ => rfl

instance group (delim : Delim) : Settled q (Look.group delim) :=
  of_steady q fun _ _ _ => by cases delim <;> rfl

instance lookLit : Settled q lookLit := of_steady q fun _ _ _ => rfl

/-- A literal is read from the tokens that are left, or not at all. -/
theorem lit? (hovert : overtAll tokens = true) :
    Parser.lit? (q.linked tokens ++ q.rest) = (Parser.lit? tokens).map fun r => (r.1, q.linked r.2 ++ q.rest) := by
  by_cases hne : tokens = []
  · obtain ⟨spacing, pos, rest, hrest⟩ := exists_of_opensComma hq.comma
    rw [hne, hrest]
    rfl
  · exact lit?_grown q hovert hne

instance lookLitKind (test : Literal.Kind → Bool) : Settled q (lookLitKind test) where
  same tokens hovert := by
    rw [Parser.lookLitKind, Parser.lookLitKind, lit? q hovert]
    cases Parser.lit? tokens <;> rfl

omit hq in
instance const (b : Bool) : Settled q fun _ => b := ⟨fun _ _ => rfl⟩

omit hq in
instance not (test : Tokens → Bool) [h : Settled q test] : Settled q fun ts => !test ts :=
  ⟨fun tokens hovert => by rw [h.same tokens hovert]⟩

omit hq in
instance and (test other : Tokens → Bool) [h : Settled q test] [h' : Settled q other] :
    Settled q fun ts => test ts && other ts :=
  ⟨fun tokens hovert => by rw [h.same tokens hovert, h'.same tokens hovert]⟩

omit hq in
instance or (test other : Tokens → Bool) [h : Settled q test] [h' : Settled q other] :
    Settled q fun ts => test ts || other ts :=
  ⟨fun tokens hovert => by rw [h.same tokens hovert, h'.same tokens hovert]⟩

omit hq in
instance any_nil : Settled q (Look.any []) := ⟨fun _ _ => rfl⟩

omit hq in
instance any_cons (test : Tokens → Bool) (tests : List (Tokens → Bool)) [h : Settled q test]
    [h' : Settled q (Look.any tests)] : Settled q (Look.any (test :: tests)) where
  same tokens hovert := by
    have hrest := h'.same tokens hovert
    simp only [Look.any, List.any_cons] at hrest ⊢
    rw [h.same tokens hovert, hrest]

/-- After a test that holds of some token, another one is made with that token left. -/
instance (priority := low) guard (test other : Tokens → Bool) [h : Settled q test] [hbegins : Begins test]
    [h' : Steady q other] : Settled q fun ts => test ts && other ts where
  same tokens hovert := by
    rw [h.same tokens hovert]
    by_cases hne : tokens = []
    · rw [hne, hbegins.nil, Bool.false_and, Bool.false_and]
    · rw [h'.same tokens hovert (good_of_opensComma hq.comma hne)]

end Settled

namespace Begins

instance op (text : String) [h : Sign text] : Begins (Look.op text) where
  nil := by
    obtain ⟨c, more, htext⟩ := List.exists_cons_of_ne_nil h.ne
    rw [Look.op, htext]
    rfl

instance word (name : String) : Begins (Look.word name) := ⟨rfl⟩

instance ident : Begins Look.ident := ⟨rfl⟩

instance lifetime : Begins Look.lifetime := ⟨rfl⟩

end Begins

/-- Where a token is left after the first one, a test of what comes after both sees no difference. -/
instance Steady.second_third [hq : Parting q] (test other : Tokens → Bool) [h : Settled q test] [hbegins : Begins test]
    [h' : Settled q other] : Steady q fun ts => Look.second test ts && Look.third other ts where
  same tokens hovert hgood := by
    obtain ⟨left, hdrop, hsuffix, hgrown⟩ := dropTree_grown q hovert hgood
    have hleft := overtAll_of_suffix hsuffix hovert
    simp only [Look.second, Look.third, hdrop, hgrown, Option.any_some, Option.bind_some, h.same left hleft]
    by_cases hne : left = []
    · rw [hne, hbegins.nil, Bool.false_and, Bool.false_and]
    · obtain ⟨left', hdrop', hsuffix', hgrown'⟩ := dropTree_grown q hleft (good_of_opensComma hq.comma hne)
      rw [hdrop', hgrown', Option.any_some, Option.any_some, h'.same left' (overtAll_of_suffix hsuffix' hleft)]

/-! ## Parsers -/

/-- On fewer tokens than some number, the second parser does before others what the first one does. -/
class StopsTo (k : Nat) (p p' : Parser α) : Prop where
  /-- It leaves the end of the tokens. -/
  suffix : ∀ s a t, s.tokens.length < k → overtAll s.tokens = true → p s = .ok (a, t) → t.tokens <:+ s.tokens
  /-- What it leaves, if anything, is followed by the others. -/
  grown : ∀ s a t, s.tokens.length < k → overtAll s.tokens = true → p s = .ok (a, t) →
    p' (q.grow s) = .ok (a, q.grow t)

/-- A parser that does the same before others, whether it leaves something or not. -/
class Stops (p : Parser α) : Prop where
  /-- On any number of tokens. -/
  below : ∀ k, StopsTo q k p p

namespace Stops

variable {q}

theorem suffix (h : Stops q p) {a : α} (hovert : overtAll s.tokens = true) (ha : p s = .ok (a, t)) :
    t.tokens <:+ s.tokens :=
  (h.below (s.tokens.length + 1)).suffix s a t (Nat.lt_succ_self _) hovert ha

theorem grown (h : Stops q p) {a : α} (hovert : overtAll s.tokens = true) (ha : p s = .ok (a, t)) :
    p (q.grow s) = .ok (a, q.grow t) :=
  (h.below (s.tokens.length + 1)).grown s a t (Nat.lt_succ_self _) hovert ha

theorem intro (hsuffix : ∀ s a t, overtAll s.tokens = true → p s = .ok (a, t) → t.tokens <:+ s.tokens)
    (hgrown : ∀ s a t, overtAll s.tokens = true → p s = .ok (a, t) → p (q.grow s) = .ok (a, q.grow t)) :
    Stops q p :=
  ⟨fun _ => ⟨fun s a t _ => hsuffix s a t, fun s a t _ => hgrown s a t⟩⟩

end Stops

/-- Run a parser, and go on only if it has taken something. -/
def whileTaking (p : Parser α) (f : α → Parser α) : Parser α := do
  let before := (← get).tokens.length
  let a ← p
  if (← get).tokens.length = before then return a else f a

theorem whileTaking_eq_ok {f : α → Parser α} {b : α} :
    whileTaking p f s = .ok (b, t) ↔ ∃ a m, p s = .ok (a, m) ∧
      if m.tokens.length = s.tokens.length then b = a ∧ t = m else f a m = .ok (b, t) := by
  have hrun : whileTaking p f s = (p >>= fun a m =>
      (if m.tokens.length = s.tokens.length then pure a else f a : Parser α) m) s := rfl
  rw [hrun, bind_eq_ok]
  refine exists_congr fun a => exists_congr fun m => and_congr_right fun _ => ?_
  split
  · exact pure_eq_ok.trans (by simp [eq_comm])
  · rfl

namespace StopsTo

variable {k : Nat}

instance (priority := low) same (p : Parser α) [h : Stops q p] : StopsTo q k p p := h.below k

/-- One parser after another, which may have more or fewer tokens left depending on what the first one returns. -/
theorem chain {j : α → Nat} {f' : α → Parser β} (hp : StopsTo q k p p')
    (hlt : ∀ s a m, overtAll s.tokens = true → p s = .ok (a, m) → s.tokens.length < k → m.tokens.length < j a)
    (hf : ∀ a, StopsTo q (j a) (f a) (f' a)) : StopsTo q k (p >>= f) (p' >>= f') where
  suffix s b t hk hovert h := by
    obtain ⟨a, m, ha, hb⟩ := bind_eq_ok.mp h
    have hm := hp.suffix s a m hk hovert ha
    exact ((hf a).suffix m b t (hlt s a m hovert ha hk) (overtAll_of_suffix hm hovert) hb).trans hm
  grown s b t hk hovert h := by
    obtain ⟨a, m, ha, hb⟩ := bind_eq_ok.mp h
    have hm := overtAll_of_suffix (hp.suffix s a m hk hovert ha) hovert
    exact bind_eq_ok.mpr ⟨a, q.grow m, hp.grown s a m hk hovert ha,
      (hf a).grown m b t (hlt s a m hovert ha hk) hm hb⟩

instance next (p : Parser α) (f f' : α → Parser β) [hp : Stops q p] [hf : ∀ a, StopsTo q k (f a) (f' a)] :
    StopsTo q k (p >>= f) (p >>= f') :=
  chain q (hp.below k) (fun _ _ _ hovert ha hk => Nat.lt_of_le_of_lt (hp.suffix hovert ha).length_le hk) hf

instance (priority := high) taking (p : Parser α) (f f' : α → Parser β) [hp : Stops q p] [htakes : Takes p]
    [hf : ∀ a, StopsTo q k (f a) (f' a)] : StopsTo q (k + 1) (p >>= f) (p >>= f') :=
  chain q (hp.below (k + 1)) (fun s a m hovert ha hk => by have := htakes.lt s a m hovert ha; omega) hf

instance first (p p' : Parser α) (f : α → Parser β) [hp : StopsTo q k p p'] [hf : ∀ a, Stops q (f a)] :
    StopsTo q k (p >>= f) (p' >>= f) where
  suffix s b t hk hovert h := by
    obtain ⟨a, m, ha, hb⟩ := bind_eq_ok.mp h
    have hm := hp.suffix s a m hk hovert ha
    exact ((hf a).suffix (overtAll_of_suffix hm hovert) hb).trans hm
  grown s b t hk hovert h := by
    obtain ⟨a, m, ha, hb⟩ := bind_eq_ok.mp h
    have hm := overtAll_of_suffix (hp.suffix s a m hk hovert ha) hovert
    exact bind_eq_ok.mpr ⟨a, q.grow m, hp.grown s a m hk hovert ha, (hf a).grown hm hb⟩

theorem orElse {c : Prop} [Decidable c] {r r' : Parser α} (hp : StopsTo q k p p') (hr : StopsTo q k r r') :
    StopsTo q k (if c then p else r) (if c then p' else r') := by
  by_cases hc : c
  · simpa only [if_pos hc] using hp
  · simpa only [if_neg hc] using hr

instance ite (c : Prop) [Decidable c] (p p' r r' : Parser α) [hp : StopsTo q k p p'] [hr : StopsTo q k r r'] :
    StopsTo q k (if c then p else r) (if c then p' else r') := orElse q hp hr

/-- What depends on the stream, but not on what follows. -/
theorem ofState {f f' : Stream → Parser α} (hsame : ∀ s, overtAll s.tokens = true → f' (q.grow s) = f' s)
    (hf : ∀ s, StopsTo q k (f s) (f' s)) : StopsTo q k (get >>= f) (get >>= f') where
  suffix s a t hk hovert ha := (hf s).suffix s a t hk hovert ha
  grown s a t hk hovert ha := by
    have hrun : ∀ s, (get >>= f') s = f' s s := fun s => rfl
    rw [hrun, hsame s hovert]
    exact (hf s).grown s a t hk hovert ha

theorem whileTaking (hp : Stops q p) {f f' : α → Parser α} (hf : ∀ a, StopsTo q k (f a) (f' a)) :
    StopsTo q (k + 1) (whileTaking p f) (whileTaking p f') where
  suffix s b t hk hovert h := by
    obtain ⟨a, m, ha, hb⟩ := whileTaking_eq_ok.mp h
    have hm := hp.suffix hovert ha
    have hle := hm.length_le
    split at hb
    · rw [hb.2]
      exact hm
    · exact ((hf a).suffix m b t (by omega) (overtAll_of_suffix hm hovert) hb).trans hm
  grown s b t hk hovert h := by
    obtain ⟨a, m, ha, hb⟩ := whileTaking_eq_ok.mp h
    have hm := hp.suffix hovert ha
    have hle := hm.length_le
    have hlength : (q.grow m).tokens.length = (q.grow s).tokens.length ↔ m.tokens.length = s.tokens.length := by
      simp [Sequel.grow, length_linked]
    refine whileTaking_eq_ok.mpr ⟨a, q.grow m, hp.grown hovert ha, ?_⟩
    simp only [hlength]
    split at hb <;> rename_i hsame
    · rw [if_pos hsame]
      exact ⟨hb.1, by rw [hb.2]⟩
    · rw [if_neg hsame]
      exact (hf a).grown m b t (by omega) (overtAll_of_suffix hm hovert) hb

/-- A list is read alike if each of its rounds is, whatever is carried from one round to the next. There are more
rounds than tokens, and each round takes one, so it does not matter how many there are. -/
theorem carriedLoop {ι : Type} {go : ι → Nat → Parser α}
    (h : ∀ k n m, (∀ i, StopsTo q k (go i n) (go i m)) → ∀ i, StopsTo q (k + 1) (go i (n + 1)) (go i (m + 1)))
    (i : ι) : Stops q (rounds >>= go i) := by
  have hgo : ∀ k n m, k ≤ n → k ≤ m → ∀ i, StopsTo q k (go i n) (go i m) := by
    intro k
    induction k with
    | zero => exact fun n m _ _ _ => ⟨fun s a t hk => by omega, fun s a t hk => by omega⟩
    | succ k ih =>
      intro n m hn hm
      obtain ⟨n, rfl⟩ : ∃ n', n = n' + 1 := ⟨n - 1, by omega⟩
      obtain ⟨m, rfl⟩ : ∃ m', m = m' + 1 := ⟨m - 1, by omega⟩
      exact h k n m (ih n m (by omega) (by omega))
  have hrun : ∀ s, (rounds >>= go i) s = go i (sizeAll s.tokens + 1) s := fun s => rfl
  have hrounds : ∀ s, StopsTo q (s.tokens.length + 1) (go i (sizeAll s.tokens + 1))
      (go i (sizeAll (q.grow s).tokens + 1)) := by
    intro s
    have hlength := length_le_sizeAll s.tokens
    have hgrown := length_le_sizeAll (q.grow s).tokens
    rw [Sequel.grow, List.length_append, length_linked] at hgrown
    exact hgo _ _ _ (by omega) (by rw [Sequel.grow]; omega) i
  refine .intro (fun s a t hovert ha => ?_) fun s a t hovert ha => ?_
  · rw [hrun] at ha
    exact (hrounds s).suffix s a t (Nat.lt_succ_self _) hovert ha
  · rw [hrun] at ha ⊢
    exact (hrounds s).grown s a t (Nat.lt_succ_self _) hovert ha

theorem loop {go : Nat → Parser α}
    (h : ∀ k n m, StopsTo q k (go n) (go m) → StopsTo q (k + 1) (go (n + 1)) (go (m + 1))) :
    Stops q (rounds >>= go) :=
  carriedLoop q (fun k n m ih (_ : Unit) => h k n m (ih ())) ()

end StopsTo

namespace Stops

/-- A parser that leaves the stream, and sees nothing of what follows. -/
theorem of_same (h : ∀ s a t, p s = .ok (a, t) → t = s)
    (hgrown : ∀ s a, overtAll s.tokens = true → p s = .ok (a, s) → p (q.grow s) = .ok (a, q.grow s)) : Stops q p :=
  .intro
    (fun s a t _ ha => by
      obtain rfl := h s a t ha
      exact List.suffix_refl _)
    fun s a t hovert ha => by
      obtain rfl := h s a t ha
      exact hgrown t a hovert ha

theorem of_error (h : ∀ s, ∃ e, p s = .error e) : Stops q p :=
  of_same q (fun s a t ha => by obtain ⟨e, he⟩ := h s; simp [he] at ha)
    fun s a _ ha => by obtain ⟨e, he⟩ := h s; simp [he] at ha

instance pure (a : α) : Stops q (Pure.pure a : Parser α) :=
  of_same q (fun s b t h => (pure_eq_ok.mp h).2.symm) fun s b _ h => by
    obtain ⟨rfl, -⟩ := pure_eq_ok.mp h
    rfl

theorem andThen (hp : Stops q p) (hf : ∀ a, Stops q (f a)) : Stops q (p >>= f) :=
  ⟨fun k => have := fun a => (hf a).below k; StopsTo.next q p f f⟩

instance bind (p : Parser α) (f : α → Parser β) [hp : Stops q p] [hf : ∀ a, Stops q (f a)] : Stops q (p >>= f) :=
  andThen q hp hf

instance map (f : α → β) (p : Parser α) [Stops q p] : Stops q (f <$> p) :=
  inferInstanceAs (Stops q (p >>= fun a => Pure.pure (f a)))

theorem orElse {c : Prop} [Decidable c] (hp : Stops q p) (hp' : Stops q p') : Stops q (if c then p else p') :=
  ⟨fun k => StopsTo.orElse q (hp.below k) (hp'.below k)⟩

instance ite (c : Prop) [Decidable c] (p p' : Parser α) [hp : Stops q p] [hp' : Stops q p'] :
    Stops q (if c then p else p') := orElse q hp hp'

instance look (test : Tokens → Bool) [h : Settled q test] : Stops q (Parser.look test) :=
  of_same q (fun s b t hb => (look_eq_ok.mp hb).2.symm) fun s b hovert hb => by
    obtain ⟨rfl, -⟩ := look_eq_ok.mp hb
    exact look_eq_ok.mpr ⟨h.same s.tokens hovert, rfl⟩

instance failAt (pos : Pos) (cause : Cause) : Stops q (Parser.failAt pos cause : Parser α) :=
  of_error q fun _ => ⟨_, rfl⟩

instance failHere (cause : Cause) : Stops q (Parser.failHere cause : Parser α) :=
  of_error q fun _ => ⟨_, rfl⟩

instance expected (names : List String) : Stops q (Parser.expected names : Parser α) :=
  of_error q fun _ => ⟨_, rfl⟩

instance violated (rule : String) : Stops q (Parser.violated rule : Parser α) :=
  of_error q fun _ => ⟨_, rfl⟩

/-- What depends on the stream, but not on what follows. -/
theorem ofState {f : Stream → Parser α} (hsame : ∀ s, overtAll s.tokens = true → f (q.grow s) = f s)
    (hf : ∀ s, Stops q (f s)) : Stops q (get >>= f) :=
  ⟨fun k => StopsTo.ofState q hsame fun s => (hf s).below k⟩

/-- A place is the same before others where a token has to come next. -/
theorem here_needs {f : Pos → Parser β} (hf : ∀ pos, Stops q (f pos)) (hneeds : ∀ pos, Needs (f pos)) :
    Stops q (here >>= f) :=
  .intro (fun s _ _ hovert ha => (hf s.here).suffix hovert ha) fun s b t hovert hb => by
    have hrun : ∀ s, (here >>= f) s = f s.here s := fun s => rfl
    have hne : s.tokens ≠ [] := fun hs => (hneeds s.here).fails s b t hs hb
    rw [hrun, here_grow q hne]
    exact (hf s.here).grown hovert hb

theorem here_unused {f : Pos → Parser β} (hf : ∀ pos, Stops q (f pos))
    (hsame : ∀ pos pos' s b t, f pos s = .ok (b, t) → f pos' s = .ok (b, t)) : Stops q (here >>= f) :=
  .intro (fun s _ _ hovert ha => (hf s.here).suffix hovert ha) fun s b t hovert hb =>
    (hf _).grown hovert (hsame s.here (q.grow s).here s b t hb)

theorem since [hq : Parting q] (hp : Stops q p) : Stops q (get >>= fun before => p >>= fun _ => since before) := by
  have hrun : ∀ s, (get >>= fun before => p >>= fun _ => Parser.since before) s =
      (p >>= fun _ => Parser.since s) s := fun s => rfl
  refine .intro (fun s tokens t hovert h => ?_) fun s tokens t hovert h => ?_
  all_goals
    rw [hrun] at h
    obtain ⟨a, m, ha, hb⟩ := bind_eq_ok.mp h
    cases hb
  · exact hp.suffix hovert ha
  · rw [hrun]
    refine bind_eq_ok.mpr ⟨a, q.grow t, hp.grown hovert ha, ?_⟩
    have hle := (hp.suffix hovert ha).length_le
    have hlength : s.tokens.length + q.rest.length - (t.tokens.length + q.rest.length) =
        s.tokens.length - t.tokens.length := by omega
    simp only [Parser.since, Sequel.grow, linked_apart hq.apart, List.length_append, hlength]
    rw [List.take_append_of_le_length (by omega)]

/-- A parser that does the same before others as long as it leaves something, and before a comma if it does not. -/
theorem of_closes [hq : Parting q] (hextends : Extends q p) (hcloses : Closes q Eq p) (hidles : Idles q p) :
    Stops q p :=
  .intro hextends.suffix fun s a t hovert ha => by
    by_cases hs : s.tokens = []
    · exact (hidles.idle s a t hs ha).2
    · by_cases ht : t.tokens = []
      · obtain ⟨-, b, rfl, hgrown⟩ := (hcloses.below (s.tokens.length + 1)).closed s a t (Nat.lt_succ_self _) hovert hs
          (good_of_opensComma hq.comma hs).fits ha ht
        exact hgrown
      · exact hextends.grown s a t hovert ha (good_of_opensComma hq.comma ht)

instance picks [Parting q] (p : Parser α) [Picks p] : Stops q p := of_closes q inferInstance inferInstance inferInstance

instance enclosed [Parting q] (delim : Delim) (p : Parser Tokens) : Stops q (enclosed delim p) :=
  inferInstanceAs (Stops q (_ >>= _))

theorem of_never (h : ∀ s a t, overtAll s.tokens = true → p s ≠ .ok (a, t)) : Stops q p :=
  .intro (fun s a t hovert ha => absurd ha (h s a t hovert)) fun s a t hovert ha => absurd ha (h s a t hovert)

instance (priority := high) invisible (p : Parser α) (f : α × Pos × Pos → Parser β) : Stops q (invisible p >>= f) := by
  refine of_never q fun s b t hovert hb => ?_
  obtain ⟨a, m, ha, -⟩ := bind_eq_ok.mp hb
  unfold Parser.invisible at ha
  split at ha
  · rename_i htokens
    simp [htokens, overtAll, overt] at hovert
  · simp [Parser.fail] at ha

instance lifetime [Parting q] : Stops q lifetime := of_closes q inferInstance inferInstance inferInstance

instance lit [hq : Parting q] : Stops q lit :=
  .intro (Extends.lit q).suffix fun s a t hovert ha => by
    obtain ⟨hlit, ht⟩ := lit_eq_ok.mp ha
    refine lit_eq_ok.mpr ⟨?_, ?_⟩
    · have hgrown : lit? (q.grow s).tokens = _ := Settled.lit? q hovert
      rw [hgrown, hlit]
      rfl
    · rw [ht]
      rfl

instance op [hq : Parting q] (text : String) : Stops q (Parser.op text) :=
  .intro (Extends.op q text).suffix fun s a t hovert ha => by
    unfold Parser.op at ha ⊢
    split at ha
    · rename_i rest hdrop
      cases ha
      have hgrown : dropOp text.toList (q.grow s).tokens = some (rest ++ q.rest) := by
        rw [Sequel.grow, linked_apart hq.apart]
        exact dropOp_append hovert hdrop q.rest
      have hplace : operator (q.grow s).here text.toList = operator s.here text.toList := by
        by_cases hs : s.tokens = []
        · -- Only an operator without characters is found at the end.
          rw [hs] at hdrop
          cases htext : text.toList with
          | nil => rfl
          | cons c more =>
            rw [htext] at hdrop
            contradiction
        · rw [here_grow q hs]
      rw [hgrown, hplace]
      simp only [Sequel.grow, linked_apart hq.apart]
    · contradiction

/-! ### Lists and choices -/

section Lists

variable [Parting q]

instance repeatWhile (test : Tokens → Bool) (p : Parser α) [Settled q test] [Stops q p] [Takes p] :
    Stops q (repeatWhile test p) := by
  refine StopsTo.loop q fun k n m ih => ?_
  simp only [repeatWhile.go]
  infer_instance

instance separatedUntil (stop : Tokens → Bool) (p : Parser α) [Settled q stop] [Stops q p] :
    Stops q (separatedUntil stop "," p) := by
  refine StopsTo.loop q fun k n m ih => ?_
  simp only [separatedUntil.go]
  infer_instance

instance separatedWhile (stop : Tokens → Bool) (p : Parser α) [Settled q stop] [Stops q p] :
    Stops q (separatedWhile stop "+" p) := by
  refine StopsTo.loop q fun k n m ih => ?_
  simp only [separatedWhile.go]
  infer_instance

omit [Parting q] in
instance choose_nil (names : List String) : Stops q (choose.go names [] : Parser α) := expected q names

omit [Parting q] in
instance choose_cons (names : List String) (name : String) (test : Tokens → Bool) (p : Parser α)
    (rest : List (String × (Tokens → Bool) × Parser α)) [Settled q test] [Stops q p]
    [Stops q (choose.go names rest)] : Stops q (choose.go names ((name, test, p) :: rest)) :=
  inferInstanceAs (Stops q (_ >>= _))

omit [Parting q] in
instance choose (named : List (String × (Tokens → Bool) × Parser α))
    [h : Stops q (choose.go (named.map Prod.fst) named)] : Stops q (choose named) := h

omit [Parting q] in
instance seq_nil : Stops q (seq []) := pure q []

omit [Parting q] in
instance seq_cons (p : Parser Tokens) (ps : List (Parser Tokens)) [Stops q p] [Stops q (seq ps)] :
    Stops q (seq (p :: ps)) := inferInstanceAs (Stops q (_ >>= _))

omit [Parting q] in
instance optionally (test : Tokens → Bool) (p : Parser Tokens) [Settled q test] [Stops q p] :
    Stops q (optionally test p) := inferInstanceAs (Stops q (_ >>= _))

instance opOpt (text : String) [Sign text] : Stops q (opOpt text) := inferInstanceAs (Stops q (Parser.optionally _ _))

instance wordIf (name : String) : Stops q (word? name) := inferInstanceAs (Stops q (_ >>= _))

instance lifetimeIf : Stops q lifetime? := inferInstanceAs (Stops q (_ >>= _))

instance lifetimeOpt : Stops q lifetimeOpt := by
  refine andThen q inferInstance fun found => ?_
  cases found <;> infer_instance

instance identTokens : Stops q identTokens := inferInstanceAs (Stops q (_ >>= _))

end Lists

end Stops

/-- A choice between parsers of which each does what the other one does. -/
instance StopsTo.choose_cons {k : Nat} (names : List String) (name : String) (test : Tokens → Bool) (p p' : Parser α)
    (rest rest' : List (String × (Tokens → Bool) × Parser α)) [Settled q test] [StopsTo q k p p']
    [StopsTo q k (choose.go names rest) (choose.go names rest')] :
    StopsTo q k (choose.go names ((name, test, p) :: rest)) (choose.go names ((name, test, p') :: rest')) :=
  inferInstanceAs (StopsTo q k (_ >>= _) (_ >>= _))

namespace Takes

instance (priority := low) sign (text : String) [h : Sign text] : Takes (Parser.op text) := .op h.ne

instance failing (names : List String) : Takes (Parser.expected names : Parser α) :=
  ⟨fun _ _ _ _ ha => nomatch ha⟩

instance wrap (p : Parser α) (g : α → β) [h : Takes p] : Takes (p >>= fun a => pure (g a)) where
  lt s b t hovert hb := by
    obtain ⟨a, m, ha, hb⟩ := bind_eq_ok.mp hb
    obtain ⟨-, rfl⟩ := pure_eq_ok.mp hb
    exact h.lt s a m hovert ha

instance afterLook (test : Tokens → Bool) (f : Bool → Parser β) [hf : ∀ b, Takes (f b)] :
    Takes (look test >>= f) := ⟨fun s => (hf (test s.tokens)).lt s⟩

instance afterHere (f : Pos → Parser β) [hf : ∀ pos, Takes (f pos)] : Takes (here >>= f) :=
  ⟨fun s => (hf s.here).lt s⟩

/-- One parser takes a token, and another one follows it. -/
theorem before (hp : Takes p) (hstops : Stops q p) (hf : ∀ a, Stops q (f a)) :
    Takes (p >>= f) where
  lt s b t hovert h := by
    obtain ⟨a, m, ha, hb⟩ := bind_eq_ok.mp h
    have hle := ((hf a).suffix (overtAll_of_suffix (hstops.suffix hovert ha) hovert) hb).length_le
    have hlt := hp.lt s a m hovert ha
    omega

end Takes

end Fieldwise.Grammar
