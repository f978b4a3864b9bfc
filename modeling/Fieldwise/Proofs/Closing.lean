import Fieldwise.Proofs.ExtensionTypes

/-!
# Types that end before other tokens

A rule of the grammar of types that takes all the tokens it is given takes the same tokens where others follow
them. What it returns is the same but for how the last character is joined to what follows, which only shows where
tokens are kept as they are.
-/

namespace Fieldwise.Grammar

open Fieldwise.Grammar.Parser Fieldwise.Token

set_option synthInstance.maxSize 4096

variable {α β : Type}

variable {p p' : Parser α} {f f' : α → Parser β} {g : α → β} {test : Tokens → Bool}

/-! ## At the end -/

/-- The parser fails where nothing is left. -/
class Needs (p : Parser α) : Prop where
  /-- It does not succeed. -/
  fails : ∀ s a t, s.tokens = [] → p s ≠ .ok (a, t)

/-- Where nothing is left, the parser does not begin on what follows. -/
class Idles (q : Sequel) (p : Parser α) : Prop where
  /-- It returns the same and takes nothing. -/
  idle : ∀ s a t, s.tokens = [] → p s = .ok (a, t) → t.tokens = [] ∧ p (q.grow s) = .ok (a, q.grow t)

namespace Needs

instance (priority := low) takes (p : Parser α) [h : Takes p] : Needs p where
  fails s a t hs ha := by
    have hlt := h.lt s a t (by rw [hs]; rfl) ha
    rw [hs] at hlt
    simp at hlt

theorem of_error (h : ∀ s, ∃ e, p s = .error e) : Needs p where
  fails s a t _ ha := by
    obtain ⟨e, he⟩ := h s
    simp [he] at ha

instance failAt (pos : Pos) (cause : Cause) : Needs (failAt pos cause : Parser α) :=
  of_error fun _ => ⟨_, rfl⟩

instance expected (names : List String) : Needs (expected names : Parser α) :=
  of_error fun _ => ⟨_, rfl⟩

instance bind (p : Parser α) (f : α → Parser β) [h : Needs p] : Needs (p >>= f) where
  fails s b t hs hb := by
    obtain ⟨a, m, ha, -⟩ := bind_eq_ok.mp hb
    exact h.fails s a m hs ha

/-- What comes first has nothing to take, and what comes next fails. -/
instance (priority := low) after (p : Parser α) (f : α → Parser β) [hp : Shrinks p]
    [hf : ∀ a, Needs (f a)] : Needs (p >>= f) where
  fails s b t hs hb := by
    obtain ⟨a, m, ha, hb⟩ := bind_eq_ok.mp hb
    have hle := hp.le s a m ha
    have hlength := length_le_sizeAll m.tokens
    rw [hs, sizeAll] at hle
    exact (hf a).fails m b t (List.length_eq_zero_iff.mp (by omega)) hb

instance map (f : α → β) (p : Parser α) [Needs p] : Needs (f <$> p) :=
  inferInstanceAs (Needs (p >>= fun a => pure (f a)))

instance ite (c : Prop) [Decidable c] (p p' : Parser α) [hp : Needs p] [hp' : Needs p'] :
    Needs (if c then p else p') := by
  by_cases hc : c
  · simpa only [if_pos hc] using hp
  · simpa only [if_neg hc] using hp'

theorem choose {named : List (String × (Tokens → Bool) × Parser α)}
    (h : (named.all fun entry => !entry.2.1 []) = true) : Needs (choose named) := by
  unfold Parser.choose
  generalize named.map Prod.fst = names
  induction named with
  | nil => exact expected names
  | cons entry rest ih =>
    obtain ⟨name, test, p⟩ := entry
    rw [List.all_cons, Bool.and_eq_true, Bool.not_eq_true'] at h
    obtain ⟨htest, hall⟩ := h
    have hrest := ih hall
    have htest : test [] = false := htest
    refine ⟨fun s a t hs ha => ?_⟩
    obtain ⟨b, m, hlook, ha⟩ := bind_eq_ok.mp ha
    obtain ⟨rfl, rfl⟩ := look_eq_ok.mp hlook
    rw [hs, htest] at ha
    exact hrest.fails s a t hs ha

end Needs

namespace Idles

variable (q : Sequel)

instance (priority := low) needs (p : Parser α) [h : Needs p] : Idles q p :=
  ⟨fun s a t hs ha => absurd ha (h.fails s a t hs)⟩

instance pure (a : α) : Idles q (Pure.pure a : Parser α) where
  idle s b t hs hb := by
    obtain ⟨rfl, rfl⟩ := pure_eq_ok.mp hb
    exact ⟨hs, rfl⟩

instance look (test : Tokens → Bool) [h : Quiet q test] : Idles q (look test) where
  idle s b t hs hb := by
    obtain ⟨rfl, rfl⟩ := look_eq_ok.mp hb
    refine ⟨hs, look_eq_ok.mpr ⟨?_, rfl⟩⟩
    rw [Sequel.grow, hs]
    exact h.same

instance bind (p : Parser α) (f : α → Parser β) [hp : Idles q p] [hf : ∀ a, Idles q (f a)] :
    Idles q (p >>= f) where
  idle s b t hs hb := by
    obtain ⟨a, m, ha, hb⟩ := bind_eq_ok.mp hb
    obtain ⟨hm, hgrown⟩ := hp.idle s a m hs ha
    obtain ⟨ht, hgrown'⟩ := (hf a).idle m b t hm hb
    exact ⟨ht, bind_eq_ok.mpr ⟨a, q.grow m, hgrown, hgrown'⟩⟩

instance map (f : α → β) (p : Parser α) [Idles q p] : Idles q (f <$> p) :=
  inferInstanceAs (Idles q (p >>= fun a => Pure.pure (f a)))

instance ite (c : Prop) [Decidable c] (p p' : Parser α) [hp : Idles q p] [hp' : Idles q p'] :
    Idles q (if c then p else p') := by
  by_cases hc : c
  · simpa only [if_pos hc] using hp
  · simpa only [if_neg hc] using hp'

theorem loop {go : Nat → Parser α} [h : Quiet q test] {step : Nat → Parser α} {base : α}
    (hgo : ∀ n, go (n + 1) = (do if ← Parser.look test then step n else return base)) (hnil : test [] = false) :
    Idles q (rounds >>= go) where
  idle s a t hs ha := by
    have hrun : ∀ s, (rounds >>= go) s = go (sizeAll s.tokens + 1) s := fun s => rfl
    have hbase : ∀ n s, test s.tokens = false → go (n + 1) s = .ok (base, s) := by
      intro n s htest
      rw [hgo, bind_run, look_run, ok_bind, htest]
      rfl
    rw [hrun, hbase _ s (by rw [hs, hnil])] at ha
    cases ha
    refine ⟨hs, ?_⟩
    rw [hrun, hbase]
    rw [Sequel.grow, hs]
    exact h.same.trans hnil

end Idles

/-! ## To the end -/

/-- On fewer tokens than some number, the second parser takes before others what the first one takes to the end. -/
class ClosesTo (q : Sequel) (R : α → α → Prop) (k : Nat) (p p' : Parser α) : Prop where
  /-- The last token ends what is read, and what is returned is related. -/
  closed : ∀ s a t, s.tokens.length < k → overtAll s.tokens = true → s.tokens ≠ [] →
    q.fits s.tokens = true → p s = .ok (a, t) → t.tokens = [] →
      firm s.tokens = true ∧ ∃ b, R a b ∧ p' (q.grow s) = .ok (b, q.grow t)

/-- A parser that takes all tokens that it is given takes them too where others follow. -/
class Closes (q : Sequel) (R : α → α → Prop) (p : Parser α) : Prop where
  /-- On any number of tokens. -/
  below : ∀ k, ClosesTo q R k p p

/-- What a continuation does with nothing left, if the value that it is given may be another one. -/
def Carries (q : Sequel) (R : α → α → Prop) (S : β → β → Prop) (f f' : α → Parser β) : Prop :=
  ∀ a a' s b t, R a a' → s.tokens = [] → f a s = .ok (b, t) →
    t.tokens = [] ∧ ∃ b', S b b' ∧ f' a' (q.grow s) = .ok (b', q.grow t)

theorem Carries.of_idles {q : Sequel} {S : β → β → Prop} [Std.Refl S] (h : ∀ a, Idles q (f a)) :
    Carries q Eq S f f := by
  rintro a _ s b t rfl hs hb
  obtain ⟨ht, hgrown⟩ := (h a).idle s b t hs hb
  exact ⟨ht, b, Std.Refl.refl b, hgrown⟩

theorem Carries.of_pure {q : Sequel} {R : α → α → Prop} {S : β → β → Prop} (h : ∀ a a', R a a' → S (g a) (g a')) :
    Carries q R S (fun a => pure (g a)) fun a => pure (g a) := by
  intro a a' s b t haa hs hb
  obtain ⟨rfl, rfl⟩ := pure_eq_ok.mp hb
  exact ⟨hs, _, h a a' haa, rfl⟩

/-- A value is returned if it has a property that related values share. -/
theorem Carries.of_guard {q : Sequel} {R : α → α → Prop} {S : β → β → Prop} {c : α → Bool} {pos : Pos} {cause : Cause}
    (hc : ∀ a a', R a a' → c a = c a') (h : ∀ a a', R a a' → S (g a) (g a')) :
    Carries q R S (fun a => if c a then pure (g a) else failAt pos cause) fun a =>
      if c a then pure (g a) else failAt pos cause := by
  intro a a' s b t haa hs hb
  simp only [← hc a a' haa] at hb ⊢
  cases htest : c a with
  | true =>
    rw [htest] at hb
    obtain ⟨rfl, rfl⟩ := pure_eq_ok.mp hb
    exact ⟨hs, _, h a a' haa, rfl⟩
  | false =>
    rw [htest] at hb
    contradiction

/-- A test with nothing left does not see what follows. -/
theorem Carries.look {q : Sequel} {R : α → α → Prop} {S : β → β → Prop} [hquiet : Quiet q test]
    {f f' : α → Bool → Parser β} {b : Bool} (hnil : test [] = b) (h : Carries q R S (fun a => f a b) fun a => f' a b) :
    Carries q R S (fun a => Parser.look test >>= f a) fun a => Parser.look test >>= f' a := by
  intro a a' s c t haa hs hc
  have hgrown : test (q.grow s).tokens = b := by
    rw [Sequel.grow, hs]
    exact hquiet.same.trans hnil
  simp only [bind_run, look_run, ok_bind, hs, hnil] at hc
  simp only [bind_run, look_run, ok_bind, hgrown]
  exact h a a' s c t haa hs hc

namespace ClosesTo

variable (q : Sequel) {R : α → α → Prop} {S : β → β → Prop} {k j : Nat}

instance (priority := low) same (p : Parser α) [h : Closes q R p] : ClosesTo q R k p p := h.below k

/-- One parser after another: either the first one takes everything, and the second one is left with a value
that is related, or it leaves something for the second one. -/
theorem carry (hp : Extends q p) (hc : Closes q R p)
    (hlt : ∀ s a m, overtAll s.tokens = true → p s = .ok (a, m) → s.tokens.length < k → m.tokens.length < j)
    (hf : ∀ a, ClosesTo q S j (f a) (f' a)) (hend : Carries q R S f f') :
    ClosesTo q S k (p >>= f) (p >>= f') where
  closed s b t hk hovert hne hfits h ht := by
    obtain ⟨a, m, ha, hb⟩ := bind_eq_ok.mp h
    have hm := hp.suffix s a m hovert ha
    by_cases hmne : m.tokens = []
    · obtain ⟨hfirm, a', haa, hgrown⟩ := (hc.below k).closed s a m hk hovert hne hfits ha hmne
      obtain ⟨-, b', hbb, hgrown'⟩ := hend a a' m b t haa hmne hb
      exact ⟨hfirm, b', hbb, bind_eq_ok.mpr ⟨a', q.grow m, hgrown, hgrown'⟩⟩
    · obtain ⟨hfirm, b', hbb, hgrown⟩ := (hf a).closed m b t (hlt s a m hovert ha hk)
        (overtAll_of_suffix hm hovert) hmne (fits_of_suffix q hm hfits) hb ht
      have hgood : q.Good m.tokens := ⟨hmne, by simp [hfirm], fits_of_suffix q hm hfits⟩
      exact ⟨firm_of_suffix hm hmne hfirm, b', hbb,
        bind_eq_ok.mpr ⟨a, q.grow m, hp.grown s a m hovert ha hgood, hgrown⟩⟩

theorem next (hp : Extends q p) (hc : Closes q R p) (hf : ∀ a, ClosesTo q S k (f a) (f' a))
    (hend : Carries q R S f f') : ClosesTo q S k (p >>= f) (p >>= f') :=
  carry q hp hc (fun s a m hovert ha hk => Nat.lt_of_le_of_lt (hp.suffix s a m hovert ha).length_le hk)
    hf hend

theorem taking (hp : Extends q p) (htakes : Takes p) (hc : Closes q R p) (hf : ∀ a, ClosesTo q S k (f a) (f' a))
    (hend : Carries q R S f f') : ClosesTo q S (k + 1) (p >>= f) (p >>= f') :=
  carry q hp hc (fun s a m hovert ha hk => by have := htakes.lt s a m hovert ha; omega) hf hend

theorem still (hp : Extends q p) (hsame : ∀ s a t, p s = .ok (a, t) → t = s) (hf : ∀ a, ClosesTo q S k (f a) (f' a)) :
    ClosesTo q S k (p >>= f) (p >>= f') := by
  have hc : Closes q (fun _ _ => False) p :=
    ⟨fun k => ⟨fun s a t _ _ hne _ ha ht => absurd (hsame s a t ha ▸ ht) hne⟩⟩
  exact next q hp hc hf fun a a' s b t hfalse => hfalse.elim

theorem look [Steady q test] {f f' : Bool → Parser β} (hf : ∀ b, ClosesTo q S k (f b) (f' b)) :
    ClosesTo q S k (Parser.look test >>= f) (Parser.look test >>= f') :=
  still q inferInstance (fun _ _ _ h => (look_eq_ok.mp h).2.symm) hf

theorem orElse {c : Prop} [Decidable c] {r r' : Parser α} (hp : ClosesTo q R k p p') (hr : ClosesTo q R k r r') :
    ClosesTo q R k (if c then p else r) (if c then p' else r') := by
  by_cases hc : c
  · simpa only [if_pos hc] using hp
  · simpa only [if_neg hc] using hr

theorem wrap (hc : ClosesTo q R k p p') (h : ∀ a a', R a a' → S (g a) (g a')) :
    ClosesTo q S k (p >>= fun a => pure (g a)) (p' >>= fun a => pure (g a)) where
  closed s b t hk hovert hne hfits hb ht := by
    obtain ⟨a, m, ha, hb⟩ := bind_eq_ok.mp hb
    obtain ⟨rfl, rfl⟩ := pure_eq_ok.mp hb
    obtain ⟨hfirm, a', haa, hgrown⟩ := hc.closed s a m hk hovert hne hfits ha ht
    exact ⟨hfirm, g a', h a a' haa, bind_eq_ok.mpr ⟨a', q.grow m, hgrown, rfl⟩⟩

/-- A list is taken to the end if each of its rounds is, whatever is carried from one round to the next. -/
theorem carriedLoop {ι : Type} {go : ι → Nat → Parser α}
    (h : ∀ k n m, (∀ i, ClosesTo q R k (go i n) (go i m)) → ∀ i, ClosesTo q R (k + 1) (go i (n + 1)) (go i (m + 1)))
    (i : ι) : Closes q R (rounds >>= go i) := by
  have hgo : ∀ k n m, k ≤ n → k ≤ m → ∀ i, ClosesTo q R k (go i n) (go i m) := by
    intro k
    induction k with
    | zero => exact fun n m _ _ _ => ⟨fun s a t hk => by omega⟩
    | succ k ih =>
      intro n m hn hm
      obtain ⟨n, rfl⟩ : ∃ n', n = n' + 1 := ⟨n - 1, by omega⟩
      obtain ⟨m, rfl⟩ : ∃ m', m = m' + 1 := ⟨m - 1, by omega⟩
      exact h k n m (ih n m (by omega) (by omega))
  refine ⟨fun k => ⟨fun s a t _ hovert hne hfits ha ht => ?_⟩⟩
  have hrun : ∀ s, (rounds >>= go i) s = go i (sizeAll s.tokens + 1) s := fun s => rfl
  have hlength := length_le_sizeAll s.tokens
  have hgrown := length_le_sizeAll (q.grow s).tokens
  rw [Sequel.grow, List.length_append, length_linked] at hgrown
  rw [hrun] at ha ⊢
  exact (hgo (s.tokens.length + 1) _ _ (by omega) (by rw [Sequel.grow]; omega) i).closed s a t
    (Nat.lt_succ_self _) hovert hne hfits ha ht

/-- A list is taken to the end if each of its rounds is. -/
theorem loop {go : Nat → Parser α}
    (h : ∀ k n m, ClosesTo q R k (go n) (go m) → ClosesTo q R (k + 1) (go (n + 1)) (go (m + 1))) :
    Closes q R (rounds >>= go) :=
  carriedLoop q (fun k n m ih (_ : Unit) => h k n m (ih ())) ()

end ClosesTo

namespace Closes

variable (q : Sequel) {R : α → α → Prop} {S : β → β → Prop}

theorem mono {R' : α → α → Prop} (h : Closes q R p) (hR : ∀ a b, R a b → R' a b) :
    Closes q R' p where
  below k := ⟨fun s a t hk hovert hne hfits ha ht => by
    obtain ⟨hfirm, b, hb, hgrown⟩ := (h.below k).closed s a t hk hovert hne hfits ha ht
    exact ⟨hfirm, b, hR a b hb, hgrown⟩⟩

/-- A parser that leaves the stream does not take it to its end. -/
theorem of_same (h : ∀ s a t, p s = .ok (a, t) → t = s) : Closes q R p where
  below _ := ⟨fun s a t _ _ hne _ ha ht => absurd (h s a t ha ▸ ht) hne⟩

instance pure (a : α) : Closes q R (Pure.pure a : Parser α) :=
  of_same q fun _ _ _ h => (pure_eq_ok.mp h).2.symm

instance failAt (pos : Pos) (cause : Cause) : Closes q R (Parser.failAt pos cause : Parser α) :=
  of_same q fun _ _ _ h => by cases h

instance failHere (cause : Cause) : Closes q R (Parser.failHere cause : Parser α) :=
  of_same q fun _ _ _ h => by cases h

instance expected (names : List String) : Closes q R (Parser.expected names : Parser α) :=
  of_same q fun _ _ _ h => by cases h

/-- One parser after another, if what comes next allows for another value. -/
theorem carry (hp : Extends q p) (hc : Closes q R p) (hf : ∀ a, Closes q S (f a)) (hend : Carries q R S f f) :
    Closes q S (p >>= f) :=
  ⟨fun k => ClosesTo.next q hp hc (fun a => (hf a).below k) hend⟩

/-- One parser after another, if the first one returns the same. -/
instance (priority := low) bind [Std.Refl S] (p : Parser α) (f : α → Parser β) [hp : Extends q p]
    [hc : Closes q Eq p] [hf : ∀ a, Closes q S (f a)] [hi : ∀ a, Idles q (f a)] :
    Closes q S (p >>= f) := carry q hp hc hf (.of_idles hi)

instance map [Std.Refl S] (f : α → β) (p : Parser α) [Extends q p] [Closes q Eq p] :
    Closes q S (f <$> p) := inferInstanceAs (Closes q S (p >>= fun a => Pure.pure (f a)))

/-- One parser after another, if the second one takes something. -/
theorem before (hp : Extends q p) (hn : ∀ a, Needs (f a)) (hf : ∀ a, Closes q S (f a)) : Closes q S (p >>= f) where
  below k := ⟨fun s b t hk hovert hne hfits h ht => by
    obtain ⟨a, m, ha, hb⟩ := bind_eq_ok.mp h
    have hm := hp.suffix s a m hovert ha
    have hmne : m.tokens ≠ [] := fun hmne => (hn a).fails m b t hmne hb
    obtain ⟨hfirm, b', hbb, hgrown⟩ := ((hf a).below k).closed m b t
      (Nat.lt_of_le_of_lt hm.length_le hk) (overtAll_of_suffix hm hovert) hmne
      (fits_of_suffix q hm hfits) hb ht
    have hgood : q.Good m.tokens := ⟨hmne, by simp [hfirm], fits_of_suffix q hm hfits⟩
    exact ⟨firm_of_suffix hm hmne hfirm, b', hbb,
      bind_eq_ok.mpr ⟨a, q.grow m, hp.grown s a m hovert ha hgood, hgrown⟩⟩⟩

instance needs (p : Parser α) (f : α → Parser β) [hp : Extends q p] [hn : ∀ a, Needs (f a)]
    [hf : ∀ a, Closes q S (f a)] : Closes q S (p >>= f) := before q hp hn hf

instance (priority := high) look (test : Tokens → Bool) (f : Bool → Parser β) [Steady q test]
    [hf : ∀ b, Closes q S (f b)] : Closes q S (Parser.look test >>= f) :=
  ⟨fun k => ClosesTo.look q fun b => (hf b).below k⟩

instance (priority := high) here (f : Pos → Parser β) [hf : ∀ pos, Closes q S (f pos)] :
    Closes q S (Parser.here >>= f) :=
  ⟨fun k => ClosesTo.still q inferInstance (fun _ _ _ h => by cases h; rfl) fun pos => (hf pos).below k⟩

theorem orElse {c : Prop} [Decidable c] (hp : Closes q R p) (hp' : Closes q R p') :
    Closes q R (if c then p else p') := ⟨fun k => ClosesTo.orElse q (hp.below k) (hp'.below k)⟩

instance ite (c : Prop) [Decidable c] (p p' : Parser α) [hp : Closes q R p] [hp' : Closes q R p'] :
    Closes q R (if c then p else p') := orElse q hp hp'

theorem wrap (hc : Closes q R p) (h : ∀ a a', R a a' → S (g a) (g a')) :
    Closes q S (p >>= fun a => Pure.pure (g a)) :=
  ⟨fun k => ClosesTo.wrap q (hc.below k) h⟩

instance picks [Std.Refl R] (p : Parser α) [h : Picks p] : Closes q R p where
  below _ := ⟨fun s a t _ hovert _ _ ha ht => by
    obtain ⟨token, htokens, hpunct, hrun⟩ := h.cons q hovert ha
    rw [ht] at htokens hrun
    have hlast : firm [token] = true ∧ q.linked [token] = [token] := by
      rcases token with _ | ⟨c, spacing, pos⟩ | _ | _
      case punct => exact absurd rfl (hpunct c spacing pos)
      all_goals exact ⟨rfl, rfl⟩
    refine ⟨by rw [htokens, hlast.1], a, Std.Refl.refl a, ?_⟩
    rw [Sequel.grow, htokens, hlast.2]
    exact hrun⟩

theorem op {text : String} (h : text.toList.getLast?.all fun c => c != '-' && c != ':' && c != '\'') :
    Closes q Eq (Parser.op text) where
  below _ := ⟨fun s a t _ hovert hne _ ha ht => by
    unfold Parser.op at ha
    split at ha
    · rename_i rest hdrop
      cases ha
      obtain rfl : rest = [] := ht
      obtain ⟨hgrown, c, spacing, pos, hlast, htokens⟩ := dropOp_grown_last q hovert hne hdrop
      refine ⟨?_, _, rfl, ?_⟩
      · rw [hlast] at h
        rw [firm, htokens]
        exact h
      · simp only [Parser.op, Sequel.grow, hgrown, ← here_grow q hne]
        rfl
    · contradiction⟩

instance op_greater : Closes q Eq (Parser.op ">") := op q (by decide)

instance op_bang : Closes q Eq (Parser.op "!") := op q (by decide)

instance op_plus : Closes q Eq (Parser.op "+") := op q (by decide)

instance lifetime : Closes q Eq lifetime where
  below _ := ⟨fun s a t _ hovert _ _ ha ht => by
    obtain ⟨pos, name, at_, rest, htokens, rfl, rfl⟩ := (lifetime_eq_ok hovert).mp ha
    obtain rfl : rest = [] := ht
    refine ⟨by rw [htokens]; rfl, _, rfl, ?_⟩
    refine (lifetime_eq_ok (overtAll_grown q hovert)).mpr ⟨pos, name, at_, q.rest, ?_, rfl, rfl⟩
    rw [Sequel.grow, htokens]
    rfl⟩

end Closes

/-- Lists that are the same but for the last item. -/
def LastRel (R : α → α → Prop) (as bs : List α) : Prop :=
  ∃ front a b, as = front ++ [a] ∧ bs = front ++ [b] ∧ R a b

theorem LastRel.single {R : α → α → Prop} {a b : α} (h : R a b) : LastRel R [a] [b] :=
  ⟨[], a, b, rfl, rfl, h⟩

theorem LastRel.cons {R : α → α → Prop} {as bs : List α} (a : α) (h : LastRel R as bs) :
    LastRel R (a :: as) (a :: bs) := by
  obtain ⟨front, last, last', rfl, rfl, h⟩ := h
  exact ⟨a :: front, last, last', rfl, rfl, h⟩

theorem Closes.repeatWhile (q : Sequel) {R : α → α → Prop} {test : Tokens → Bool} {p : Parser α}
    [Steady q test] [hquiet : Quiet q test] (hnil : test [] = false) [hp : Extends q p]
    [htakes : Takes p] (hc : Closes q R p) : Closes q (LastRel R) (Parser.repeatWhile test p) := by
  -- Where nothing is left the list is at its end, however many rounds there are.
  have hstop : ∀ n s, test s.tokens = false → repeatWhile.go test p n s = .ok ([], s) := by
    intro n s htest
    cases n with
    | zero => rfl
    | succ n =>
      rw [repeatWhile.go, bind_run, look_run, ok_bind, htest]
      rfl
  refine ClosesTo.loop q fun k n m ih => ?_
  simp only [repeatWhile.go]
  refine ClosesTo.look q fun b => ClosesTo.orElse q ?_ inferInstance
  refine ClosesTo.taking q hp htakes hc (fun a => ClosesTo.wrap q ih fun _ _ => .cons a) ?_
  intro a a' s b t haa hs hb
  obtain ⟨rest, s', hrest, hb⟩ := bind_eq_ok.mp hb
  rw [hstop n s (by rw [hs, hnil])] at hrest
  cases hrest
  obtain ⟨rfl, rfl⟩ := pure_eq_ok.mp hb
  have hrest : test (q.grow s).tokens = false := by
    rw [Sequel.grow, hs]
    exact hquiet.same.trans hnil
  exact ⟨hs, [a'], .single haa, bind_eq_ok.mpr ⟨[], _, hstop m _ hrest, rfl⟩⟩

/-! ## Paths -/

section Paths

variable (rules : Rules) [∀ b, Shrinks (rules.type b)] [∀ b c, Shrinks (rules.bound b c)]

instance Needs.angleArgs : Needs (angleArgs rules) := by
  unfold Grammar.angleArgs
  infer_instance

instance Needs.segment (exprStyle : Bool) : Needs (segment rules exprStyle) := by
  unfold Grammar.segment
  dsimp only
  infer_instance

instance Needs.path (exprStyle : Bool) : Needs (path rules exprStyle) := by
  unfold Grammar.path
  infer_instance

end Paths

theorem Idles.moreSegments (q : Sequel) (rules : Rules) (exprStyle : Bool) (goesOn : Tokens → Bool) [Quiet q goesOn]
    (hnil : goesOn [] = false) : Idles q (moreSegments rules exprStyle goesOn) :=
  loop q (fun _ => rfl) hnil

section Closing

variable (q : Sequel) (rules : Rules) [∀ b, Extends q (rules.type b)]
  [∀ b c, Extends q (rules.bound b c)] [∀ b, Shrinks (rules.type b)] [∀ b c, Shrinks (rules.bound b c)]

instance Closes.angleArgs : Closes q Eq (angleArgs rules) := by
  unfold Grammar.angleArgs
  infer_instance

instance Closes.segment (exprStyle : Bool) : Closes q Eq (segment rules exprStyle) := by
  unfold Grammar.segment
  dsimp only
  infer_instance

theorem Closes.moreSegments (exprStyle : Bool) (goesOn : Tokens → Bool) [Steady q goesOn]
    [Quiet q goesOn] (hnil : goesOn [] = false) :
    Closes q Eq (moreSegments rules exprStyle goesOn) := by
  have htakes : Takes (Parser.op "::" >>= fun _ => Grammar.segment rules exprStyle) :=
    .andThen q inferInstance inferInstance inferInstance
  refine mono q (repeatWhile q hnil (R := Eq) inferInstance) ?_
  rintro _ _ ⟨front, a, _, rfl, rfl, rfl⟩
  rfl

instance Closes.path (exprStyle : Bool) : Closes q Eq (path rules exprStyle) := by
  have hmore := moreSegments q rules exprStyle pathGoesOn rfl
  have hidle := Idles.moreSegments q rules exprStyle pathGoesOn rfl
  unfold Grammar.path
  infer_instance

instance Closes.qpath (exprStyle : Bool) : Closes q Eq (qpath rules exprStyle) := by
  have hmore := moreSegments q rules exprStyle (Look.op "::") rfl
  have hidle := Idles.moreSegments q rules exprStyle (Look.op "::") rfl
  unfold Grammar.qpath
  refine @look _ q _ _ _ _ fun _ => orElse q ?_ inferInstance
  refine before q inferInstance inferInstance fun _ => before q inferInstance inferInstance fun self => ?_
  refine @look _ q _ _ _ _ fun _ =>
    orElse q (before q inferInstance inferInstance fun _ => ?_) ?_ <;>
  · refine before q inferInstance inferInstance fun asTrait => before q inferInstance inferInstance fun _ => ?_
    refine before q inferInstance inferInstance fun _ => ?_
    cases asTrait <;> infer_instance

end Closing

end Fieldwise.Grammar
