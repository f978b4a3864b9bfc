import Fieldwise.Proofs.TypeEnds

/-!
# What is read, and what is written for it

`Reads` states what holds of a value that is read together with the tokens that are left, if something holds of the
tokens at the start; there is one lemma for each way to combine parsers. What is to be shown of a value is how the
tokens that it is written with end (`Ended`): all of them are visible, and if a plus sign ends them, what was left
when the value was read begins with no word. The pieces of types are shown to have this form here.
-/

namespace Fieldwise.Grammar

open Fieldwise.Grammar.Parser Fieldwise.Token

set_option synthInstance.maxSize 4096

variable {α β : Type}

variable {segments : List Segment} {pieces : List Tokens} {separator : Tokens} {P : α → Prop}

/-! ## Before other tokens -/

/-- Visible tokens that stand before others; if a plus sign ends them, these begin with no word. -/
structure Ended (tokens rest : Tokens) : Prop where
  /-- The tokens are visible. -/
  overt : overtAll tokens = true
  /-- No word comes after a plus sign. -/
  plus : endsPlus tokens = true → Look.anyWord rest = false

namespace Ended

variable {tokens rest : Tokens}

/-- What ends in no plus sign may stand before anything. -/
theorem of_end (hovert : overtAll tokens = true) (hend : endsPlus tokens = false) (rest : Tokens) :
    Ended tokens rest :=
  ⟨hovert, fun h => absurd h (by rw [hend]; exact Bool.false_ne_true)⟩

theorem nil (rest : Tokens) : Ended [] rest := of_end rfl rfl rest

/-- What comes before does not matter, unless it is all. -/
theorem after (h : Ended tokens rest) (front : Tokens) (hovert : overtAll front = true)
    (hend : endsPlus front = false) : Ended (front ++ tokens) rest := by
  refine ⟨by rw [overtAll_append, hovert, h.overt]; rfl, fun hplus => ?_⟩
  by_cases hne : tokens = []
  · rw [hne, List.append_nil, hend] at hplus
    contradiction
  · exact h.plus (endsPlus_append hne ▸ hplus)

/-- If there is something, what comes before does not matter. -/
theorem before (h : Ended tokens rest) (hne : tokens ≠ []) (front : Tokens) (hovert : overtAll front = true) :
    Ended (front ++ tokens) rest :=
  ⟨by rw [overtAll_append, hovert, h.overt]; rfl, fun hplus => h.plus (endsPlus_append hne ▸ hplus)⟩

end Ended

theorem anyWord_of_plus {tokens : Tokens} (hovert : overtAll tokens = true) (h : Look.op "+" tokens = true) :
    Look.anyWord tokens = false := by
  have hplus : "+".toList = ['+'] := rfl
  obtain ⟨left, h⟩ := Option.isSome_iff_exists.mp h
  rw [hplus, dropOp, bare_overt hovert] at h
  rw [Look.anyWord, bare_overt hovert]
  split at h
  · rfl
  · contradiction

/-! ## Values and what is left -/

/-- Where tokens are visible and fulfil a condition, the parser gives a value that fulfils another one together with
the tokens that are left. -/
def Reads (pre : Tokens → Prop) (p : Parser α) (post : α → Tokens → Prop) : Prop :=
  ∀ s a t, solidAll s.tokens = true → pre s.tokens → p s = .ok (a, t) → t.tokens <:+ s.tokens ∧ post a t.tokens

/-- The parser gives a value that is written so that it can stand before what is left. -/
abbrev Prints (p : Parser α) (tokens : α → Tokens) : Prop :=
  Reads (fun _ => True) p fun a rest => tokens a ≠ [] ∧ Ended (tokens a) rest

theorem solidAll_append (left right : Tokens) : solidAll (left ++ right) = (solidAll left && solidAll right) := by
  induction left with
  | nil => rfl
  | cons token rest ih => simp [solidAll, ih, Bool.and_assoc]

theorem solidAll_of_suffix {tokens left : Tokens} (h : left <:+ tokens) (hsolid : solidAll tokens = true) :
    solidAll left = true := by
  obtain ⟨front, rfl⟩ := h
  rw [solidAll_append, Bool.and_eq_true] at hsolid
  exact hsolid.2

namespace Reads

variable {pre : Tokens → Prop} {p p' : Parser α} {post : α → Tokens → Prop}

theorem mono {pre' : Tokens → Prop} {post' : α → Tokens → Prop} (h : Reads pre' p post')
    (hpre : ∀ ts, overtAll ts = true → pre ts → pre' ts) (hpost : ∀ a rest, post' a rest → post a rest) :
    Reads pre p post := by
  intro s a t hsolid hs ha
  obtain ⟨hsuffix, hpost'⟩ := h s a t hsolid (hpre _ (overtAll_of_solidAll hsolid) hs) ha
  exact ⟨hsuffix, hpost a t.tokens hpost'⟩

theorem pure {a : α} (h : ∀ ts, pre ts → post a ts) : Reads pre (Pure.pure a) post := by
  intro s b t _ hs hb
  obtain ⟨rfl, rfl⟩ := pure_eq_ok.mp hb
  exact ⟨List.suffix_refl _, h _ hs⟩

theorem bind {f : α → Parser β} {mid : α → Tokens → Prop} {post : β → Tokens → Prop} (hp : Reads pre p mid)
    (hf : ∀ a, Reads (mid a) (f a) post) : Reads pre (p >>= f) post := by
  intro s b t hsolid hs h
  obtain ⟨a, m, ha, hb⟩ := bind_eq_ok.mp h
  obtain ⟨hm, hmid⟩ := hp s a m hsolid hs ha
  obtain ⟨ht, hpost⟩ := hf a m b t (solidAll_of_suffix hm hsolid) hmid hb
  exact ⟨ht.trans hm, hpost⟩

/-- What holds of the first value alone holds of it later on. -/
theorem bindOf {f : α → Parser β} {post : β → Tokens → Prop} (hp : Reads (fun _ => True) p fun a _ => P a)
    (hf : ∀ a, P a → Reads (fun _ => True) (f a) post) : Reads pre (p >>= f) post := by
  intro s b t hsolid _ h
  obtain ⟨a, m, ha, hb⟩ := bind_eq_ok.mp h
  obtain ⟨hm, hmid⟩ := hp s a m hsolid trivial ha
  obtain ⟨ht, hpost⟩ := hf a hmid m b t (solidAll_of_suffix hm hsolid) trivial hb
  exact ⟨ht.trans hm, hpost⟩

theorem ite {c : Prop} [Decidable c] (hp : c → Reads pre p post) (hp' : ¬c → Reads pre p' post) :
    Reads pre (if c then p else p') post := by
  by_cases hc : c
  · simpa only [if_pos hc] using hp hc
  · simpa only [if_neg hc] using hp' hc

theorem any (p : Parser α) [h : Extends .alone p] : Reads pre p fun _ _ => True :=
  fun s a t hsolid _ ha => ⟨h.suffix s a t (overtAll_of_solidAll hsolid) ha, trivial⟩

theorem skip {f : β → Parser α} (p : Parser β) [Extends .alone p] (hf : ∀ b, Reads (fun _ => True) (f b) post) :
    Reads pre (p >>= f) post :=
  bind (any p) hf

theorem look {test : Tokens → Bool} {f : Bool → Parser α}
    (hf : ∀ b, Reads (fun ts => pre ts ∧ test ts = b) (f b) post) :
    Reads pre (Parser.look test >>= f) post := by
  have htest : Reads pre (Parser.look test) fun b ts => pre ts ∧ test ts = b := by
    intro s b t _ hs hb
    obtain ⟨rfl, rfl⟩ := look_eq_ok.mp hb
    exact ⟨List.suffix_refl _, hs, rfl⟩
  exact bind htest hf

theorem of_yields [hp : Extends .alone p] (h : Yields p P) : Reads pre p fun a _ => P a :=
  fun s a t hsolid _ ha => ⟨hp.suffix s a t (overtAll_of_solidAll hsolid) ha, h s a t ha⟩

theorem notLonger {k : Nat} (h : Reads (fun _ => True) p post) :
    Reads (fun ts => ts.length < k) p fun a rest => rest.length < k ∧ post a rest := by
  intro s a t hsolid hlt ha
  obtain ⟨hsuffix, hpost⟩ := h s a t hsolid trivial ha
  exact ⟨hsuffix, Nat.lt_of_le_of_lt hsuffix.length_le hlt, hpost⟩

theorem assume {P : Prop} (hpre : ∀ ts, pre ts → P) (h : P → Reads pre p post) : Reads pre p post :=
  fun s a t hsolid hs ha => h (hpre _ hs) s a t hsolid hs ha

theorem fails (h : ∀ s, ∃ e, p s = .error e) : Reads pre p post := by
  intro s a t _ _ ha
  obtain ⟨e, he⟩ := h s
  simp [he] at ha

theorem map {f : α → β} {post : β → Tokens → Prop} (h : Reads pre p fun a => post (f a)) : Reads pre (f <$> p) post :=
  bind h fun _ => pure fun _ => id

/-- What the inside of a group gives does not depend on what follows the group. -/
theorem within {delim : Delim} (h : Reads (fun _ => True) p fun a _ => P a) :
    Reads pre (Parser.within delim p) fun found _ => P found.1 := by
  intro s a t hsolid _ ha
  refine ⟨(Extends.picks .alone (Parser.within delim p)).suffix s a t (overtAll_of_solidAll hsolid) ha, ?_⟩
  unfold Parser.within at ha
  rw [bare_overt (overtAll_of_solidAll hsolid)] at ha
  split at ha
  · rename_i found body opening closing rest htokens
    have hbody : solidAll body = true := by
      rw [htokens, solidAll, Bool.and_eq_true] at hsolid
      cases found <;> simp_all [solid]
    split at ha
    · split at ha
      · contradiction
      · rename_i value inner hinside
        cases ha
        exact (h _ value inner hbody trivial hinside).2
    · exact absurd ha (by simp [Parser.fail])
  · exact absurd ha (by simp [Parser.fail])

theorem choose {named : List (String × (Tokens → Bool) × Parser α)} (h : ∀ entry ∈ named, Reads pre entry.2.2 post) :
    Reads pre (Parser.choose named) post := by
  unfold Parser.choose
  generalize named.map Prod.fst = names
  induction named with
  | nil => exact fails fun _ => ⟨_, rfl⟩
  | cons entry rest ih =>
    obtain ⟨name, test, parser⟩ := entry
    refine look fun b => ite (fun _ => ?_) fun _ => ?_
    · exact (h _ List.mem_cons_self).mono (fun _ _ hs => hs.1) fun _ _ => id
    · exact (ih fun entry hmem => h entry (List.mem_cons_of_mem _ hmem)).mono (fun _ _ hs => hs.1) fun _ _ => id

/-- Every item of a list is what the parser for items gives. -/
theorem repeatWhile {test : Tokens → Bool} {P : α → Prop} (h : Reads (fun _ => True) p fun a _ => P a) :
    Reads pre (Parser.repeatWhile test p) fun list _ => ∀ a ∈ list, P a := by
  suffices hgo : ∀ n (pre : Tokens → Prop), Reads pre (repeatWhile.go test p n) fun list _ => ∀ a ∈ list, P a from
    fun s => hgo (sizeAll s.tokens + 1) pre s
  intro n
  induction n with
  | zero => exact fun _ => pure (by simp)
  | succ n ih =>
    refine fun _ => look fun b => ite (fun _ => ?_) fun _ => pure (by simp)
    refine bindOf h fun a ha => bindOf (ih _) fun rest hrest => pure fun _ _ => ?_
    simpa using ⟨ha, hrest⟩

theorem separatedUntil {stop : Tokens → Bool} {separator : String} {P : α → Prop}
    (h : Reads (fun _ => True) p fun a _ => P a) :
    Reads pre (Parser.separatedUntil stop separator p) fun list _ => ∀ a ∈ list.items, P a := by
  suffices hgo : ∀ n (pre : Tokens → Prop),
      Reads pre (separatedUntil.go stop separator p n) fun list _ => ∀ a ∈ list.items, P a from
    fun s => hgo (sizeAll s.tokens + 1) pre s
  intro n
  induction n with
  | zero => exact fun _ => pure (by simp)
  | succ n ih =>
    refine fun _ => look fun b => ite (fun _ => pure (by simp)) fun _ => bindOf h fun a ha => ?_
    refine look fun b => ite (fun _ => pure fun _ _ => by simpa using ha) fun _ => skip _ fun _ => ?_
    refine bindOf (ih _) fun rest hrest => pure fun _ _ => ?_
    simpa [Separated.cons] using ⟨ha, hrest⟩

theorem separatedWhile {stop : Tokens → Bool} {separator : String} {P : α → Prop}
    (h : Reads (fun _ => True) p fun a _ => P a) :
    Reads pre (Parser.separatedWhile stop separator p) fun list _ => ∀ a ∈ list.items, P a := by
  suffices hgo : ∀ n (pre : Tokens → Prop),
      Reads pre (separatedWhile.go stop separator p n) fun list _ => ∀ a ∈ list.items, P a from
    fun s => hgo (sizeAll s.tokens + 1) pre s
  intro n
  induction n with
  | zero => exact fun _ => pure (by simp)
  | succ n ih =>
    refine fun _ => look fun b => ite (fun _ => pure (by simp)) fun _ => bindOf h fun a ha => ?_
    refine look fun b => ite (fun _ => skip _ fun _ => ?_) fun _ => pure fun _ _ => by simpa using ha
    refine bindOf (ih _) fun rest hrest => pure fun _ _ => ?_
    simpa [Separated.cons] using ⟨ha, hrest⟩

theorem keeping {value? : α → Option β} {kept : Tokens → β} {post : β → Tokens → Prop} [hcalm : Calms p]
    [htakes : Takes p] (hp : Reads (fun _ => True) p fun a rest => ∀ b, value? a = some b → post b rest)
    (hkept : ∀ front rest, front ≠ [] → Ended front rest → post (kept front) rest) :
    Reads pre (Grammar.keeping p value? kept) post := by
  intro s b t hsolid _ h
  obtain ⟨a, ha, rfl⟩ := keeping_eq_ok.mp h
  have hovert := overtAll_of_solidAll hsolid
  obtain ⟨hsuffix, hpost⟩ := hp s a t hsolid trivial ha
  obtain ⟨front, hne, hfront, hplus⟩ := hcalm.moves htakes hovert a t ha
  refine ⟨hsuffix, ?_⟩
  cases hvalue : value? a with
  | some b => exact hpost b hvalue
  | none =>
    have htaken : s.tokens.take (s.tokens.length - t.tokens.length) = front := by
      rw [hfront, List.length_append, Nat.add_sub_cancel, List.take_left]
    rw [hfront, overtAll_append, Bool.and_eq_true] at hovert
    rw [htaken]
    exact hkept front t.tokens hne ⟨hovert.1, hplus⟩

end Reads

/-! ## Pieces -/

/-- Visible tokens that may stand before anything. -/
def Shut (tokens : Tokens) : Prop := ∀ rest, Ended tokens rest

theorem Shut.overt {tokens : Tokens} (h : Shut tokens) : overtAll tokens = true := (h []).overt

theorem Shut.after {tokens : Tokens} (h : Shut tokens) (front : Tokens) (hovert : overtAll front = true)
    (hend : endsPlus front = false) : Shut (front ++ tokens) := fun rest => (h rest).after front hovert hend

theorem Shut.of_end {tokens : Tokens} (hovert : overtAll tokens = true) (hend : endsPlus tokens = false) :
    Shut tokens := Ended.of_end hovert hend

theorem overtAll_operator (pos : Pos) (cs : List Char) : overtAll (operator pos cs) = true := by
  fun_induction operator pos cs with
  | case1 => rfl
  | case2 => rfl
  | case3 c rest hrest ih => exact ih

theorem overtAll_sign (text : String) : overtAll (sign text) = true := overtAll_operator _ _

theorem overtAll_joined (hseparator : overtAll separator = true) (h : ∀ piece ∈ pieces, overtAll piece = true)
    (trailing : Bool) : overtAll (joined separator pieces trailing) = true := by
  fun_induction joined separator pieces trailing with
  | case1 => rfl
  | case2 piece trailing =>
    cases trailing <;> simp [overtAll_append, hseparator, h piece (by simp)]
  | case3 piece rest trailing hne ih =>
    rw [overtAll_append, overtAll_append, h piece (by simp), hseparator,
      ih fun piece hmem => h piece (List.mem_cons_of_mem _ hmem)]
    rfl

theorem overtAll_flatten (h : ∀ piece ∈ pieces, overtAll piece = true) : overtAll pieces.flatten = true := by
  induction pieces with
  | nil => rfl
  | cons piece rest ih =>
    rw [List.flatten_cons, overtAll_append, h piece (by simp),
      ih fun piece hmem => h piece (List.mem_cons_of_mem _ hmem)]
    rfl

theorem overtAll_attrsTokens (attrs : List Attribute) : overtAll (attrsTokens attrs) = true := by
  refine overtAll_flatten fun piece hmem => ?_
  obtain ⟨attr, -, rfl⟩ := List.mem_map.mp hmem
  rw [Attribute.tokens]
  cases attr.inner <;> rfl

theorem overtAll_modPath (path : ModPath) : overtAll path.tokens = true := by
  have hnames : overtAll (joined (sign "::") (path.names.map fun name => [name.token]) false) = true :=
    overtAll_joined (overtAll_sign _) (by simp [overtAll, overt, Ident.token]) false
  rw [ModPath.tokens, overtAll_append, hnames]
  cases path.rooted <;> rfl

theorem overtAll_param (param : LifetimeParam) : overtAll param.tokens = true := by
  have hbounds : overtAll (joined (sign "+") (param.bounds.items.map Lifetime.tokens) param.bounds.trailing) = true :=
    overtAll_joined (overtAll_sign "+") (by simp [Lifetime.tokens, overtAll, overt, Ident.token]) _
  rw [LifetimeParam.tokens, overtAll_append, overtAll_append, overtAll_attrsTokens]
  split
  · rfl
  · rw [overtAll_append, overtAll_sign, hbounds]
    rfl

theorem overtAll_binderTokens (binder : Option Binder) : overtAll (binderTokens binder) = true := by
  cases binder with
  | none => rfl
  | some binder =>
    have hparams : overtAll (joined (sign ",") (binder.items.map LifetimeParam.tokens) binder.trailing) = true :=
      overtAll_joined (overtAll_sign ",") (by simp [overtAll_param]) _
    rw [binderTokens, Binder.tokens, overtAll_append, overtAll_append, hparams]
    rfl

theorem overtAll_lit? {tokens rest : Tokens} {lit : Lit} (h : lit? tokens = some (lit, rest)) :
    overtAll lit.tokens = true := by
  unfold lit? at h
  split at h
  · cases h
    rfl
  · split at h
    · cases h
      rfl
    · contradiction
  · split at h
    · obtain ⟨kind, -, hfound⟩ := Option.map_eq_some_iff.mp h
      cases hfound
      rfl
    · contradiction
  · contradiction

theorem mem_marked {pieces : List α} {trailing : Bool} {piece : α × Bool} (h : piece ∈ marked pieces trailing) :
    piece.1 ∈ pieces := by
  fun_induction marked pieces trailing with
  | case1 => contradiction
  | case2 first trailing =>
    obtain rfl := List.mem_singleton.mp h
    exact List.mem_singleton_self _
  | case3 first rest trailing hne ih =>
    rcases List.mem_cons.mp h with rfl | h
    · exact List.mem_cons_self
    · exact List.mem_cons_of_mem _ (ih h)

theorem overtAll_lifetimesFirst {pieces : List (Bool × Tokens)} (h : ∀ piece ∈ pieces, overtAll piece.2 = true)
    (trailing : Bool) : overtAll (lifetimesFirst pieces trailing) = true := by
  have hmarked : ∀ piece ∈ marked pieces trailing, overtAll piece.1.2 = true := fun piece hmem => h _ (mem_marked hmem)
  have hcomma : ∀ b : Bool, overtAll (if b then sign "," else []) = true := by
    rintro (_ | _) <;> rfl
  have hcomma' : ∀ b : Bool, overtAll (if b then [] else sign ",") = true := by
    rintro (_ | _) <;> rfl
  have hfold : ∀ (late : List ((Bool × Tokens) × Bool)) (done : Tokens × Bool),
      (∀ piece ∈ late, overtAll piece.1.2 = true) → overtAll done.1 = true →
        overtAll (late.foldl (fun done piece => appendPiece done (piece.1.2, piece.2)) done).1 = true := by
    intro late
    induction late with
    | nil => exact fun done _ hdone => hdone
    | cons piece rest ih =>
      intro done hlate hdone
      refine ih _ (fun piece hmem => hlate piece (List.mem_cons_of_mem _ hmem)) ?_
      simp only [appendPiece, overtAll_append, hdone, hlate piece (by simp), hcomma, hcomma']
      rfl
  refine hfold _ _ (fun piece hmem => hmarked piece (List.mem_of_mem_filter hmem))
    (overtAll_flatten fun piece hmem => ?_)
  obtain ⟨source, hsource, rfl⟩ := List.mem_map.mp hmem
  rw [overtAll_append, hmarked source (List.mem_of_mem_filter hsource), hcomma]
  rfl

/-- A list ends with its last piece, or with a separator. -/
theorem ended_joined {rest : Tokens} {trailing : Bool} (hseparator : overtAll separator = true)
    (hpieces : ∀ piece ∈ pieces, piece ≠ [] ∧ overtAll piece = true)
    (hlast : trailing = false → ∀ last, pieces.getLast? = some last → Ended last rest)
    (htrailing : trailing = true → Look.anyWord rest = false) : Ended (joined separator pieces trailing) rest := by
  refine ⟨overtAll_joined hseparator (fun piece hmem => (hpieces piece hmem).2) trailing, fun hplus => ?_⟩
  cases trailing with
  | true => exact htrailing rfl
  | false =>
    rcases List.eq_nil_or_concat pieces with rfl | ⟨front, last, rfl⟩
    · contradiction
    · rw [List.concat_eq_append] at hpieces hlast hplus
      obtain ⟨before, hbefore⟩ := exists_joined separator front
      rw [hbefore, endsPlus_append (hpieces last (by simp)).1] at hplus
      exact (hlast rfl last (by simp)).plus hplus

theorem joined_ne_nil (hne : pieces ≠ []) (hpieces : ∀ piece ∈ pieces, piece ≠ []) (trailing : Bool) :
    joined separator pieces trailing ≠ [] := by
  fun_cases joined separator pieces trailing with
  | case1 => contradiction
  | case2 piece trailing => simp [hpieces piece (by simp)]
  | case3 piece rest trailing hrest => simp [hpieces piece (by simp)]

theorem Segment.tokens_ne_nil (segment : Segment) : segment.tokens ≠ [] := by
  cases segment with
  | mk ident args => simp [Segment.tokens]

theorem mem_tokensAll {piece : Tokens} (h : piece ∈ Segment.tokensAll segments) :
    ∃ segment ∈ segments, piece = segment.tokens := by
  induction segments with
  | nil => contradiction
  | cons segment rest ih =>
    rcases List.mem_cons.mp h with rfl | h
    · exact ⟨segment, List.mem_cons_self, rfl⟩
    · obtain ⟨found, hmem, rfl⟩ := ih h
      exact ⟨found, List.mem_cons_of_mem _ hmem, rfl⟩

/-- Pieces that may stand before anything make up such a list. -/
theorem shut_joined (hseparator : overtAll separator = true) (h : ∀ piece ∈ pieces, piece ≠ [] ∧ Shut piece) :
    Shut (joined separator pieces false) := by
  intro rest
  refine ended_joined hseparator (fun piece hmem => ⟨(h piece hmem).1, (h piece hmem).2.overt⟩) (fun _ last hlast => ?_)
    fun htrue => by contradiction
  exact (h last (List.mem_of_getLast? hlast)).2 rest

theorem shut_of_mem_tokensAll (h : ∀ segment ∈ segments, Shut segment.tokens) :
    ∀ piece ∈ Segment.tokensAll segments, piece ≠ [] ∧ Shut piece := by
  intro piece hmem
  obtain ⟨segment, hsegment, rfl⟩ := mem_tokensAll hmem
  exact ⟨segment.tokens_ne_nil, h segment hsegment⟩

theorem shut_path (h : ∀ segment ∈ segments, Shut segment.tokens) (rooted : Bool) :
    Shut (Ty.path rooted segments).tokens := by
  rw [Ty.tokens]
  refine (shut_joined (overtAll_sign _) (shut_of_mem_tokensAll h)).after _ ?_ ?_ <;> cases rooted <;> rfl

theorem path_ne_nil (h : segments ≠ []) : joined (sign "::") (Segment.tokensAll segments) false ≠ [] := by
  refine joined_ne_nil ?_ (fun piece hmem => ?_) false
  · cases segments <;> simp_all [Segment.tokensAll]
  · obtain ⟨segment, -, rfl⟩ := mem_tokensAll hmem
    exact segment.tokens_ne_nil

theorem projection_ne_nil {self : Ty} {position : Nat} {rooted : Bool} :
    (Ty.projection self position rooted segments).tokens ≠ [] := by
  have hsign : sign "<" ≠ [] := by decide
  rw [Ty.tokens, projectionTokens]
  split <;> simp [hsign]

theorem shut_projection {self : Ty} (hself : overtAll self.tokens = true)
    (h : ∀ segment ∈ segments, Shut segment.tokens) (position : Nat) (rooted : Bool) :
    Shut (Ty.projection self position rooted segments).tokens := by
  have hpieces := shut_of_mem_tokensAll h
  have hroot : overtAll (if rooted then sign "::" else []) = true := by cases rooted <;> rfl
  rw [Ty.tokens, projectionTokens]
  split
  · refine (shut_joined (overtAll_sign _) hpieces).after _ ?_ ?_
    · simp [overtAll_append, overtAll_sign, hself, hroot]
    · cases rooted with
      | false =>
        rw [if_neg Bool.false_ne_true, List.append_nil, endsPlus_append (by decide)]
        rfl
      | true =>
        rw [if_pos rfl, endsPlus_append (by decide)]
        rfl
  · have hfront : Shut (joined (sign "::") ((Segment.tokensAll segments).take position) false) :=
      shut_joined (overtAll_sign _) fun piece hmem => hpieces piece (List.mem_of_mem_take hmem)
    refine (shut_joined (overtAll_sign _) fun piece hmem => hpieces piece (List.mem_of_mem_drop hmem)).after _ ?_ ?_
    · simp [overtAll_append, overtAll_sign, hself, hroot, hfront.overt, term, overtAll, overt]
    · rw [endsPlus_append (by decide)]
      rfl

end Fieldwise.Grammar
