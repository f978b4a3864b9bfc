import Fieldwise.Proofs.Closing

/-!
# Types that end before other tokens

A type that takes all its tokens takes the same tokens where others follow them. It is the same type but for how
its last character is joined to what follows, which shows only in parts that are kept as their tokens, and never in
a path.
-/

namespace Fieldwise.Grammar

open Fieldwise.Grammar.Parser Fieldwise.Token

set_option synthInstance.maxSize 4096

variable {α β : Type}

/-! ## Trees that differ in the spacing at their end -/

/-- Tokens that are the same but for the spacing of the last one. -/
def SameToLast (xs ys : Tokens) : Prop :=
  xs = ys ∨ ∃ front c spacing spacing' pos,
    xs = front ++ [.punct c spacing pos] ∧ ys = front ++ [.punct c spacing' pos]

theorem SameToLast.after {xs ys : Tokens} (h : SameToLast xs ys) (front : Tokens) :
    SameToLast (front ++ xs) (front ++ ys) := by
  obtain rfl | ⟨more, c, spacing, spacing', pos, rfl, rfl⟩ := h
  · exact .inl rfl
  · exact .inr ⟨front ++ more, c, spacing, spacing', pos, by simp, by simp⟩

theorem sameToLast_linked (q : Sequel) (tokens : Tokens) : SameToLast tokens (q.linked tokens) := by
  rcases List.eq_nil_or_concat tokens with rfl | ⟨front, last, rfl⟩
  · exact .inl rfl
  · rw [List.concat_eq_append, linked_append q front (by simp)]
    rcases last with _ | ⟨c, spacing, pos⟩ | _ | _
    case punct => exact .inr ⟨front, c, spacing, _, pos, rfl, rfl⟩
    all_goals exact .inl rfl

theorem plain_of_sameToLast {xs ys : Tokens} (h : SameToLast xs ys) :
    retouch Retouch.plain xs = retouch Retouch.plain ys := by
  obtain rfl | ⟨front, c, spacing, spacing', pos, rfl, rfl⟩ := h
  · rfl
  · simp [Retouch.plain]

/-- Trees that are the same but for spacing, and are written the same but for the spacing of the last token. Where
nothing is joined to what follows they are the same. -/
structure Kin [HasPlaces α] (q : Sequel) (tokens : α → Tokens) (a b : α) : Prop where
  /-- They differ in spacing alone. -/
  plain : retouch Retouch.plain a = retouch Retouch.plain b
  /-- They are written the same. -/
  written : SameToLast (tokens a) (tokens b)
  /-- Nothing differs where nothing is joined. -/
  same : q.joins = false → a = b

instance [HasPlaces α] (q : Sequel) (tokens : α → Tokens) : Std.Refl (Kin q tokens) :=
  ⟨fun _ => ⟨rfl, .inl rfl, fun _ => rfl⟩⟩

/-- The same for types, of which a path is written without kept tokens at its end. -/
structure KinType (q : Sequel) (a b : Ty) : Prop extends Kin q Ty.tokens a b where
  /-- A path is the same. -/
  path : ∀ rooted segments, a = .path rooted segments → a = b

instance (q : Sequel) : Std.Refl (KinType q) :=
  ⟨fun _ => ⟨⟨rfl, .inl rfl, fun _ => rfl⟩, fun _ _ _ => rfl⟩⟩

/-- The same for bounds. -/
abbrev KinBound (q : Sequel) : Bound → Bound → Prop := Kin q Bound.tokens

/-- The same for result types with the arrow before them. -/
abbrev KinOutput (q : Sequel) : Option Ty → Option Ty → Prop := Kin q Ty.outputTokens

/-- The same for arguments. -/
abbrev KinArgs (q : Sequel) : Args → Args → Prop := Kin q Args.tokens

/-- The same for lists of bounds. Before a plus sign at the end nothing differs. -/
def KinBounds (q : Sequel) (found found' : Separated Bound) : Prop :=
  found = found' ∨ found.trailing = false ∧ found'.trailing = false ∧
    LastRel (KinBound q) found.items found'.items

instance (q : Sequel) : Std.Refl (KinBounds q) := ⟨fun _ => .inl rfl⟩

instance reflOptionRel (R : α → α → Prop) [h : Std.Refl R] : Std.Refl (Option.Rel R) :=
  ⟨fun | none => .none | some a => .some (h.refl a)⟩

theorem exists_joined (separator : Tokens) (front : List Tokens) :
    ∃ before, ∀ last, joined separator (front ++ [last]) false = before ++ last := by
  induction front with
  | nil => exact ⟨[], fun last => by simp [joined]⟩
  | cons piece front ih =>
    obtain ⟨before, h⟩ := ih
    refine ⟨piece ++ separator ++ before, fun last => ?_⟩
    obtain ⟨next, rest, hrest⟩ : ∃ next rest, front ++ [last] = next :: rest :=
      List.exists_cons_of_ne_nil (by simp)
    rw [List.cons_append, hrest, joined, ← hrest, h]
    · simp
    · simp

theorem tokensAll_append (front : List Bound) (last : Bound) :
    Bound.tokensAll (front ++ [last]) = Bound.tokensAll front ++ [last.tokens] := by
  induction front with
  | nil => rfl
  | cons bound rest ih => simp [Bound.tokensAll, ih]

/-- Bounds that are the same but for the last one are written the same. -/
theorem LastRel.written {q : Sequel} {bounds bounds' : List Bound} (h : LastRel (KinBound q) bounds bounds') :
    SameToLast (joined (sign "+") (Bound.tokensAll bounds) false)
      (joined (sign "+") (Bound.tokensAll bounds') false) := by
  obtain ⟨front, a, b, rfl, rfl, hab⟩ := h
  obtain ⟨before, hbefore⟩ := exists_joined (sign "+") (Bound.tokensAll front)
  rw [tokensAll_append, tokensAll_append, hbefore, hbefore]
  exact hab.written.after before

theorem LastRel.plain {q : Sequel} {bounds bounds' : List Bound} (h : LastRel (KinBound q) bounds bounds') :
    retouch Retouch.plain bounds = retouch Retouch.plain bounds' := by
  obtain ⟨front, a, b, rfl, rfl, hab⟩ := h
  simp [hab.plain]

theorem LastRel.same {q : Sequel} {bounds bounds' : List Bound} (h : LastRel (KinBound q) bounds bounds')
    (hjoins : q.joins = false) : bounds = bounds' := by
  obtain ⟨front, a, b, rfl, rfl, hab⟩ := h
  rw [hab.same hjoins]

theorem segment_tokensAll_append (front : List Segment) (last : Segment) :
    Segment.tokensAll (front ++ [last]) = Segment.tokensAll front ++ [last.tokens] := by
  induction front with
  | nil => rfl
  | cons segment rest ih => simp [Segment.tokensAll, ih]

theorem withCallArgs_append (front : List Segment) (name : Ident) (old args : Args) :
    withCallArgs (front ++ [.mk name old]) args = front ++ [.mk name args] := by
  induction front with
  | nil => rfl
  | cons segment rest ih =>
    obtain ⟨next, more, hnext⟩ : ∃ next more, rest ++ [Segment.mk name old] = next :: more :=
      List.exists_cons_of_ne_nil (by simp)
    rw [List.cons_append, hnext, withCallArgs, ← hnext, ih]
    · rfl
    · simp

/-- A trait whose last segment has arguments in parentheses. -/
theorem kin_trait {q : Sequel} {args args' : Args} (h : KinArgs q args args') (relaxed : Bool)
    (quantified : Option Binder) (rooted : Bool) (segments : List Segment) :
    KinBound q (.trait false relaxed quantified rooted (withCallArgs segments args))
      (.trait false relaxed quantified rooted (withCallArgs segments args')) := by
  rcases List.eq_nil_or_concat segments with rfl | ⟨front, ⟨name, old⟩, rfl⟩
  · exact Std.Refl.refl _
  · rw [List.concat_eq_append, withCallArgs_append, withCallArgs_append]
    refine ⟨by simp [h.plain], ?_, fun hjoins => by rw [h.same hjoins]⟩
    obtain ⟨before, hbefore⟩ := exists_joined (sign "::") (Segment.tokensAll front)
    simp only [Bound.tokens, segment_tokensAll_append, hbefore, Segment.tokens]
    refine SameToLast.after (SameToLast.after ?_ before) _
    exact h.written.after [name.token]

/-- What is kept to the end is kept with what joins the last token to what follows. -/
theorem Closes.keeping (q : Sequel) {R : α → α → Prop} {S : β → β → Prop} {p : Parser α}
    {value? : α → Option β} {kept : Tokens → β} (hc : Closes q R p)
    (hvalue : ∀ a a', R a a' → Option.Rel S (value? a) (value? a'))
    (hkept : ∀ tokens, S (kept tokens) (kept (q.linked tokens))) :
    Closes q S (keeping p value? kept) where
  below k := ⟨fun s b t hk hovert hne hfits h ht => by
    obtain ⟨a, ha, rfl⟩ := keeping_eq_ok.mp h
    obtain ⟨hfirm, a', haa, hgrown⟩ := (hc.below k).closed s a t hk hovert hne hfits ha ht
    refine ⟨hfirm, _, ?_, keeping_eq_ok.mpr ⟨a', hgrown, rfl⟩⟩
    have hvalues := hvalue a a' haa
    generalize value? a = found, value? a' = found' at hvalues
    cases hvalues with
    | some hbb => exact hbb
    | none => simpa [Sequel.grow, ht, length_linked, Sequel.linked] using hkept s.tokens⟩

theorem isTrait_of_plain {a b : Bound} (h : retouch Retouch.plain a = retouch Retouch.plain b) :
    a.isTrait = b.isTrait ∧ a.isAnyTrait = b.isAnyTrait := by
  cases a <;> cases b <;> simp_all [Bound.isTrait, Bound.isAnyTrait]

theorem KinBounds.any {q : Sequel} {found found' : Separated Bound} (h : KinBounds q found found') :
    found.items.any Bound.isTrait = found'.items.any Bound.isTrait ∧
      found.items.any Bound.isAnyTrait = found'.items.any Bound.isAnyTrait := by
  obtain rfl | ⟨-, -, front, a, b, hitems, hitems', hab⟩ := h
  · exact ⟨rfl, rfl⟩
  · obtain ⟨htrait, hany⟩ := isTrait_of_plain hab.plain
    simp [hitems, hitems', htrait, hany]

theorem KinBounds.traitObject {q : Sequel} {found found' : Separated Bound} (h : KinBounds q found found')
    (isDyn : Bool) : KinType q (.traitObject isDyn found.items found.trailing)
      (.traitObject isDyn found'.items found'.trailing) := by
  obtain rfl | ⟨hfalse, hfalse', hlast⟩ := h
  · exact Std.Refl.refl _
  · rw [hfalse, hfalse']
    refine ⟨⟨by simp [hlast.plain], hlast.written.after _, fun hjoins => by rw [hlast.same hjoins]⟩, by simp⟩

theorem KinBounds.implTrait {q : Sequel} {found found' : Separated Bound} (h : KinBounds q found found') :
    KinType q (.implTrait found.items found.trailing) (.implTrait found'.items found'.trailing) := by
  obtain rfl | ⟨hfalse, hfalse', hlast⟩ := h
  · exact Std.Refl.refl _
  · rw [hfalse, hfalse']
    refine ⟨⟨by simp [hlast.plain], hlast.written.after _, fun hjoins => by rw [hlast.same hjoins]⟩, by simp⟩

/-! ## Plus signs -/

theorem startsBound_nil (allowConst : Bool) : startsBound allowConst [] = false := by
  cases allowConst <;> rfl

/-- No bound begins with what follows, if that is no cast. -/
theorem Quiet.startsBound {q : Sequel} (h : Look.anyWord q.rest = false) (allowConst : Bool) :
    Quiet q (startsBound allowConst) := by
  have hword : Quiet q Look.anyWord := ⟨h⟩
  have hbracket : Quiet q (Look.group .bracket) := of_first q rfl (fun _ _ _ _ _ => rfl) fun _ _ => rfl
  exact inferInstanceAs (Quiet q fun ts =>
    Look.any [Look.anyWord, Look.op "::", Look.op "?", Look.lifetime, Look.group .paren] ts ||
      (allowConst && Look.group .bracket ts))

theorem ClosesTo.plus {q : Sequel} {S : β → β → Prop} {k : Nat} {f f' : Tokens → Parser β}
    (hf : ∀ a, ClosesTo q S k (f a) (f' a)) (hend : Look.anyWord q.rest = false → Carries q Eq S f f') :
    ClosesTo q S (k + 1) (Parser.op "+" >>= f) (Parser.op "+" >>= f') := by
  cases hword : Look.anyWord q.rest with
  | false => exact taking q inferInstance inferInstance inferInstance hf (hend hword)
  | true =>
    have hnever : Closes q (fun _ _ => False) (Parser.op "+") := by
      refine ⟨fun k => ⟨fun s a t _ hovert hne hfits ha ht => ?_⟩⟩
      unfold Parser.op at ha
      split at ha
      · rename_i rest hdrop
        cases ha
        obtain rfl : rest = [] := ht
        obtain ⟨-, c, spacing, pos, hlast, htokens⟩ := dropOp_grown_last q hovert hne hdrop
        obtain rfl : '+' = c := by simpa using hlast
        simp [Sequel.fits, htokens, hword] at hfits
      · contradiction
    exact taking q inferInstance inferInstance hnever hf fun a a' s b t hfalse => hfalse.elim

theorem KinBounds.cons {q : Sequel} {rest rest' : Separated Bound} (h : KinBounds q rest rest') (next : Bound) :
    KinBounds q ⟨next :: rest.items, rest.trailing⟩ ⟨next :: rest'.items, rest'.trailing⟩ := by
  obtain rfl | ⟨hfalse, hfalse', hlast⟩ := h
  · exact Std.Refl.refl _
  · exact .inr ⟨hfalse, hfalse', hlast.cons next⟩

theorem KinBounds.single {q : Sequel} {first first' : Bound} (h : KinBound q first first') :
    KinBounds q ⟨[first], false⟩ ⟨[first'], false⟩ := .inr ⟨rfl, rfl, .single h⟩

/-! ## Rules -/

instance Needs.typeAfter (rules : Rules) (allowPlus : Bool) (quantified : Option Binder) :
    Needs (typeAfter rules allowPlus quantified) := by
  unfold Grammar.typeAfter
  exact @after _ _ _ _ inferInstance fun _ => @ite _ _ _ _ _ inferInstance (choose rfl)

/-- Without invisible groups a type begins with its binder. -/
theorem type_overt (rules : Rules) (allowPlus : Bool) {s : Stream} (hovert : overtAll s.tokens = true) :
    type rules allowPlus s = (binder? rules >>= typeAfter rules allowPlus) s := by
  have hgroup : Look.group .invisible s.tokens = false := by
    obtain ⟨_ | ⟨token, rest⟩, stop, delim, leftover⟩ := s
    · rfl
    · rcases token with _ | _ | _ | ⟨_ | _ | _ | _, _, _, _⟩ <;> simp_all [Look.group, overtAll, overt]
  rw [Grammar.type, bind_run, look_run, ok_bind, hgroup]
  rfl

theorem pathType_more_nil (rules : Rules) (n : Nat) {s : Stream} (h : Look.op "+" s.tokens = false) :
    pathType.more rules n s = .ok (⟨[], false⟩, s) := by
  cases n with
  | zero => rfl
  | succ n =>
    rw [pathType.more, bind_run, look_run, ok_bind, h]
    rfl

section Rules

variable (q : Sequel) (rules : Rules) [∀ b, Extends q (rules.type b)]
  [∀ b c, Extends q (rules.bound b c)] [∀ b, Shrinks (rules.type b)] [∀ b c, Shrinks (rules.bound b c)]
  [∀ b, Needs (rules.type b)] [∀ b c, Needs (rules.bound b c)]
  [∀ b, Closes q (KinType q) (rules.type b)] [∀ b c, Closes q (KinBound q) (rules.bound b c)]

instance Closes.outputIf (allowPlus : Bool) : Closes q (KinOutput q) (output? rules allowPlus) := by
  have htype : Closes q (KinOutput q) (some <$> rules.type allowPlus) :=
    wrap q (R := KinType q) inferInstance fun a b h =>
      ⟨by simp [h.plain], h.written.after (sign "->"), fun hjoins => by rw [h.same hjoins]⟩
  unfold output?
  infer_instance

instance Idles.outputIf (allowPlus : Bool) : Idles q (output? rules allowPlus) := by
  unfold output?
  infer_instance

instance Needs.callArgs : Needs (callArgs rules) := by
  unfold Grammar.callArgs
  infer_instance

instance Closes.callArgs : Closes q (KinArgs q) (callArgs rules) := by
  unfold Grammar.callArgs
  refine carry q inferInstance inferInstance (fun found => ?_) (.of_idles inferInstance)
  obtain ⟨inputs, opening, closing⟩ := found
  refine wrap q (inferInstance : Closes q (KinOutput q) _) fun output output' h => ⟨?_, ?_, ?_⟩
  · simp [h.plain]
  · exact h.written.after _
  · exact fun hjoins => by rw [h.same hjoins]

instance Closes.traitBound (allowConst : Bool) :
    Closes q (Option.Rel (KinBound q)) (traitBound rules false allowConst) := by
  have mark : ∀ allow, Extends q (traitBound.constMark allow) := by
    intro allow
    unfold traitBound.constMark
    infer_instance
  have shrinks : ∀ allow, Shrinks (traitBound.constMark allow) := by
    intro allow
    unfold traitBound.constMark
    infer_instance
  -- What comes after the path.
  have hcalled : ∀ pos isConst relaxed (quantified : Option Binder) rooted segments,
      Closes q (Option.Rel (KinBound q)) (do
        let _ ← op? "::"
        let args ← Grammar.callArgs rules
        let segments ← Pure.pure (withCallArgs segments args)
        if (quantified.isSome && relaxed) = true then
          Parser.failAt pos (.violated "`for<...>` binder not allowed with `?` trait polarity modifier")
        else if isConst = true then Pure.pure none
        else Pure.pure (some (.trait false relaxed quantified rooted segments))) := by
    intro pos isConst relaxed quantified rooted segments
    refine before q inferInstance inferInstance fun _ => ?_
    refine carry q inferInstance (R := KinArgs q) inferInstance (fun args => ?_) ?_
    · infer_instance
    · intro args args' s b t h hs hb
      simp only [bind_run, pure_run, ok_bind] at hb ⊢
      by_cases hboth : (quantified.isSome && relaxed) = true
      · rw [if_pos hboth] at hb
        contradiction
      · rw [if_neg hboth] at hb ⊢
        cases isConst with
        | true =>
          obtain ⟨rfl, rfl⟩ := pure_eq_ok.mp hb
          exact ⟨hs, none, .none, rfl⟩
        | false =>
          obtain ⟨rfl, rfl⟩ := pure_eq_ok.mp hb
          exact ⟨hs, _, .some (kin_trait h relaxed quantified rooted segments), rfl⟩
  unfold Grammar.traitBound
  dsimp only
  refine before q inferInstance inferInstance fun early => ?_
  refine before q inferInstance inferInstance fun isConst => ?_
  refine @here _ q _ _ fun pos => before q inferInstance inferInstance fun relaxed => ?_
  refine orElse q ?_ ?_ <;>
  · refine before q inferInstance inferInstance fun quantified => ?_
    refine carry q inferInstance inferInstance (fun found => ?_) (.of_idles inferInstance)
    refine @look _ q _ _ _ _ fun _ => orElse q ?_ inferInstance
    exact hcalled pos isConst relaxed.isSome quantified found.1 found.2

instance Closes.boundFront (allowConst : Bool) :
    Closes q (Option.Rel (KinBound q)) (boundFront rules allowConst) := by
  unfold Grammar.boundFront
  infer_instance

instance Closes.captured : Closes q Eq captured := by
  have hparams : Shrinks capturedParams := by
    have hgo : ∀ n, Shrinks (captured.go n) := by
      intro n
      induction n with
      | zero => exact .pure _
      | succ n ih =>
        unfold captured.go
        infer_instance
    unfold capturedParams
    infer_instance
  rw [captured_eq]
  infer_instance

instance Closes.bound (allowCapture allowConst : Bool) :
    Closes q (KinBound q) (bound rules allowCapture allowConst) := by
  have hkept : Closes q (KinBound q)
      (Grammar.keeping (Grammar.boundFront rules allowConst) id Bound.verbatim) := by
    refine keeping q (R := Option.Rel (KinBound q)) inferInstance (fun _ _ h => h) fun tokens => ?_
    have h := sameToLast_linked q tokens
    exact ⟨by simp [plain_of_sameToLast h], h, fun hjoins => by rw [linked_apart hjoins]⟩
  rw [bound_eq]
  infer_instance

instance Closes.bounds (allowPlus allowCapture allowConst : Bool) :
    Closes q (KinBounds q) (bounds rules allowPlus allowCapture allowConst) := by
  have hcons : ∀ first rest rest', KinBounds q rest rest' →
      KinBounds q (.cons first rest) (.cons first rest') := by
    rintro first ⟨items, trailing⟩ ⟨items', trailing'⟩ (h | ⟨hfalse, hfalse', hlast⟩)
    · exact .inl (by rw [h])
    · obtain ⟨front, a, b, rfl, rfl, hab⟩ := hlast
      refine .inr ⟨?_, ?_, .cons first ⟨front, a, b, rfl, rfl, hab⟩⟩ <;> simp_all [Separated.cons]
  refine ClosesTo.loop q fun k n m ih => ?_
  simp only [bounds.go]
  refine ClosesTo.next q (R := KinBound q) inferInstance inferInstance (fun first => ?_) ?_
  · refine ClosesTo.look q fun _ => ClosesTo.orElse q (ClosesTo.plus (fun _ => ?_) ?_) inferInstance
    · exact ClosesTo.look q fun _ => ClosesTo.orElse q (ClosesTo.wrap q ih (hcons first)) inferInstance
    · intro hword
      have hquiet := Quiet.startsBound hword allowConst
      exact Carries.look (startsBound_nil allowConst) (.of_pure fun _ _ _ => Std.Refl.refl _)
  · refine Carries.look (b := false) rfl ?_
    simp only [Bool.and_false, Bool.false_eq_true, if_false]
    exact .of_pure fun _ _ => .single

instance Needs.traitBound (allowConst : Bool) : Needs (traitBound rules false allowConst) := by
  have shrinks : ∀ allow, Shrinks (traitBound.constMark allow) := by
    intro allow
    unfold traitBound.constMark
    infer_instance
  unfold Grammar.traitBound
  dsimp only
  infer_instance

instance Needs.bound (allowCapture allowConst : Bool) : Needs (bound rules allowCapture allowConst) := by
  have hfront : Needs (Grammar.boundFront rules allowConst) := by
    unfold Grammar.boundFront
    infer_instance
  have hkept : Needs (keeping (Grammar.boundFront rules allowConst) id Bound.verbatim) :=
    inferInstanceAs (Needs (get >>= fun _ => Grammar.boundFront rules allowConst >>= _))
  have hcaptured : Needs captured := by
    unfold captured
    infer_instance
  rw [bound_eq]
  infer_instance

instance Needs.bounds (allowPlus allowCapture allowConst : Bool) :
    Needs (bounds rules allowPlus allowCapture allowConst) where
  fails s a t hs ha := by
    have hrun : Grammar.bounds rules allowPlus allowCapture allowConst s =
        bounds.go rules allowPlus allowCapture allowConst (sizeAll s.tokens + 1) s := rfl
    rw [hrun, bounds.go] at ha
    exact (inferInstance : Needs (Grammar.bound rules allowCapture allowConst >>= _)).fails s a t hs ha

instance Needs.objectBounds (pos : Pos) (allowPlus : Bool) : Needs (objectBounds rules pos allowPlus) := by
  unfold Grammar.objectBounds
  infer_instance

instance Closes.objectBounds (pos : Pos) (allowPlus : Bool) :
    Closes q (KinBounds q) (objectBounds rules pos allowPlus) := by
  unfold Grammar.objectBounds
  refine carry q inferInstance (R := KinBounds q) inferInstance inferInstance ?_
  exact .of_guard (fun _ _ h => h.any.1) fun _ _ h => h

instance Closes.traitObject : Closes q (KinType q) (traitObject rules) := by
  unfold Grammar.traitObject
  refine @here _ q _ _ fun pos => before q inferInstance inferInstance fun keyword => ?_
  exact wrap q (inferInstance : Closes q (KinBounds q) _) fun _ _ h => h.traitObject _

instance Closes.furtherBounds (first : Bound) : Closes q (KinType q) (furtherBounds rules first) := by
  have htakes : Takes (Parser.op "+" >>= fun _ => rules.bound false false) :=
    .andThen q inferInstance inferInstance inferInstance
  refine wrap q (repeatWhile q (R := KinBound q) rfl inferInstance) fun rest rest' h => ?_
  have hbounds : KinBounds q ⟨first :: rest, false⟩ ⟨first :: rest', false⟩ := .inr ⟨rfl, rfl, h.cons first⟩
  exact hbounds.traitObject false

instance Idles.furtherBounds (first : Bound) : Idles q (furtherBounds rules first) := by
  have hlist : Idles q (Parser.repeatWhile (Look.op "+") (Parser.op "+" >>= fun _ =>
      rules.bound false false)) := loop q (fun _ => rfl) rfl
  unfold Grammar.furtherBounds
  infer_instance

instance Closes.parenType (allowPlus : Bool) : Closes q (KinType q) (parenType rules allowPlus) := by
  unfold Grammar.parenType
  refine carry q inferInstance inferInstance (fun found => ?_) (.of_idles fun found => ?_) <;>
  · obtain ⟨content, opening, closing⟩ := found
    cases content with
    | type found => infer_instance
    | bound found => infer_instance
    | inner inner =>
      dsimp only
      generalize parenBound? inner = first
      cases first <;> infer_instance

instance Closes.functionType (quantified : Option Binder) :
    Closes q (KinType q) (functionType rules quantified) := by
  unfold Grammar.functionType
  refine before q inferInstance inferInstance fun own => before q inferInstance inferInstance fun isUnsafe => ?_
  refine before q inferInstance inferInstance fun abi => before q inferInstance inferInstance fun _ => ?_
  refine carry q inferInstance inferInstance (fun found => ?_) (.of_idles inferInstance)
  obtain ⟨found, opening, closing⟩ := found
  refine wrap q (inferInstance : Closes q (KinOutput q) _) fun output output' h => ⟨⟨?_, ?_, ?_⟩, by simp⟩
  · simp [h.plain]
  · exact h.written.after _
  · exact fun hjoins => by rw [h.same hjoins]

instance Closes.pathType_more : Closes q (KinBounds q) (rounds >>= pathType.more rules) := by
  refine ClosesTo.loop q fun k n m ih => ?_
  simp only [pathType.more]
  refine ClosesTo.look q fun _ => ClosesTo.orElse q (ClosesTo.plus (fun _ => ?_) ?_) inferInstance
  · refine ClosesTo.look q fun _ => ClosesTo.orElse q ?_ inferInstance
    refine ClosesTo.next q (R := KinBound q) inferInstance inferInstance
      (fun next => ClosesTo.wrap q ih fun _ _ h => h.cons next) ?_
    intro next next' s b t h hs hb
    obtain ⟨rest, s', hrest, hb⟩ := bind_eq_ok.mp hb
    rw [pathType_more_nil rules n (by rw [hs]; rfl)] at hrest
    cases hrest
    obtain ⟨rfl, rfl⟩ := pure_eq_ok.mp hb
    have hplus : Look.op "+" (q.grow s).tokens = false := by
      rw [Sequel.grow, hs]
      exact (Quiet.op_plus q).same
    exact ⟨hs, _, .single h, bind_eq_ok.mpr ⟨_, _, pathType_more_nil rules m hplus, rfl⟩⟩
  · intro hword
    have hquiet := Quiet.startsBound hword false
    exact Carries.look (startsBound_nil false) (.of_pure fun _ _ _ => Std.Refl.refl _)

instance Closes.pathType (quantified : Option Binder) (allowPlus : Bool) :
    Closes q (KinType q) (pathType rules quantified allowPlus) := by
  have hmore : ∀ first : Bound, Closes q (KinType q) (do
      let n ← rounds
      let rest ← pathType.more rules n
      Pure.pure (Ty.traitObject false (first :: rest.items) rest.trailing)) := by
    intro first
    rw [← bind_assoc]
    refine wrap q (pathType_more q rules) fun rest rest' h => ?_
    exact (h.cons first).traitObject false
  have hidle : ∀ first : Bound, Idles q (do
      let n ← rounds
      let rest ← pathType.more rules n
      Pure.pure (Ty.traitObject false (first :: rest.items) rest.trailing)) := by
    intro first
    have hloop : Idles q (rounds >>= pathType.more rules) := Idles.loop q (fun _ => rfl) rfl
    rw [← bind_assoc]
    infer_instance
  unfold Grammar.pathType
  refine carry q inferInstance inferInstance (fun found => ?_) (.of_idles fun found => ?_)
  · refine orElse q inferInstance (@look _ q _ _ _ _ fun called => ?_)
    split <;> infer_instance
  · refine @Idles.ite _ q _ _ _ _ inferInstance (@Idles.bind _ _ q _ _ inferInstance fun called => ?_)
    split <;> infer_instance

instance Closes.dynType (allowPlus : Bool) : Closes q (KinType q) (dynType rules allowPlus) := by
  have hfront : Closes q (fun found found' => found.1 = found'.1 ∧ KinBounds q found.2 found'.2)
      (dynFront rules allowPlus) := by
    unfold dynFront
    refine @here _ q _ _ fun pos => before q inferInstance inferInstance fun _ => ?_
    refine before q inferInstance inferInstance fun star => ?_
    exact wrap q (inferInstance : Closes q (KinBounds q) _) fun _ _ h => ⟨rfl, h⟩
  rw [dynType_eq]
  refine keeping q hfront ?_ fun tokens => ?_
  · rintro ⟨star, found⟩ ⟨_, found'⟩ ⟨rfl, h⟩
    cases star
    · exact .some (h.traitObject true)
    · exact .none
  · have h := sameToLast_linked q tokens
    exact ⟨⟨by simp [plain_of_sameToLast h], h, fun hjoins => by rw [linked_apart hjoins]⟩, by simp⟩

instance Closes.implType (allowPlus : Bool) : Closes q (KinType q) (implType rules allowPlus) := by
  unfold Grammar.implType
  refine @here _ q _ _ fun pos => before q inferInstance inferInstance fun _ => ?_
  refine carry q inferInstance (R := KinBounds q) inferInstance inferInstance ?_
  exact .of_guard (fun _ _ h => h.any.2) fun _ _ h => h.implTrait

instance Closes.pointerType : Closes q (KinType q) (pointerType rules) := by
  unfold Grammar.pointerType
  refine before q inferInstance inferInstance fun _ => before q inferInstance inferInstance fun isMut => ?_
  refine wrap q (inferInstance : Closes q (KinType q) _) fun target target' h => ⟨⟨?_, ?_, ?_⟩, by simp⟩
  · simp [h.plain]
  · exact h.written.after _
  · exact fun hjoins => by rw [h.same hjoins]

instance Closes.referenceType : Closes q (KinType q) (referenceType rules) := by
  unfold Grammar.referenceType
  refine before q inferInstance inferInstance fun _ => before q inferInstance inferInstance fun name => ?_
  refine before q inferInstance inferInstance fun isMut => ?_
  refine wrap q (inferInstance : Closes q (KinType q) _) fun target target' h => ⟨⟨?_, ?_, ?_⟩, by simp⟩
  · simp [h.plain]
  · exact h.written.after _
  · exact fun hjoins => by rw [h.same hjoins]

instance Closes.choose_nil {R : α → α → Prop} (names : List String) :
    Closes q R (choose.go names [] : Parser α) := expected q names

instance Closes.choose_cons {R : α → α → Prop} (names : List String) (name : String)
    (test : Tokens → Bool) (p : Parser α) (rest : List (String × (Tokens → Bool) × Parser α))
    [Steady q test] [Closes q R p] [Closes q R (choose.go names rest)] :
    Closes q R (choose.go names ((name, test, p) :: rest)) :=
  inferInstanceAs (Closes q R (Parser.look test >>= fun b => if b then p else choose.go names rest))

instance Closes.choose {R : α → α → Prop} (named : List (String × (Tokens → Bool) × Parser α))
    [h : Closes q R (choose.go (named.map Prod.fst) named)] : Closes q R (choose named) := h

instance Closes.typeAfter (allowPlus : Bool) (quantified : Option Binder) :
    Closes q (KinType q) (typeAfter rules allowPlus quantified) := by
  unfold Grammar.typeAfter bracketType
  dsimp only
  infer_instance

instance Needs.type (allowPlus : Bool) : Needs (type rules allowPlus) where
  fails s a t hs ha := by
    have hovert : overtAll s.tokens = true := by rw [hs]; rfl
    rw [type_overt rules allowPlus hovert] at ha
    exact (inferInstance : Needs (binder? rules >>= Grammar.typeAfter rules allowPlus)).fails s a t hs ha

instance Closes.type (allowPlus : Bool) : Closes q (KinType q) (type rules allowPlus) where
  below k := ⟨fun s a t hk hovert hne hfits ha ht => by
    have hafter : Closes q (KinType q) (binder? rules >>= Grammar.typeAfter rules allowPlus) := inferInstance
    rw [type_overt rules allowPlus hovert] at ha
    rw [type_overt rules allowPlus (overtAll_grown q hovert)]
    exact (hafter.below k).closed s a t hk hovert hne hfits ha ht⟩

end Rules

/-- Types and bounds end before other tokens at every level of nesting. -/
theorem Closes.level (q : Sequel) (depth : Nat) :
    ((∀ b, Closes q (KinType q) ((Rules.level depth).type b)) ∧
      ∀ b c, Closes q (KinBound q) ((Rules.level depth).bound b c)) ∧
    (∀ b, Needs ((Rules.level depth).type b)) ∧ ∀ b c, Needs ((Rules.level depth).bound b c) := by
  induction depth with
  | zero =>
    exact ⟨⟨fun _ => failHere q _, fun _ _ => failHere q _⟩, fun _ => .of_error fun _ => ⟨_, rfl⟩,
      fun _ _ => .of_error fun _ => ⟨_, rfl⟩⟩
  | succ depth ih =>
    obtain ⟨⟨htype, hbound⟩, hneeds, hneeds'⟩ := ih
    obtain ⟨hextends, hextends'⟩ := Extends.level q depth
    obtain ⟨hshrinks, hshrinks'⟩ := Shrinks.level depth
    exact ⟨⟨Closes.type q (Rules.level depth), Closes.bound q (Rules.level depth)⟩,
      Needs.type (Rules.level depth), Needs.bound (Rules.level depth)⟩

end Fieldwise.Grammar
