import Fieldwise.Proofs.ClosingTypes

/-!
# The ends of types

Where a plus sign ends the tokens that a type is read from, no word comes next, for a word would have begun another
bound. `Calms` states this of a parser, and it is found for the rules of the grammar from their steps. Only after a
plus sign something has to be looked at: either no bound can begin, or a bound is taken.
-/

namespace Fieldwise.Grammar

open Fieldwise.Grammar.Parser Fieldwise.Token

set_option synthInstance.maxSize 4096

variable {α β : Type}

variable {p : Parser α} {f : α → Parser β} {tokens : Tokens}

/-! ## Plus signs at the end -/

/-- Nothing follows. -/
def Sequel.alone : Sequel := ⟨false, [], .callSite, .invisible, rfl, rfl⟩

/-- Whether a plus sign comes last. -/
def endsPlus (tokens : Tokens) : Bool :=
  match tokens.getLast? with
  | some (.punct c _ _) => c == '+'
  | _ => false

theorem endsPlus_append {front : Tokens} (h : tokens ≠ []) : endsPlus (front ++ tokens) = endsPlus tokens := by
  rw [endsPlus, List.getLast?_append_of_ne_nil front h, endsPlus]

theorem endsPlus_cons {token : Token} (h : ∀ c spacing pos, token ≠ .punct c spacing pos) :
    endsPlus [token] = false := by
  cases token with
  | punct c spacing pos => exact absurd rfl (h c spacing pos)
  | _ => rfl

theorem anyWord_of_startsBound {allowConst : Bool} (h : startsBound allowConst tokens = false) :
    Look.anyWord tokens = false := by
  simp only [startsBound, Look.any, Bool.or_eq_false_iff, List.any_cons] at h
  exact h.1.1

theorem dropOp_front {cs : List Char} {left : Tokens} (hovert : overtAll tokens = true)
    (h : dropOp cs tokens = some left) :
    ∃ front, tokens = front ++ left ∧ front.length = cs.length ∧
      (endsPlus front = true → cs.getLast? = some '+') := by
  induction cs generalizing tokens with
  | nil =>
    cases h
    exact ⟨[], rfl, rfl, fun hplus => absurd hplus Bool.false_ne_true⟩
  | cons c more ih =>
    rw [dropOp, bare_overt hovert] at h
    split at h
    · rename_i d spacing pos rest
      have hrest : overtAll rest = true := by simpa [overtAll, overt] using hovert
      split at h
      · obtain ⟨rfl, -⟩ := ‹c = d ∧ c ≠ '\''›
        split at h
        · cases h
          have hmore : more = [] := by simpa using ‹more.isEmpty = true›
          refine ⟨[.punct c spacing pos], rfl, by rw [hmore]; rfl, fun hplus => ?_⟩
          simpa [hmore, endsPlus] using hplus
        · split at h
          · obtain ⟨front, hfront, hlength, hplus⟩ := ih hrest h
            have hmore : more ≠ [] := by simpa using ‹¬more.isEmpty = true›
            have hne : front ≠ [] := by
              rintro rfl
              exact hmore (List.length_eq_zero_iff.mp hlength.symm)
            refine ⟨[.punct c spacing pos] ++ front, by rw [hfront]; rfl, by simp [hlength], fun hends => ?_⟩
            rw [endsPlus_append hne] at hends
            rw [List.getLast?_cons, hplus hends]
            rfl
          · contradiction
      · contradiction
    · contradiction

theorem op_front {text : String} {s t : Stream} {a : Tokens} (hovert : overtAll s.tokens = true)
    (h : op text s = .ok (a, t)) :
    ∃ front, s.tokens = front ++ t.tokens ∧ (endsPlus front = true → text.toList.getLast? = some '+') := by
  unfold Parser.op at h
  split at h
  · rename_i rest hdrop
    cases h
    obtain ⟨front, hfront, -, hplus⟩ := dropOp_front hovert hdrop
    exact ⟨front, hfront, hplus⟩
  · contradiction

/-! ## What is taken -/

/-- If a plus sign ends what the parser takes from the stream, no word comes next. -/
def CalmAt (p : Parser α) (s : Stream) : Prop :=
  ∀ a t, p s = .ok (a, t) → ∃ front, s.tokens = front ++ t.tokens ∧
    (endsPlus front = true → Look.anyWord t.tokens = false)

/-- The same, and something is taken. -/
def MovesAt (p : Parser α) (s : Stream) : Prop :=
  ∀ a t, p s = .ok (a, t) → ∃ front, front ≠ [] ∧ s.tokens = front ++ t.tokens ∧
    (endsPlus front = true → Look.anyWord t.tokens = false)

/-- If a plus sign ends what the parser takes, no word comes next. -/
class Calms (p : Parser α) : Prop where
  /-- This holds for visible tokens. -/
  calm : ∀ s, overtAll s.tokens = true → CalmAt p s

section At

variable {s : Stream}

theorem CalmAt.pure (a : α) : CalmAt (Pure.pure a : Parser α) s := by
  intro b t h
  obtain ⟨-, rfl⟩ := pure_eq_ok.mp h
  exact ⟨[], rfl, fun hplus => absurd hplus Bool.false_ne_true⟩

theorem MovesAt.calm (h : MovesAt p s) : CalmAt p s := by
  intro a t ha
  obtain ⟨front, -, hfront⟩ := h a t ha
  exact ⟨front, hfront⟩

theorem CalmAt.andThen (hp : CalmAt p s) (hf : ∀ a m, p s = .ok (a, m) → CalmAt (f a) m) : CalmAt (p >>= f) s := by
  intro b t h
  obtain ⟨a, m, ha, hb⟩ := bind_eq_ok.mp h
  obtain ⟨front, hfront, hcalm⟩ := hp a m ha
  obtain ⟨more, hmore, hcalm'⟩ := hf a m ha b t hb
  refine ⟨front ++ more, by rw [hfront, hmore, List.append_assoc], fun hplus => ?_⟩
  by_cases hne : more = []
  · subst hne
    rw [List.nil_append] at hmore
    rw [List.append_nil] at hplus
    exact hmore ▸ hcalm hplus
  · exact hcalm' (endsPlus_append hne ▸ hplus)

theorem MovesAt.andThen (hp : MovesAt p s) (hf : ∀ a m, p s = .ok (a, m) → CalmAt (f a) m) : MovesAt (p >>= f) s := by
  intro b t h
  obtain ⟨front, hfront, hcalm⟩ := hp.calm.andThen hf b t h
  obtain ⟨a, m, ha, hb⟩ := bind_eq_ok.mp h
  obtain ⟨first, hne, hfirst, -⟩ := hp a m ha
  obtain ⟨more, hmore, -⟩ := hf a m ha b t hb
  refine ⟨front, ?_, hfront, hcalm⟩
  rintro rfl
  rw [List.nil_append, hfirst, hmore, ← List.append_assoc] at hfront
  have hnil : first ++ more = [] := List.append_left_eq_self.mp hfront
  exact hne (List.append_eq_nil_iff.mp hnil).1

/-- What comes before does not matter if something is taken after it. -/
theorem MovesAt.last (hp : ∀ a m, p s = .ok (a, m) → m.tokens <:+ s.tokens)
    (hf : ∀ a m, p s = .ok (a, m) → MovesAt (f a) m) : MovesAt (p >>= f) s := by
  intro b t h
  obtain ⟨a, m, ha, hb⟩ := bind_eq_ok.mp h
  obtain ⟨front, hfront⟩ := hp a m ha
  obtain ⟨more, hne, hmore, hcalm⟩ := hf a m ha b t hb
  refine ⟨front ++ more, by simp [hne], by rw [← hfront, hmore, List.append_assoc], fun hplus => ?_⟩
  exact hcalm (endsPlus_append hne ▸ hplus)

/-- After a plus sign there is either no word, or more is taken. -/
theorem CalmAt.plus {p p' : Parser α} {allowConst : Bool} (hovert : overtAll s.tokens = true)
    (hp : ∀ a m, op "+" s = .ok (a, m) → MovesAt p m) (hsame : ∀ m b t, p' m = .ok (b, t) → t = m) :
    CalmAt (op "+" >>= fun _ => look (startsBound allowConst) >>= fun b => if b then p else p') s := by
  intro b t h
  obtain ⟨plus, m, hop, h⟩ := bind_eq_ok.mp h
  obtain ⟨front, hfront, -⟩ := op_front hovert hop
  rw [bind_run, look_run, ok_bind] at h
  cases hstarts : startsBound allowConst m.tokens with
  | true =>
    simp only [hstarts, if_true] at h
    obtain ⟨more, hne, hmore, hcalm⟩ := hp plus m hop b t h
    exact ⟨front ++ more, by rw [hfront, hmore, List.append_assoc], fun hplus => hcalm (endsPlus_append hne ▸ hplus)⟩
  | false =>
    simp only [hstarts, Bool.false_eq_true, if_false] at h
    obtain rfl := hsame m b t h
    exact ⟨front, hfront, fun _ => anyWord_of_startsBound hstarts⟩

end At

namespace Calms

theorem of_same (h : ∀ s a t, p s = .ok (a, t) → t = s) : Calms p where
  calm s _ a t ha := by
    obtain rfl := h s a t ha
    exact ⟨[], rfl, fun hplus => absurd hplus Bool.false_ne_true⟩

theorem of_error (h : ∀ s, ∃ e, p s = .error e) : Calms p :=
  of_same fun s a t ha => by
    obtain ⟨e, he⟩ := h s
    simp [he] at ha

instance pure (a : α) : Calms (Pure.pure a : Parser α) := of_same fun _ _ _ h => (pure_eq_ok.mp h).2.symm

instance look (test : Tokens → Bool) : Calms (look test) := of_same fun _ _ _ h => (look_eq_ok.mp h).2.symm

instance here : Calms here := of_same fun _ _ _ h => by cases h; rfl

instance failAt (pos : Pos) (cause : Cause) : Calms (failAt pos cause : Parser α) := of_error fun _ => ⟨_, rfl⟩

instance expected (names : List String) : Calms (expected names : Parser α) := of_error fun _ => ⟨_, rfl⟩

theorem suffix (h : Calms p) {s t : Stream} {a : α} (hovert : overtAll s.tokens = true) (ha : p s = .ok (a, t)) :
    t.tokens <:+ s.tokens := by
  obtain ⟨front, hfront, -⟩ := h.calm s hovert a t ha
  exact ⟨front, hfront.symm⟩

theorem andThen (hp : Calms p) (hf : ∀ a, Calms (f a)) : Calms (p >>= f) where
  calm s hovert := (hp.calm s hovert).andThen fun a m ha =>
    (hf a).calm m (overtAll_of_suffix (hp.suffix hovert ha) hovert)

instance bind (p : Parser α) (f : α → Parser β) [hp : Calms p] [hf : ∀ a, Calms (f a)] : Calms (p >>= f) :=
  andThen hp hf

instance map (f : α → β) (p : Parser α) [Calms p] : Calms (f <$> p) :=
  inferInstanceAs (Calms (p >>= fun a => Pure.pure (f a)))

theorem orElse {c : Prop} [Decidable c] {p' : Parser α} (hp : Calms p) (hp' : Calms p') :
    Calms (if c then p else p') := by
  by_cases hc : c
  · simpa only [if_pos hc] using hp
  · simpa only [if_neg hc] using hp'

instance ite (c : Prop) [Decidable c] (p p' : Parser α) [hp : Calms p] [hp' : Calms p'] :
    Calms (if c then p else p') := orElse hp hp'

instance picks (p : Parser α) [h : Picks p] : Calms p where
  calm s hovert a t ha := by
    obtain ⟨token, htokens, hpunct, -⟩ := h.cons .alone hovert ha
    exact ⟨[token], htokens, fun hplus => absurd hplus (by rw [endsPlus_cons hpunct]; exact Bool.false_ne_true)⟩

theorem op {text : String} (h : text.toList.getLast? ≠ some '+') : Calms (op text) where
  calm s hovert a t ha := by
    obtain ⟨front, hfront, hplus⟩ := op_front hovert ha
    exact ⟨front, hfront, fun hends => absurd (hplus hends) h⟩

instance op_path : Calms (Parser.op "::") := op (by decide)

instance op_arrow : Calms (Parser.op "->") := op (by decide)

instance op_less : Calms (Parser.op "<") := op (by decide)

instance op_greater : Calms (Parser.op ">") := op (by decide)

instance op_question : Calms (Parser.op "?") := op (by decide)

instance op_bang : Calms (Parser.op "!") := op (by decide)

instance op_star : Calms (Parser.op "*") := op (by decide)

instance op_ampersand : Calms (Parser.op "&") := op (by decide)

instance opIf (text : String) [Calms (Parser.op text)] : Calms (op? text) := inferInstanceAs (Calms (_ >>= _))

instance wordIf (name : String) : Calms (word? name) := inferInstanceAs (Calms (_ >>= _))

instance lifetime : Calms lifetime where
  calm s hovert a t ha := by
    obtain ⟨pos, name, at_, rest, htokens, -, rfl⟩ := (lifetime_eq_ok hovert).mp ha
    exact ⟨[.punct '\'' .joint pos, .ident name at_], htokens, fun hplus => by contradiction⟩

instance lifetimeIf : Calms lifetime? := inferInstanceAs (Calms (_ >>= _))

instance lit : Calms lit where
  calm s hovert a t ha := by
    have hlit := (lit_eq_ok.mp ha).1
    unfold lit? at hlit
    rw [bare_overt hovert] at hlit
    split at hlit
    · rename_i text pos rest htokens
      cases hlit
      exact ⟨[.literal text pos], htokens, fun hplus => by contradiction⟩
    · rename_i name pos rest htokens
      split at hlit
      · cases hlit
        exact ⟨[.ident name pos], htokens, fun hplus => by contradiction⟩
      · contradiction
    · rename_i spacing pos rest htokens
      have hrest : overtAll rest = true := by simpa [htokens, overtAll, overt] using hovert
      rw [bare_overt hrest] at hlit
      split at hlit
      · rename_i text at_ after
        obtain ⟨kind, -, hfound⟩ := Option.map_eq_some_iff.mp hlit
        cases hfound
        exact ⟨[.punct '-' spacing pos, .literal text at_], htokens, fun hplus => by contradiction⟩
      · contradiction
    · contradiction

instance repeatWhile (test : Tokens → Bool) (p : Parser α) [hp : Calms p] : Calms (repeatWhile test p) where
  calm s hovert := by
    have hgo : ∀ n, Calms (repeatWhile.go test p n) := by
      intro n
      induction n with
      | zero => exact pure []
      | succ n ih => exact inferInstanceAs (Calms (_ >>= _))
    exact (hgo (sizeAll s.tokens + 1)).calm s hovert

instance choose_nil (names : List String) : Calms (choose.go names [] : Parser α) := expected names

instance choose_cons (names : List String) (name : String) (test : Tokens → Bool) (p : Parser α)
    (rest : List (String × (Tokens → Bool) × Parser α)) [Calms p] [Calms (choose.go names rest)] :
    Calms (choose.go names ((name, test, p) :: rest)) := inferInstanceAs (Calms (_ >>= _))

instance choose (named : List (String × (Tokens → Bool) × Parser α))
    [h : Calms (choose.go (named.map Prod.fst) named)] : Calms (choose named) := h

instance keeping (p : Parser α) (value? : α → Option β) (kept : Tokens → β) [hp : Calms p] :
    Calms (keeping p value? kept) where
  calm s hovert b t h := by
    obtain ⟨a, ha, -⟩ := keeping_eq_ok.mp h
    exact hp.calm s hovert a t ha

theorem moves (h : Calms p) (htakes : Takes p) {s : Stream} (hovert : overtAll s.tokens = true) : MovesAt p s := by
  intro a t ha
  obtain ⟨front, hfront, hcalm⟩ := h.calm s hovert a t ha
  have hlt := htakes.lt s a t hovert ha
  refine ⟨front, ?_, hfront, hcalm⟩
  rintro rfl
  rw [hfront, List.nil_append] at hlt
  omega

/-- What comes before does not matter if something is taken after it. -/
theorem last (hp : Extends .alone p) (hf : ∀ a, Calms (f a)) (htakes : ∀ a, Takes (f a)) : Calms (p >>= f) where
  calm s hovert := (MovesAt.last (hp.suffix s · · hovert) fun a m ha =>
    (hf a).moves (htakes a) (overtAll_of_suffix (hp.suffix s a m hovert ha) hovert)).calm

end Calms

/-! ### Rules -/

section TypesAndBounds

variable (rules : Rules) [∀ b, Extends .alone (rules.type b)] [∀ b c, Extends .alone (rules.bound b c)]
  [∀ b, Calms (rules.type b)] [∀ b c, Calms (rules.bound b c)]

namespace Calms

instance binderIf : Calms (binder? rules) := by
  have hend : Calms (binder rules) := by
    unfold binder lifetimeParam lifetimeBounds
    refine andThen inferInstance fun _ => andThen inferInstance fun _ => ?_
    exact last inferInstance inferInstance fun _ => .andThen .alone inferInstance inferInstance inferInstance
  unfold binder?
  infer_instance

instance outputIf (allowPlus : Bool) : Calms (output? rules allowPlus) := by
  unfold output?
  infer_instance

instance callArgs : Calms (callArgs rules) := by
  unfold Grammar.callArgs
  infer_instance

instance angleArgs : Calms (angleArgs rules) := by
  unfold Grammar.angleArgs
  refine andThen inferInstance fun _ => andThen inferInstance fun _ => ?_
  exact last inferInstance inferInstance fun _ => .andThen .alone inferInstance inferInstance inferInstance

instance segment (exprStyle : Bool) : Calms (segment rules exprStyle) := by
  unfold Grammar.segment
  dsimp only
  infer_instance

instance moreSegments (exprStyle : Bool) (goesOn : Tokens → Bool) : Calms (moreSegments rules exprStyle goesOn) := by
  unfold Grammar.moreSegments
  infer_instance

instance path (exprStyle : Bool) : Calms (path rules exprStyle) := by
  unfold Grammar.path
  infer_instance

instance qpath (exprStyle : Bool) : Calms (qpath rules exprStyle) := by
  unfold Grammar.qpath
  refine andThen inferInstance fun _ => orElse ?_ inferInstance
  refine andThen inferInstance fun _ => andThen inferInstance fun self => ?_
  refine andThen inferInstance fun _ => orElse ?_ ?_ <;>
  · refine andThen inferInstance fun asTrait => andThen inferInstance fun _ => ?_
    refine andThen inferInstance fun _ => andThen inferInstance fun first => ?_
    refine andThen inferInstance fun rest => ?_
    split <;> infer_instance

instance captured : Calms captured := by
  rw [captured_eq]
  refine andThen inferInstance fun _ => andThen inferInstance fun _ => ?_
  exact last inferInstance inferInstance fun _ => .andThen .alone inferInstance inferInstance inferInstance

instance traitBound (inParens allowConst : Bool) : Calms (traitBound rules inParens allowConst) := by
  have mark : ∀ allow, Calms (traitBound.constMark allow) := by
    intro allow
    unfold traitBound.constMark
    infer_instance
  unfold Grammar.traitBound
  dsimp only
  infer_instance

instance boundFront (allowConst : Bool) : Calms (boundFront rules allowConst) := by
  unfold Grammar.boundFront
  infer_instance

instance bound (allowCapture allowConst : Bool) : Calms (bound rules allowCapture allowConst) := by
  rw [bound_eq]
  infer_instance

end Calms

namespace Takes

instance keeping (p : Parser α) (value? : α → Option β) (kept : Tokens → β) [hp : Takes p] :
    Takes (keeping p value? kept) where
  lt s b t hovert h := by
    obtain ⟨a, ha, -⟩ := keeping_eq_ok.mp h
    exact hp.lt s a t hovert ha

instance (priority := low) bind (p : Parser α) (f : α → Parser β) [hp : Takes p] [hq : Extends .alone p]
    [hf : ∀ a, Extends .alone (f a)] : Takes (p >>= f) := .andThen .alone hp hq hf

instance (priority := low) map (f : α → β) (p : Parser α) [Takes p] [Extends .alone p] : Takes (f <$> p) :=
  inferInstanceAs (Takes (p >>= fun a => Pure.pure (f a)))

instance segment (exprStyle : Bool) : Takes (segment rules exprStyle) := by
  unfold Grammar.segment
  refine .after .alone inferInstance fun _ => @ite _ _ _ _ _ inferInstance ?_
  refine .after .alone inferInstance fun _ => @ite _ _ _ _ _ inferInstance inferInstance

instance path (exprStyle : Bool) : Takes (path rules exprStyle) := by
  unfold Grammar.path
  exact .after .alone inferInstance fun _ => inferInstance

instance traitBound (inParens allowConst : Bool) : Takes (traitBound rules inParens allowConst) := by
  have mark : ∀ allow, Extends .alone (traitBound.constMark allow) := by
    intro allow
    unfold traitBound.constMark
    infer_instance
  unfold Grammar.traitBound
  dsimp only
  refine .after .alone inferInstance fun early => .after .alone inferInstance fun isConst => ?_
  refine .after .alone inferInstance fun pos => .after .alone inferInstance fun relaxed => ?_
  refine @ite _ _ _ _ _ ?_ ?_ <;>
    exact .after .alone inferInstance fun quantified => inferInstance

instance boundFront (allowConst : Bool) : Takes (boundFront rules allowConst) := by
  unfold Grammar.boundFront
  exact .after .alone inferInstance fun _ => inferInstance

instance captured : Takes captured := by
  rw [captured_eq]
  infer_instance

instance bound (allowCapture allowConst : Bool) : Takes (bound rules allowCapture allowConst) := by
  rw [bound_eq]
  refine .after .alone inferInstance fun _ => @ite _ _ _ _ _ inferInstance ?_
  refine .after .alone inferInstance fun _ => @ite _ _ _ _ _ ?_ inferInstance
  exact .after .alone inferInstance fun pos => inferInstance

end Takes

variable [∀ b c, Takes (rules.bound b c)]

instance Calms.bounds (allowPlus allowCapture allowConst : Bool) :
    Calms (bounds rules allowPlus allowCapture allowConst) where
  calm s hovert := by
    -- There are more rounds than tokens, so the rounds do not run out after a plus sign.
    have hgo : ∀ n s, overtAll s.tokens = true → s.tokens.length < n →
        MovesAt (bounds.go rules allowPlus allowCapture allowConst n) s := by
      intro n
      induction n with
      | zero => exact fun s _ hlt => absurd hlt (Nat.not_lt_zero _)
      | succ n ih =>
        intro s hovert hlt
        have hfirst : Calms (Grammar.bound rules allowCapture allowConst) := inferInstance
        rw [bounds.go]
        refine (hfirst.moves inferInstance hovert).andThen fun first m ha => ?_
        have hm := hfirst.suffix hovert ha
        have hle := hm.length_le
        have hovert' := overtAll_of_suffix hm hovert
        refine ((look (Look.op "+")).calm m hovert').andThen fun plus m' hlook => ?_
        obtain rfl := (look_eq_ok.mp hlook).2
        split
        · refine .plus hovert' (fun a m' hop => ?_) fun m' b t h => (pure_eq_ok.mp h).2.symm
          have hlt' := (inferInstance : Takes (Parser.op "+")).lt m a m' hovert' hop
          have hm' := (Extends.op .alone "+").suffix m a m' hovert' hop
          exact (ih m' (overtAll_of_suffix hm' hovert') (by omega)).andThen fun rest _ _ => .pure _
        · exact .pure _
    exact (hgo (sizeAll s.tokens + 1) s hovert (Nat.lt_succ_of_le (length_le_sizeAll s.tokens))).calm

instance Calms.pathType_more : Calms (rounds >>= pathType.more rules) where
  calm s hovert := by
    have hgo : ∀ n s, overtAll s.tokens = true → s.tokens.length < n → CalmAt (pathType.more rules n) s := by
      intro n
      induction n with
      | zero => exact fun s _ hlt => absurd hlt (Nat.not_lt_zero _)
      | succ n ih =>
        intro s hovert hlt
        rw [pathType.more]
        refine ((look (Look.op "+")).calm s hovert).andThen fun plus m hlook => ?_
        obtain rfl := (look_eq_ok.mp hlook).2
        split
        · refine .plus hovert (fun a m hop => ?_) fun m b t h => (pure_eq_ok.mp h).2.symm
          have hlt' := (inferInstance : Takes (Parser.op "+")).lt s a m hovert hop
          have hovert' := overtAll_of_suffix ((Extends.op .alone "+").suffix s a m hovert hop) hovert
          have hnext : Calms (rules.bound false false) := inferInstance
          refine (hnext.moves inferInstance hovert').andThen fun next m' ha => ?_
          have hm' := hnext.suffix hovert' ha
          have hle := hm'.length_le
          exact (ih m' (overtAll_of_suffix hm' hovert') (by omega)).andThen fun rest _ _ => .pure _
        · exact .pure _
    exact hgo (sizeAll s.tokens + 1) s hovert (Nat.lt_succ_of_le (length_le_sizeAll s.tokens))

namespace Calms

instance objectBounds (pos : Pos) (allowPlus : Bool) : Calms (objectBounds rules pos allowPlus) := by
  unfold Grammar.objectBounds
  infer_instance

instance traitObject : Calms (traitObject rules) := by
  unfold Grammar.traitObject
  infer_instance

instance furtherBounds (first : Bound) : Calms (furtherBounds rules first) := by
  have hnext : Calms (Parser.op "+" >>= fun _ => rules.bound false false) :=
    last inferInstance inferInstance inferInstance
  unfold Grammar.furtherBounds
  infer_instance

instance parenType (allowPlus : Bool) : Calms (parenType rules allowPlus) := by
  unfold Grammar.parenType
  refine andThen inferInstance fun found => ?_
  obtain ⟨content, opening, closing⟩ := found
  cases content with
  | type found => exact pure found
  | bound found => exact furtherBounds rules found
  | inner inner =>
    refine andThen inferInstance fun _ => orElse ?_ inferInstance
    split <;> infer_instance

instance functionType (quantified : Option Binder) : Calms (functionType rules quantified) := by
  unfold Grammar.functionType abi?
  infer_instance

instance pathType (quantified : Option Binder) (allowPlus : Bool) : Calms (pathType rules quantified allowPlus) := by
  unfold Grammar.pathType
  refine andThen inferInstance fun found => orElse inferInstance ?_
  refine andThen inferInstance fun called => ?_
  split
  · infer_instance
  · refine andThen inferInstance fun plus => orElse ?_ inferInstance
    refine orElse ?_ inferInstance
    exact bind_assoc rounds (pathType.more rules) _ ▸ andThen inferInstance inferInstance

instance dynType (allowPlus : Bool) : Calms (dynType rules allowPlus) := by
  rw [dynType_eq, dynFront]
  infer_instance

instance typeAfter (allowPlus : Bool) (quantified : Option Binder) : Calms (typeAfter rules allowPlus quantified) := by
  unfold Grammar.typeAfter bracketType pointerType referenceType implType
  dsimp only
  infer_instance

instance type (allowPlus : Bool) : Calms (type rules allowPlus) where
  calm s hovert a t ha := by
    have hafter : Calms (binder? rules >>= Grammar.typeAfter rules allowPlus) := inferInstance
    rw [type_overt rules allowPlus hovert] at ha
    exact hafter.calm s hovert a t ha

end Calms

end TypesAndBounds

end Fieldwise.Grammar
