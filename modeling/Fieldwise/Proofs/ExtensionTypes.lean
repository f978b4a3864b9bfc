import Fieldwise.Proofs.Extension

/-!
# Types before other tokens

Every rule of the grammar of types reads its tokens again where others follow.
-/

namespace Fieldwise.Grammar

open Fieldwise.Grammar.Parser Fieldwise.Token

set_option synthInstance.maxSize 4096

variable {α β : Type} (q : Sequel)

/-! ## Tests of the grammar -/

namespace Steady

instance startsConst : Steady q startsConst := inferInstanceAs (Steady q (Look.any _))

instance startsArgs (exprStyle : Bool) : Steady q (startsArgs exprStyle) := by
  have hpath : Steady q fun ts => Look.op "::" ts && Look.third (Look.op "<") ts := third q _ (fun _ _ _ => rfl) id
  exact inferInstanceAs (Steady q fun ts =>
    (!exprStyle && Look.op "<" ts && !Look.op "<=" ts) || (Look.op "::" ts && Look.third (Look.op "<") ts))

instance pathGoesOn : Steady q pathGoesOn := third q _ (fun _ _ _ => rfl) Bool.not

instance startsCall : Steady q traitBound.startsCall := by
  have hpath : Steady q fun ts => Look.op "::" ts && Look.third (Look.group .paren) ts := third q _ (fun _ _ _ => rfl) id
  exact inferInstanceAs (Steady q fun ts =>
    Look.group .paren ts || (Look.op "::" ts && Look.third (Look.group .paren) ts))

instance startsBound (allowConst : Bool) : Steady q (startsBound allowConst) :=
  inferInstanceAs (Steady q fun ts =>
    Look.any [Look.anyWord, Look.op "::", Look.op "?", Look.lifetime, Look.group .paren] ts ||
      (allowConst && Look.group .bracket ts))

instance startsQuantified : Steady q typeAfter.startsQuantified :=
  inferInstanceAs (Steady q (Look.any _))

end Steady

namespace Quiet

instance startsArgs (exprStyle : Bool) : Quiet q (startsArgs exprStyle) := by
  have hpath : Quiet q fun ts => Look.op "::" ts && Look.third (Look.op "<") ts := third q _ id
  exact inferInstanceAs (Quiet q fun ts =>
    (!exprStyle && Look.op "<" ts && !Look.op "<=" ts) || (Look.op "::" ts && Look.third (Look.op "<") ts))

instance pathGoesOn : Quiet q pathGoesOn := third q _ Bool.not

instance startsCall : Quiet q traitBound.startsCall := by
  have hpath : Quiet q fun ts => Look.op "::" ts && Look.third (Look.group .paren) ts := third q _ id
  exact inferInstanceAs (Quiet q fun ts =>
    Look.group .paren ts || (Look.op "::" ts && Look.third (Look.group .paren) ts))

end Quiet

/-! ## Rules that keep what they have taken -/

/-- Run a parser, and keep the tokens that it took where it gives no value. -/
def keeping (p : Parser α) (value? : α → Option β) (kept : Tokens → β) : Parser β := do
  let before ← get
  let a ← p
  match value? a with
  | some b => return b
  | none => return kept (← since before)

/-- The value is what the parser gives, or else what was taken. -/
theorem keeping_eq_ok {p : Parser α} {value? : α → Option β} {kept : Tokens → β} {s t : Stream} {b : β} :
    keeping p value? kept s = .ok (b, t) ↔ ∃ a, p s = .ok (a, t) ∧
      b = (value? a).getD (kept (s.tokens.take (s.tokens.length - t.tokens.length))) := by
  have hrun : keeping p value? kept s = (p >>= fun a =>
      match value? a with
      | some b => pure b
      | none => since s >>= fun tokens => pure (kept tokens)) s := rfl
  rw [hrun, bind_eq_ok]
  constructor
  · rintro ⟨a, m, ha, h⟩
    cases hvalue : value? a with
    | some found =>
      rw [hvalue] at h
      obtain ⟨rfl, rfl⟩ := pure_eq_ok.mp h
      exact ⟨a, ha, by rw [hvalue]; rfl⟩
    | none =>
      rw [hvalue] at h
      obtain ⟨tokens, m', hsince, h⟩ := bind_eq_ok.mp h
      cases hsince
      obtain ⟨rfl, rfl⟩ := pure_eq_ok.mp h
      exact ⟨a, ha, by rw [hvalue]; rfl⟩
  · rintro ⟨a, ha, rfl⟩
    refine ⟨a, t, ha, ?_⟩
    cases value? a <;> rfl

/-- The trait of a bound, in parentheses or not; nothing for a constant trait. -/
def boundFront (rules : Rules) (allowConst : Bool) : Parser (Option Bound) := do
  if ← look (Look.group .paren) then Prod.fst <$> within .paren (traitBound rules true allowConst)
  else traitBound rules false allowConst

theorem bound_eq (rules : Rules) (allowCapture allowConst : Bool) :
    bound rules allowCapture allowConst = (do
      if ← look Look.lifetime then return .lifetime (← lifetime)
      else if ← look (Look.word "use") then
        let pos ← here
        let tokens ← captured
        if allowCapture then return .capture tokens
        else failAt pos (.violated "`use<...>` precise capturing syntax is not allowed here")
      else keeping (boundFront rules allowConst) id Bound.verbatim) := by
  unfold bound
  congr
  funext isLifetime
  congr
  funext isCapture
  congr
  funext before
  simp only [boundFront, bind_assoc]
  congr
  funext inParens
  cases inParens <;> simp only [Bool.false_eq_true, if_true, if_false] <;>
  · congr
    funext found
    cases found <;> rfl

/-- The parameters that a hidden type may mention, between the angle brackets. -/
def capturedParams : Parser (Separated Tokens) := rounds >>= captured.go

theorem captured_eq : captured = (do
    let keyword ← word "use"
    let left ← op "<"
    let params ← capturedParams
    let right ← op ">"
    return keyword ++ left ++ separatedTokens "," params ++ right) := by
  simp only [captured, capturedParams, bind_assoc]

/-- The bounds of a trait object with its keyword, and whether a star stands before them. -/
def dynFront (rules : Rules) (allowPlus : Bool) : Parser (Bool × Separated Bound) := do
  let pos ← here
  let _ ← word "dyn"
  let star ← op? "*"
  let found ← objectBounds rules pos allowPlus
  return (star.isSome, found)

theorem dynType_eq (rules : Rules) (allowPlus : Bool) :
    dynType rules allowPlus = keeping (dynFront rules allowPlus)
      (fun (star, found) => if star then none else some (.traitObject true found.items found.trailing))
      Ty.verbatim := by
  simp only [dynType, keeping, dynFront, bind_assoc, pure_bind]
  congr
  funext before
  congr
  funext pos
  congr
  funext keyword
  congr
  funext star
  congr
  funext found
  cases star <;> rfl

/-- What is taken does not reach the end, so it is the same. -/
theorem taken_grow {before m : Stream} (h : m.tokens <:+ before.tokens) (hne : m.tokens ≠ []) :
    (q.grow before).tokens.take ((q.grow before).tokens.length - (q.grow m).tokens.length) =
      before.tokens.take (before.tokens.length - m.tokens.length) := by
  obtain ⟨front, hfront⟩ := h
  have hlength : front.length + m.tokens.length + q.rest.length - (m.tokens.length + q.rest.length) =
      front.length := by omega
  simp only [Sequel.grow, ← hfront, linked_append q front hne, List.length_append, length_linked,
    Nat.add_sub_cancel, List.append_assoc, List.take_left]

instance Extends.keeping (p : Parser α) (value? : α → Option β) (kept : Tokens → β)
    [hp : Extends q p] : Extends q (keeping p value? kept) where
  suffix s b t hovert h := by
    obtain ⟨a, ha, -⟩ := keeping_eq_ok.mp h
    exact hp.suffix s a t hovert ha
  grown s b t hovert h hgood := by
    obtain ⟨a, ha, rfl⟩ := keeping_eq_ok.mp h
    refine keeping_eq_ok.mpr ⟨a, hp.grown s a t hovert ha hgood, ?_⟩
    rw [taken_grow q (hp.suffix s a t hovert ha) hgood.ne]

/-! ## With tokens left -/

namespace Extends

instance outerAttribute (rules : Rules) : Extends q (outerAttribute rules) := by
  unfold Grammar.outerAttribute attributeBody
  infer_instance

instance outerAttributes (rules : Rules) : Extends q (outerAttributes rules) := by
  have htakes : Takes (Grammar.outerAttribute rules) := by
    unfold Grammar.outerAttribute attributeBody
    exact .after q (here q) fun _ => .andThen q inferInstance inferInstance inferInstance
  unfold Grammar.outerAttributes
  infer_instance

instance abiIf : Extends q abi? := by
  unfold abi?
  infer_instance

section TypesAndBounds

variable (rules : Rules) [∀ b, Extends q (rules.type b)] [∀ b c, Extends q (rules.bound b c)]

instance binderIf : Extends q (binder? rules) := by
  unfold binder? binder lifetimeParam lifetimeBounds
  infer_instance

instance outputIf (allowPlus : Bool) : Extends q (output? rules allowPlus) := by
  unfold output?
  infer_instance

instance callArgs : Extends q (callArgs rules) := by
  unfold Grammar.callArgs
  infer_instance

instance constArgument : Extends q (constArgument rules) := by
  unfold Grammar.constArgument blockWithAttributes
  infer_instance

instance genericArg : Extends q (genericArg rules) := by
  unfold Grammar.genericArg
  refine andThen q inferInstance fun _ => orElse q inferInstance ?_
  refine andThen q inferInstance fun _ => orElse q inferInstance ?_
  refine andThen q inferInstance fun type => ?_
  split <;> infer_instance

instance angleArgs : Extends q (angleArgs rules) := by
  unfold Grammar.angleArgs
  infer_instance

instance segment (exprStyle : Bool) : Extends q (segment rules exprStyle) := by
  unfold Grammar.segment
  dsimp only
  infer_instance

instance moreSegments (exprStyle : Bool) (goesOn : Tokens → Bool) [Steady q goesOn] :
    Extends q (moreSegments rules exprStyle goesOn) := by
  have htakes : Takes (Parser.op "::" >>= fun _ => Grammar.segment rules exprStyle) :=
    .andThen q inferInstance inferInstance inferInstance
  unfold Grammar.moreSegments
  infer_instance

instance path (exprStyle : Bool) : Extends q (path rules exprStyle) := by
  unfold Grammar.path
  infer_instance

instance qpath (exprStyle : Bool) : Extends q (qpath rules exprStyle) := by
  unfold Grammar.qpath
  refine andThen q inferInstance fun _ => orElse q ?_ inferInstance
  refine andThen q inferInstance fun _ => andThen q inferInstance fun self => ?_
  refine andThen q inferInstance fun _ => orElse q ?_ ?_ <;>
  · refine andThen q inferInstance fun asTrait => andThen q inferInstance fun _ => ?_
    refine andThen q inferInstance fun _ => andThen q inferInstance fun first => ?_
    refine andThen q inferInstance fun rest => ?_
    split <;> infer_instance

instance capturedParams : Extends q capturedParams := by
  refine ExtendsTo.loop q fun k n m ih => ?_
  simp only [captured.go]
  infer_instance

instance captured : Extends q captured := by
  rw [captured_eq]
  infer_instance

instance traitBound (inParens allowConst : Bool) :
    Extends q (traitBound rules inParens allowConst) := by
  have mark : ∀ allow, Extends q (traitBound.constMark allow) := by
    intro allow
    unfold traitBound.constMark
    infer_instance
  unfold Grammar.traitBound
  dsimp only
  infer_instance

instance boundFront (allowConst : Bool) : Extends q (boundFront rules allowConst) := by
  unfold Grammar.boundFront
  infer_instance

instance bound (allowCapture allowConst : Bool) :
    Extends q (bound rules allowCapture allowConst) := by
  rw [bound_eq]
  infer_instance

instance bounds (allowPlus allowCapture allowConst : Bool) :
    Extends q (bounds rules allowPlus allowCapture allowConst) := by
  refine ExtendsTo.loop q fun k n m ih => ?_
  simp only [bounds.go]
  infer_instance

instance objectBounds (pos : Pos) (allowPlus : Bool) :
    Extends q (objectBounds rules pos allowPlus) := by
  unfold Grammar.objectBounds
  infer_instance

instance traitObject : Extends q (traitObject rules) := by
  unfold Grammar.traitObject
  infer_instance

instance furtherBounds (first : Bound) : Extends q (furtherBounds rules first) := by
  have htakes : Takes (Parser.op "+" >>= fun _ => rules.bound false false) :=
    .andThen q inferInstance inferInstance inferInstance
  unfold Grammar.furtherBounds
  infer_instance

instance parenType (allowPlus : Bool) : Extends q (parenType rules allowPlus) := by
  unfold Grammar.parenType
  refine andThen q inferInstance fun found => ?_
  obtain ⟨content, opening, closing⟩ := found
  cases content with
  | type found => exact pure q found
  | bound found => exact furtherBounds q rules found
  | inner inner =>
    refine andThen q inferInstance fun _ => orElse q ?_ inferInstance
    split <;> infer_instance

instance functionType (quantified : Option Binder) : Extends q (functionType rules quantified) := by
  unfold Grammar.functionType
  infer_instance

instance pathType (quantified : Option Binder) (allowPlus : Bool) :
    Extends q (pathType rules quantified allowPlus) := by
  have hmore : Extends q (rounds >>= pathType.more rules) := by
    refine ExtendsTo.loop q fun k n m ih => ?_
    simp only [pathType.more]
    infer_instance
  unfold Grammar.pathType
  refine andThen q inferInstance fun found => orElse q inferInstance ?_
  refine andThen q inferInstance fun called => ?_
  split
  · infer_instance
  · refine andThen q inferInstance fun plus => orElse q ?_ inferInstance
    refine orElse q ?_ inferInstance
    exact bind_assoc rounds (pathType.more rules) _ ▸ andThen q hmore inferInstance

instance dynType (allowPlus : Bool) : Extends q (dynType rules allowPlus) := by
  rw [dynType_eq, dynFront]
  infer_instance

instance typeAfter (allowPlus : Bool) (quantified : Option Binder) :
    Extends q (typeAfter rules allowPlus quantified) := by
  unfold Grammar.typeAfter bracketType pointerType referenceType implType
  dsimp only
  infer_instance

instance groupType (allowArgs : Bool) : Extends q (groupType rules allowArgs) := by
  have hgoesOn : Steady q fun ts => Look.op "::" ts && Look.third Look.anyWord ts := .third q _ (fun _ _ _ => rfl) id
  have hargued : Steady q fun ts => Look.op "::" ts && Look.third (Look.op "<") ts := .third q _ (fun _ _ _ => rfl) id
  unfold Grammar.groupType
  refine andThen q inferInstance fun inner => andThen q inferInstance fun goesOn => ?_
  refine andThen q inferInstance fun argued => ?_
  split <;> infer_instance

instance type (allowPlus : Bool) : Extends q (type rules allowPlus) := by
  unfold Grammar.type
  infer_instance

end TypesAndBounds

/-- Types and bounds do the same before others at every level of nesting. -/
theorem level (depth : Nat) :
    (∀ b, Extends q ((Rules.level depth).type b)) ∧
      ∀ b c, Extends q ((Rules.level depth).bound b c) := by
  induction depth with
  | zero => exact ⟨fun _ => failHere q _, fun _ _ => failHere q _⟩
  | succ depth ih =>
    obtain ⟨htype, hbound⟩ := ih
    exact ⟨type q (Rules.level depth), bound q (Rules.level depth)⟩

end Extends

end Fieldwise.Grammar
