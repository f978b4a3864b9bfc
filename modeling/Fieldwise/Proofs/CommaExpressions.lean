import Fieldwise.Proofs.CommaSequels

/-!
# Expressions before a comma

The rules for paths, patterns and expressions, one by one, do before a comma what they do without it. Most of them
are put together from parsers that do. The operators after an operand are read in loops, in which each round takes a
token or is the last one.
-/

namespace Fieldwise.Grammar

open Fieldwise.Grammar.Parser Fieldwise.Token

set_option synthInstance.maxSize 8192
set_option synthInstance.maxHeartbeats 100000

variable (q : Sequel) [hq : Parting q]

variable {tokens : Tokens}

/-! ## Tests -/

theorem sign_of_mem (entry : String × Precedence) (h : entry ∈ binaryOperators) : Sign entry.1 := by
  have hall : ∀ entry ∈ binaryOperators, entry.1.toList ≠ [] ∧ ',' ∉ entry.1.toList := by decide
  exact ⟨(hall entry h).1, (hall entry h).2⟩

namespace Settled

instance startsAlternative : Settled q startsAlternative := by
  unfold Grammar.startsAlternative
  infer_instance

/-- A range that ends at the end of the tokens ends before a comma. -/
instance endsBound : Settled q rangeBound.endsBound := by
  have : Steady q rangeBound.endsBound := inferInstanceAs (Steady q (Look.any _))
  exact of_steady q fun _ _ _ => rfl

instance continuesPath : Steady q continuesPath := inferInstanceAs (Steady q (Look.second _))

instance startsAssign : Settled q startsAssign := by
  unfold Grammar.startsAssign
  infer_instance

instance endsRange (allowStruct : Bool) : Settled q (endsRange allowStruct) := by
  have : Steady q (Grammar.endsRange allowStruct) := by
    unfold Grammar.endsRange
    infer_instance
  exact of_steady q fun _ _ _ => rfl

instance startsExpr : Settled q startsExpr := inferInstanceAs (Settled q (Look.any _))

instance startsClosure : Settled q startsClosure := by
  have hquantified : Settled q fun ts => Look.word "for" ts && Look.second (Look.op "<") ts &&
      Look.third (Look.any [Look.lifetime, Look.op ">"]) ts := by
    simp only [Bool.and_assoc]
    infer_instance
  unfold Grammar.startsClosure
  infer_instance

instance startsPath : Settled q startsPath := by
  unfold Grammar.startsPath
  infer_instance

theorem binaryOperator? (hovert : overtAll tokens = true) :
    Grammar.binaryOperator? (q.linked tokens ++ q.rest) = Grammar.binaryOperator? tokens := by
  have hsigns := sign_of_mem
  unfold Grammar.binaryOperator?
  generalize binaryOperators = entries at hsigns
  induction entries with
  | nil => rfl
  | cons entry rest ih =>
    obtain ⟨hentry, hrest⟩ := List.forall_mem_cons.mp hsigns
    rw [List.find?_cons, List.find?_cons, (op q entry.1).same tokens hovert, ih hrest]

theorem nextPrecedence (hovert : overtAll tokens = true) :
    Grammar.nextPrecedence (q.linked tokens ++ q.rest) = Grammar.nextPrecedence tokens := by
  simp only [Grammar.nextPrecedence, binaryOperator? q hovert, (startsAssign q).same tokens hovert,
    (op q "..").same tokens hovert, (word q "as").same tokens hovert]

/-- What may not follow a cast does not follow it after a comma either. -/
theorem afterCast (hovert : overtAll tokens = true) (h : Grammar.afterCast tokens = none) :
    Grammar.afterCast (q.linked tokens ++ q.rest) = none := by
  unfold Grammar.afterCast at h ⊢
  simp only [(op q _).same tokens hovert, (group q _).same tokens hovert]
  grind

end Settled

/-! ## Paths -/

instance Takes.outerAttribute (rules : Rules) : Takes (outerAttribute rules) := by
  let q : Sequel := ⟨false, [], .callSite, .invisible, rfl, rfl⟩
  unfold Grammar.outerAttribute attributeBody
  exact .after q (Extends.here q) fun _ => .andThen q inferInstance inferInstance inferInstance

/-- The rules that expressions come back to outside of groups do before a comma what they do without it. Paths are
read with rules for types that do so before other tokens as well. -/
class Rules.Stop (rules : Rules) : Prop where
  type : ∀ allowPlus, Stops q (rules.type allowPlus)
  bound : ∀ allowCapture allowConst, Stops q (rules.bound allowCapture allowConst)
  expr : ∀ allowStruct, Stops q (rules.expr allowStruct)
  unary : ∀ allowStruct, Stops q (rules.unary allowStruct)
  climb : ∀ left allowStruct base, Stops q (rules.climb left allowStruct base)
  pattern : Stops q rules.pattern
  extendsType : ∀ allowPlus, Extends q (rules.type allowPlus)
  extendsBound : ∀ allowCapture allowConst, Extends q (rules.bound allowCapture allowConst)
  shrinksType : ∀ allowPlus, Shrinks (rules.type allowPlus)
  shrinksBound : ∀ allowCapture allowConst, Shrinks (rules.bound allowCapture allowConst)

namespace Stops

section Rules

variable (rules : Rules) [hrules : Rules.Stop q rules]

instance ruleType (allowPlus : Bool) : Stops q (rules.type allowPlus) := hrules.type allowPlus

instance ruleExpr (allowStruct : Bool) : Stops q (rules.expr allowStruct) := hrules.expr allowStruct

instance ruleUnary (allowStruct : Bool) : Stops q (rules.unary allowStruct) := hrules.unary allowStruct

instance ruleClimb (left : Expr) (allowStruct : Bool) (base : Precedence) :
    Stops q (rules.climb left allowStruct base) := hrules.climb left allowStruct base

instance rulePattern : Stops q rules.pattern := hrules.pattern

omit hrules in
instance outerAttribute : Stops q (outerAttribute rules) := by
  unfold Grammar.outerAttribute attributeBody
  exact here_needs q (fun _ => inferInstance) fun _ => inferInstance

omit hrules in
instance outerTokens : Stops q (outerTokens rules) := by
  unfold Grammar.outerTokens outerAttributes
  infer_instance

omit hrules in
instance blockWithAttributes : Stops q (blockWithAttributes rules) := inferInstanceAs (Stops q (Parser.enclosed _ _))

omit hrules in
instance block : Stops q rules.block := inferInstanceAs (Stops q (Parser.enclosed _ _))

omit hrules in
instance binderIf : Stops q (binder? rules) := by
  have hstop : Settled q (Look.any [List.isEmpty, Look.op ",", Look.op ">"]) := .of_steady q fun _ _ _ => rfl
  unfold binder? binder lifetimeParam lifetimeBounds outerAttributes
  infer_instance

instance (priority := low) extendsType (allowPlus : Bool) : Extends q (rules.type allowPlus) :=
  hrules.extendsType allowPlus

instance (priority := low) extendsBound (allowCapture allowConst : Bool) :
    Extends q (rules.bound allowCapture allowConst) := hrules.extendsBound allowCapture allowConst

instance angleArgs : Stops q (angleArgs rules) := by
  have := hrules.shrinksType
  have := hrules.shrinksBound
  exact of_closes q inferInstance inferInstance inferInstance

instance qpath (exprStyle : Bool) : Stops q (qpath rules exprStyle) := by
  have := hrules.shrinksType
  have := hrules.shrinksBound
  have hneeds : Needs (Grammar.qpath rules exprStyle) := by
    unfold Grammar.qpath
    infer_instance
  exact of_closes q inferInstance inferInstance inferInstance

/-! ## Patterns -/

instance exprTokens : Stops q rules.exprTokens := inferInstanceAs (Stops q (_ <$> _))

instance typeTokens : Stops q rules.typeTokens := inferInstanceAs (Stops q (_ <$> _))

omit hq in
instance plainPattern (p : Parser Tokens) [Stops q p] : Stops q (plainPattern p) :=
  inferInstanceAs (Stops q (_ >>= _))

instance alternatives : Stops q (alternatives rules) := by
  have htakes : Takes (Parser.op "|" >>= fun bar => rules.pattern >>= fun found =>
      (Pure.pure (bar ++ found.tokens) : Parser Tokens)) :=
    .before q inferInstance inferInstance inferInstance
  unfold Grammar.alternatives
  infer_instance

instance alternativesTokens : Stops q (alternativesTokens rules) := inferInstanceAs (Stops q (_ <$> _))

omit hrules in
instance constBlock : Stops q (constBlock rules) := inferInstanceAs (Stops q (seq _))

instance rangeBound : Stops q (rangeBound rules) := by
  unfold Grammar.rangeBound
  dsimp only
  infer_instance

omit hrules in
instance rangeLimits (allowOld : Bool) : Stops q (rangeLimits allowOld) := by
  have hold : Stops q (here >>= fun pos => Parser.op "..." >>= fun _ =>
      (Pure.pure (true, operator pos ['.', '.', '=']) : Parser (Bool × Tokens))) :=
    here_needs q inferInstance inferInstance
  unfold Grammar.rangeLimits
  infer_instance

end Rules

end Stops

instance Needs.rangeLimits (allowOld : Bool) : Needs (rangeLimits allowOld) := by
  unfold Grammar.rangeLimits
  infer_instance

namespace Stops

section Rules

variable (rules : Rules) [hrules : Rules.Stop q rules]

instance rangeFrom (start : Tokens) : Stops q (rangeFrom rules start) :=
  here_needs q (fun _ => inferInstance) fun _ => inferInstance

instance rangeOpen : Stops q (rangeOpen rules) :=
  here_needs q (fun _ => inferInstance) fun _ => inferInstance

instance literalPattern : Stops q (literalPattern rules) := inferInstanceAs (Stops q (_ >>= _))

omit hrules in
instance tupleIndex : Stops q tupleIndex := by
  -- It is a literal, and whether it is an index can be seen from the literal alone.
  have hok : ∃ judge : Lit → Option Tokens, ∀ s a t, Grammar.tupleIndex s = .ok (a, t) ↔
      ∃ found, Parser.lit s = .ok (found, t) ∧ judge found = some a := by
    refine ⟨fun found => match found.kind with
      | some (.whole suffix) =>
        if !suffix.isEmpty then none
        else if found.text.startsWith "-" then none
        else if tupleIndex.value found.text.toList < 0x100000000 then
          some [.literal (toString (tupleIndex.value found.text.toList)) found.pos]
        else none
      | _ => none, fun s a t => ?_⟩
    unfold Grammar.tupleIndex Parser.lit
    cases Parser.lit? s.tokens with
    | none => simp [Parser.fail]
    | some found =>
      obtain ⟨⟨text, kind, pos, tokens⟩, rest⟩ := found
      rcases kind with _ | _ | _ | _ | _ | _
      case some.whole =>
        simp
        grind
      all_goals simp [Parser.fail]
  obtain ⟨judge, hok⟩ := hok
  refine .intro (fun s a t hovert h => ?_) fun s a t hovert h => ?_ <;>
    obtain ⟨found, hlit, hjudge⟩ := (hok s a t).mp h
  · exact (lit q).suffix hovert hlit
  · exact (hok _ _ _).mpr ⟨found, (lit q).grown hovert hlit, hjudge⟩

omit hrules in
instance member : Stops q member := by
  unfold Grammar.member
  infer_instance

instance pathPattern : Stops q (pathPattern rules) := by
  unfold Grammar.pathPattern
  infer_instance

instance bindingPattern : Stops q (bindingPattern rules) := by
  unfold Grammar.bindingPattern
  dsimp only
  infer_instance

instance pattern : Stops q (pattern rules) := by
  unfold Grammar.pattern
  infer_instance

/-! ## Operators -/

omit hq in
instance plainExpr (p : Parser Tokens) [Stops q p] : Stops q (plainExpr p) := inferInstanceAs (Stops q (_ >>= _))

omit hq in
instance blockExpr (p : Parser Tokens) [Stops q p] : Stops q (blockExpr p) := inferInstanceAs (Stops q (_ >>= _))

instance rightOperand (allowStruct : Bool) (precedence : Precedence) :
    Stops q (rightOperand rules allowStruct precedence) := by
  have hstep : ∀ operand n, rightOperand.go rules allowStruct precedence operand (n + 1) = (do
      let next := nextPrecedence (← get).tokens
      if precedence.rank < next.rank || (next = precedence && precedence = .assign) then
        whileTaking (rules.climb operand allowStruct next) fun wider =>
          rightOperand.go rules allowStruct precedence wider n
      else return operand) := fun _ _ => rfl
  refine andThen q inferInstance (StopsTo.carriedLoop q fun k n m ih operand => ?_)
  rw [hstep, hstep]
  refine StopsTo.ofState q (fun s hovert => ?_) fun s => ?_
  · simp only [Sequel.grow, Settled.nextPrecedence q hovert]
  · exact StopsTo.orElse q (StopsTo.whileTaking q inferInstance ih) inferInstance

instance rangeAfter (start : Tokens) (allowStruct : Bool) : Stops q (rangeAfter rules start allowStruct) := by
  unfold Grammar.rangeAfter
  infer_instance

instance castType : Stops q (castType rules) := by
  unfold Grammar.castType groupType
  infer_instance

omit hrules in
/-- A cast is returned if nothing follows it that may not. -/
theorem castEnd (found : Expr) : Stops q (get >>= fun s : Stream => match afterCast s.tokens with
    | some what => Parser.violated ("casts cannot be followed by " ++ what)
    | none => Pure.pure (some found)) := by
  have hok : ∀ s a t, (get >>= fun s : Stream => match afterCast s.tokens with
      | some what => (Parser.violated ("casts cannot be followed by " ++ what) : Parser (Option Expr))
      | none => Pure.pure (some found)) s = .ok (a, t) ↔ afterCast s.tokens = none ∧ a = some found ∧ t = s := by
    intro s a t
    have hrun : ∀ f : Stream → Parser (Option Expr), (get >>= f) s = f s s := fun f => rfl
    rw [hrun]
    cases afterCast s.tokens with
    | some what => simp [Parser.violated, Parser.fail]
    | none => exact pure_eq_ok.trans (by simp [eq_comm])
  refine of_same q (fun s a t h => ((hok s a t).mp h).2.2) fun s a hovert h => (hok _ _ _).mpr ?_
  obtain ⟨hafter, hfound, -⟩ := (hok s a s).mp h
  exact ⟨Settled.afterCast q hovert hafter, hfound, rfl⟩

instance operatorAfter (left : Expr) (allowStruct : Bool) (base : Precedence) :
    Stops q (operatorAfter rules left allowStruct base) := by
  have hcast := castEnd q
  unfold Grammar.operatorAfter
  refine orElse q inferInstance (ofState q (fun s hovert => ?_) fun s => ?_)
  · simp only [Sequel.grow, Settled.binaryOperator? q hovert]
  · rcases binaryOperator? s.tokens with _ | ⟨text, precedence⟩ <;> infer_instance

end Rules

end Stops

/-- The parser takes a token if it returns something. -/
class TakesSome {α : Type} (p : Parser (Option α)) : Prop where
  /-- It leaves fewer tokens. -/
  lt : ∀ s a t, overtAll s.tokens = true → p s = .ok (some a, t) → t.tokens.length < s.tokens.length

namespace TakesSome

variable {α : Type}

instance (priority := low) ofTakes (p : Parser (Option α)) [h : Takes p] : TakesSome p :=
  ⟨fun s a => h.lt s (some a)⟩

instance nothing : TakesSome (pure none : Parser (Option α)) := ⟨fun _ _ _ _ ha => nomatch ha⟩

instance violated (rule : String) : TakesSome (Parser.violated rule : Parser (Option α)) :=
  ⟨fun _ _ _ _ ha => nomatch ha⟩

instance afterLook (test : Tokens → Bool) (f : Bool → Parser (Option α)) [hf : ∀ b, TakesSome (f b)] :
    TakesSome (look test >>= f) := ⟨fun s => (hf (test s.tokens)).lt s⟩

theorem ofState {f : Stream → Parser (Option α)} (hf : ∀ s, TakesSome (f s)) : TakesSome (get >>= f) :=
  ⟨fun s => (hf s).lt s⟩

theorem orElse {c : Prop} [Decidable c] {p p' : Parser (Option α)} (hp : TakesSome p) (hp' : TakesSome p') :
    TakesSome (if c then p else p') := by
  by_cases hc : c
  · simpa only [if_pos hc] using hp
  · simpa only [if_neg hc] using hp'

theorem operatorAfter (rules : Rules) [hrules : Rules.Stop q rules] (left : Expr) (allowStruct : Bool)
    (base : Precedence) : TakesSome (operatorAfter rules left allowStruct base) := by
  have hlimits : ∀ allowOld, Takes (rangeLimits allowOld) := fun allowOld => by
    unfold rangeLimits
    infer_instance
  have hrange : Takes (some <$> rangeAfter rules left.tokens allowStruct) := by
    have : Takes (rangeAfter rules left.tokens allowStruct) := by
      unfold rangeAfter
      exact .before q inferInstance inferInstance inferInstance
    exact Takes.wrap (rangeAfter rules left.tokens allowStruct) some
  have hcast := Stops.castEnd q
  unfold Grammar.operatorAfter
  refine orElse inferInstance (ofState fun s => ?_)
  split
  · rename_i text precedence hfound
    have hsign : Sign text := sign_of_mem _ (List.mem_of_find?_eq_some hfound)
    refine orElse inferInstance (orElse inferInstance (@ofTakes _ _ ?_))
    exact .before q inferInstance inferInstance inferInstance
  · refine @afterLook _ _ _ fun _ => orElse (@ofTakes _ _ ?_) (@afterLook _ _ _ fun _ => orElse inferInstance ?_)
    · exact .before q inferInstance inferInstance inferInstance
    · refine @afterLook _ _ _ fun _ => orElse (@ofTakes _ _ ?_) inferInstance
      exact .before q inferInstance inferInstance inferInstance

end TakesSome

/-- A number with points in it, if one comes next. -/
def fraction? : Parser (Option (String × Pos)) := fun s =>
  match lit? s.tokens with
  | some (⟨text, some (.fraction _), pos, _⟩, rest) => .ok (some (text, pos), { s with tokens := rest })
  | _ => .ok (none, s)

/-- What comes after a point: a number with points in it, or something without one. -/
def memberTail (rules : Rules) (dot : Tokens) : Parser Tokens := do
  match ← fraction? with
  | some (text, pos) =>
    let cs := text.toList
    if cs.getLast? = some '.' then
      let indices ← indexTokens pos (splitPoints cs.dropLast)
      return dot ++ indices ++ operator pos ['.'] ++ (← memberAfter.plain rules)
    else return dot ++ (← indexTokens pos (splitPoints cs))
  | none => return dot ++ (← memberAfter.plain rules)

theorem memberAfter_eq (rules : Rules) : memberAfter rules = op "." >>= memberTail rules := by
  unfold memberAfter
  congr
  funext dot s
  have hrun : ∀ f : Stream → Parser Tokens, (get >>= f) s = f s s := fun f => rfl
  rw [hrun, memberTail, bind_run, fraction?]
  rcases lit? s.tokens with _ | ⟨⟨text, _ | _ | _ | _ | _ | _, pos, tokens⟩, rest⟩ <;> rfl

namespace Stops

section Rules

variable (rules : Rules) [hrules : Rules.Stop q rules]

instance climb (left : Expr) (allowStruct : Bool) (base : Precedence) :
    Stops q (climb rules left allowStruct base) := by
  refine StopsTo.carriedLoop q (fun k n m ih left => ?_) left
  simp only [climb.go]
  refine StopsTo.chain q (j := fun found => if found.isSome then k else k + 1)
    ((operatorAfter q rules left allowStruct base).below (k + 1)) (fun s found t hovert hfound hk => ?_) fun found => ?_
  · cases found with
    | none =>
      have hle := ((operatorAfter q rules left allowStruct base).suffix hovert hfound).length_le
      exact Nat.lt_of_le_of_lt hle hk
    | some wider =>
      have hlt := (TakesSome.operatorAfter q rules left allowStruct base).lt s wider t hovert hfound
      exact Nat.lt_of_lt_of_le hlt (Nat.le_of_lt_succ hk)
  · cases found with
    | none => exact inferInstanceAs (StopsTo q (k + 1) (Pure.pure left) (Pure.pure left))
    | some wider => exact ih wider

instance expr (allowStruct : Bool) : Stops q (expr rules allowStruct) := inferInstanceAs (Stops q (_ >>= _))

/-! ## Operands -/

omit hrules in
instance exprAttributes : Stops q (exprAttributes rules) := by
  unfold Grammar.exprAttributes
  infer_instance

omit hrules in
instance callTokens : Stops q (callTokens rules) := inferInstanceAs (Stops q (Parser.enclosed _ _))

omit hrules hq in
instance indexTokens (pos : Pos) (parts : List (List Char)) : Stops q (indexTokens pos parts) := by
  have hpart : ∀ part, Stops q (indexTokens.indexToken pos part) := by
    intro part
    unfold indexTokens.indexToken
    cases Grammar.tupleIndex ⟨[.literal (String.ofList part) pos], pos, .invisible, none⟩ with
    | error error => exact of_error q fun _ => ⟨_, rfl⟩
    | ok found => exact pure q found.1
  induction parts with
  | nil => exact pure q []
  | cons part rest ih =>
    cases rest with
    | nil => exact hpart part
    | cons next rest =>
      unfold Grammar.indexTokens
      infer_instance

instance plainMember : Stops q (memberAfter.plain rules) := by
  unfold memberAfter.plain
  infer_instance

omit hrules in
instance fractionIf : Stops q fraction? := by
  refine .intro (fun s a t hovert h => ?_) fun s a t hovert h => ?_ <;> unfold fraction? at h
  · split at h <;> cases h
    · exact lit?_suffix hovert ‹_›
    · exact List.suffix_refl _
  · have hlit : lit? (q.grow s).tokens = _ := Settled.lit? q hovert
    unfold fraction?
    rw [hlit]
    rcases hfound : lit? s.tokens with _ | ⟨⟨text, _ | _ | _ | _ | _ | _, pos, tokens⟩, rest⟩ <;>
      rw [hfound] at h <;> cases h <;> rfl

instance memberTail (dot : Tokens) : Stops q (memberTail rules dot) := by
  unfold Grammar.memberTail
  refine andThen q inferInstance fun found => ?_
  rcases found with _ | ⟨text, pos⟩ <;> infer_instance

instance memberAfter : Stops q (memberAfter rules) := by
  rw [memberAfter_eq]
  infer_instance

instance trailers (first : Expr) : Stops q (trailers rules first) := by
  have htakes : Takes (Grammar.memberAfter rules) := by
    rw [memberAfter_eq]
    exact .before q inferInstance inferInstance inferInstance
  have hcall : Takes (Grammar.callTokens rules) := inferInstanceAs (Takes (_ >>= _))
  have hindex : ∀ p, Takes (Parser.enclosed .bracket p) := fun p => inferInstanceAs (Takes (_ >>= _))
  refine StopsTo.carriedLoop q (fun k n m ih operand => ?_) first
  simp only [trailers.go]
  infer_instance

omit hrules in
instance pathValue? (found : QPath) (allowStruct : Bool) : Stops q (pathValue? rules found allowStruct) := by
  unfold Grammar.pathValue?
  infer_instance

omit hrules in
instance afterPath (found : QPath) (allowStruct : Bool) : Stops q (afterPath rules found allowStruct) :=
  inferInstanceAs (Stops q (_ >>= _))

instance closureParam : Stops q (closureParam rules) := by
  unfold Grammar.closureParam
  infer_instance

instance closure (allowStruct : Bool) : Stops q (closure rules allowStruct) := by
  unfold Grammar.closure
  dsimp only
  infer_instance

instance exprOpt : Stops q (exprOpt rules) := inferInstanceAs (Stops q (Parser.optionally _ _))

/-- The place after the keyword is only used where the loop is refused. -/
instance breakExpr (allowStruct : Bool) : Stops q (breakExpr rules allowStruct) := by
  unfold Grammar.breakExpr
  refine andThen q inferInstance fun keyword => here_unused q (fun pos => inferInstance) fun pos pos' s b t h => ?_
  rw [bind_run, look_run, ok_bind] at h ⊢
  split at h
  · obtain ⟨_, m, -, hfail⟩ := bind_eq_ok.mp h
    contradiction
  · rename_i hlabel
    rw [if_neg hlabel]
    exact h

/-! ## Constructs with blocks -/

instance condition : Stops q (condition rules) := inferInstanceAs (Stops q (_ <$> _))

instance ifExpr : Stops q (ifExpr rules) := by
  have htakes : Takes (seq [word "if", Grammar.condition rules, rules.block]) :=
    .before q inferInstance inferInstance inferInstance
  refine StopsTo.loop q fun k n m ih => ?_
  simp only [ifExpr.go, Parser.choose, List.map_cons, List.map_nil]
  infer_instance

instance letExpr (allowStruct : Bool) : Stops q (letExpr rules allowStruct) := by
  unfold Grammar.letExpr
  infer_instance

instance matchExpr : Stops q (matchExpr rules) := by
  unfold Grammar.matchExpr
  infer_instance

instance whileExpr : Stops q (whileExpr rules) := inferInstanceAs (Stops q (seq _))

instance forExpr : Stops q (forExpr rules) := inferInstanceAs (Stops q (seq _))

omit hrules in
instance loopExpr : Stops q (loopExpr rules) := inferInstanceAs (Stops q (seq _))

instance labelled : Stops q (labelled rules) := by
  unfold Grammar.labelled
  dsimp only
  infer_instance

omit hrules in
instance builtin : Stops q builtin := by
  have hparts : Stops q (word "builtin" >>= fun _ => Parser.op "#" >>= fun _ => ident >>= fun _ =>
      within .paren (modify fun s => { s with tokens := [] })) := inferInstance
  unfold Grammar.builtin
  simpa only [bind_assoc] using since q hparts

instance groupExpr (allowStruct : Bool) : Stops q (groupExpr rules allowStruct) := by
  unfold Grammar.groupExpr
  infer_instance

end Rules

end Stops

/-- Parsers with their tests, each of which does the same before a comma. -/
class StopsEach (entries : List ((Tokens → Bool) × Parser Expr)) : Prop where
  /-- So does each test and each parser. -/
  each : ∀ entry ∈ entries, Settled q entry.1 ∧ Stops q entry.2

namespace StopsEach

omit hq in
instance nil : StopsEach q [] := ⟨nofun⟩

omit hq in
instance cons (test : Tokens → Bool) (p : Parser Expr) (entries : List ((Tokens → Bool) × Parser Expr))
    [ht : Settled q test] [hp : Stops q p] [h : StopsEach q entries] : StopsEach q ((test, p) :: entries) :=
  ⟨List.forall_mem_cons.mpr ⟨⟨ht, hp⟩, h.each⟩⟩

omit hq in
theorem find? {entries : List ((Tokens → Bool) × Parser Expr)} (h : StopsEach q entries)
    (hovert : overtAll tokens = true) :
    (entries.find? fun entry => entry.1 (q.linked tokens ++ q.rest)) = entries.find? fun entry => entry.1 tokens := by
  obtain ⟨each⟩ := h
  induction entries with
  | nil => rfl
  | cons entry rest ih =>
    obtain ⟨hentry, hrest⟩ := List.forall_mem_cons.mp each
    rw [List.find?_cons, List.find?_cons, hentry.1.same tokens hovert, ih hrest]

end StopsEach

namespace Stops

section Rules

variable (rules : Rules) [hrules : Rules.Stop q rules]

instance atom (allowStruct : Bool) : Stops q (atom rules allowStruct) := by
  have entries : StopsEach q (atoms rules allowStruct) := by
    unfold atoms
    infer_instance
  unfold Grammar.atom
  refine ofState q (fun s hovert => ?_) fun s => ?_
  · simp only [Sequel.grow, entries.find? q hovert]
  · dsimp only
    split
    · exact (entries.each _ (List.mem_of_find?_eq_some ‹_›)).2
    · infer_instance

instance addressOf (allowStruct : Bool) : Stops q (addressOf rules allowStruct) := by
  unfold Grammar.addressOf
  dsimp only
  infer_instance

instance unary (allowStruct : Bool) : Stops q (unary rules allowStruct) := by
  unfold Grammar.unary
  refine andThen q inferInstance fun attrs => andThen q inferInstance fun _ => orElse q inferInstance ?_
  refine andThen q inferInstance fun _ => orElse q inferInstance ?_
  refine andThen q inferInstance fun _ => orElse q (ofState q (fun s hovert => ?_) inferInstance) inferInstance
  simp only [Sequel.grow, List.find?_cons, List.find?_nil, (Settled.op q _).same s.tokens hovert]

end Rules

end Stops

/-- Types and bounds do the same before a comma, because nothing is joined to it. -/
theorem Stops.level (depth : Nat) :
    (∀ b, Stops q ((Rules.level depth).type b)) ∧ ∀ b c, Stops q ((Rules.level depth).bound b c) := by
  obtain ⟨hextends, hextends'⟩ := Extends.level q depth
  obtain ⟨⟨hcloses, hcloses'⟩, hneeds, hneeds'⟩ := Closes.level q depth
  exact ⟨fun b => of_closes q inferInstance (.mono q (hcloses b) fun _ _ h => h.same hq.apart) inferInstance,
    fun b c => of_closes q inferInstance (.mono q (hcloses' b c) fun _ _ h => h.same hq.apart) inferInstance⟩

/-- The rules of a level, as far as the other rules do the same before a comma. -/
theorem Rules.Stop.ofLevel {depth : Nat} (hexpr : ∀ b, Stops q ((Rules.level depth).expr b))
    (hunary : ∀ b, Stops q ((Rules.level depth).unary b))
    (hclimb : ∀ left b base, Stops q ((Rules.level depth).climb left b base))
    (hpattern : Stops q (Rules.level depth).pattern) : Rules.Stop q (Rules.level depth) := by
  obtain ⟨htype, hbound⟩ := Stops.level q depth
  obtain ⟨hextends, hextends'⟩ := Extends.level q depth
  obtain ⟨hshrinks, hshrinks'⟩ := Shrinks.level depth
  exact ⟨htype, hbound, hexpr, hunary, hclimb, hpattern, hextends, hextends', hshrinks, hshrinks'⟩

/-- The rules do the same before a comma at every level of nesting. -/
theorem Rules.Stop.level (depth : Nat) : Rules.Stop q (Rules.level depth) := by
  induction depth with
  | zero =>
    have hfail : ∀ {α : Type}, Stops q (failHere .tooDeep : Parser α) := Stops.failHere q .tooDeep
    exact ofLevel q (fun _ => hfail) (fun _ => hfail) (fun _ _ _ => hfail) hfail
  | succ depth ih =>
    exact ofLevel q (Stops.expr q (Rules.level depth)) (Stops.unary q (Rules.level depth))
      (Stops.climb q (Rules.level depth)) (Stops.pattern q (Rules.level depth))

end Fieldwise.Grammar
