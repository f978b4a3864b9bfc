import Fieldwise.Proofs.SimulationTypes

/-!
# Patterns, expressions and statements see no places

The rules for patterns, expressions and statements do at other places what they do here, as far as the rules that
they come back to do.
-/

namespace Fieldwise.Grammar

open Fieldwise.Grammar.Parser Fieldwise.Token

set_option synthInstance.maxSize 8192
set_option synthInstance.maxHeartbeats 100000

variable (w : Shift)

/-! ## Trees and tests -/

instance : HasPlaces Precedence := ⟨fun _ precedence => precedence⟩
instance : PlaceFree Precedence := ⟨fun _ _ => rfl⟩

namespace Moved

section Trees

variable (tokens tokens' : Tokens) (found found' : Pattern) (pos pos' : Pos)
  [hk : Moved w tokens tokens'] [hf : Moved w found found'] [hp : Moved w pos pos']

instance pattern (kind kind' : PatternKind) [h : Moved w kind kind'] :
    Moved w (Pattern.mk kind tokens) ⟨kind', tokens'⟩ := ⟨by rw [h.eq, hk.eq]; rfl⟩

instance restKind : Moved w PatternKind.rest .rest := ⟨rfl⟩

instance otherKind : Moved w PatternKind.other .other := ⟨rfl⟩

instance openRange : Moved w (PatternKind.openRange pos) (.openRange pos') := ⟨by rw [hp.eq]; rfl⟩

instance rangePos (tokens tokens' : Tokens) [h : Moved w tokens tokens'] :
    Moved w (unary.rangePos tokens) (unary.rangePos tokens') := by
  refine ⟨?_⟩
  rw [h.eq]
  cases tokens with
  | nil => exact w.callSite.symm
  | cons token rest => exact pos_retouch _ token

instance endsArm (body body' : Expr) [h : Moved w body body'] : Moved w body.endsArm body'.endsArm :=
  ⟨by rw [h.eq]; rfl⟩

instance patternTokens : Moved w found.tokens found'.tokens := ⟨by rw [hf.eq]; rfl⟩

instance modPathTokens (path path' : ModPath) [h : Moved w path path'] :
    Moved w path.tokens path'.tokens := ⟨by rw [h.eq, ModPath.tokens_retouch]⟩

end Trees

end Moved

namespace Blind

instance endsBound : Blind w rangeBound.endsBound := inferInstanceAs (Blind w (Look.any _))

instance continuesPath : Blind w continuesPath := inferInstanceAs (Blind w (Look.second _))

instance startsAssign : Blind w startsAssign := by
  unfold Grammar.startsAssign
  infer_instance

instance startsExpr : Blind w startsExpr := inferInstanceAs (Blind w (Look.any _))

instance startsPath : Blind w startsPath := by
  unfold Grammar.startsPath
  infer_instance

instance startsItem : Blind w startsItem := by
  unfold Grammar.startsItem
  infer_instance

end Blind

@[simp] theorem binaryOperator?_retouch (tokens : Tokens) :
    binaryOperator? (retouch w.toRetouch tokens) = binaryOperator? tokens := by
  simp only [binaryOperator?, (Blind.op w _).same]

@[simp] theorem nextPrecedence_retouch (tokens : Tokens) :
    nextPrecedence (retouch w.toRetouch tokens) = nextPrecedence tokens := by
  simp only [nextPrecedence, binaryOperator?_retouch, (Blind.startsAssign w).same,
    (Blind.op w _).same, (Blind.word w _).same]

@[simp] theorem afterCast_retouch (tokens : Tokens) :
    afterCast (retouch w.toRetouch tokens) = afterCast tokens := by
  simp only [afterCast, (Blind.op w _).same, (Blind.second w _).same, (Blind.third w _).same,
    (Blind.group w _).same]

namespace Follows

variable {loose : Prop} (rules other : Rules) [Rules.Follow w loose rules other]

instance block : Follows w loose rules.block other.block := by
  unfold Rules.block
  infer_instance

instance exprTokens : Follows w loose rules.exprTokens other.exprTokens := by
  unfold Rules.exprTokens
  infer_instance

instance typeTokens : Follows w loose rules.typeTokens other.typeTokens := by
  unfold Rules.typeTokens
  infer_instance

/-! ## Patterns -/

instance alternatives : Follows w loose (alternatives rules) (alternatives other) := by
  unfold Grammar.alternatives startsAlternative
  infer_instance

instance alternativesTokens :
    Follows w loose (alternativesTokens rules) (alternativesTokens other) := by
  unfold Grammar.alternativesTokens
  infer_instance

instance constBlock : Follows w loose (constBlock rules) (constBlock other) := by
  unfold Grammar.constBlock
  infer_instance

instance rangeBound : Follows w loose (rangeBound rules) (rangeBound other) := by
  unfold Grammar.rangeBound
  dsimp only
  infer_instance

instance rangeLimits (allowOld : Bool) :
    Follows w loose (rangeLimits allowOld) (rangeLimits allowOld) := by
  unfold Grammar.rangeLimits
  infer_instance

instance rangeFrom (start start' : Tokens) [Moved w start start'] :
    Follows w loose (rangeFrom rules start) (rangeFrom other start') := by
  unfold Grammar.rangeFrom
  infer_instance

instance tupleIndex : Follows w loose tupleIndex tupleIndex :=
  of_eq w fun s => by
    simp only [Grammar.tupleIndex, stream_tokens_retouch, lit?_retouch]
    rcases lit? s.tokens with _ | ⟨⟨text, kind, pos, tokens⟩, rest⟩
    · exact fail_retouch w _ s
    · rcases kind with _ | _ | _ | suffix | _ | _
      case some.whole =>
        simp only [retouch_some, retouch_pair, retouch_lit]
        split
        · rfl
        split
        · rfl
        split <;> rfl
      all_goals exact fail_retouch w _ s

instance member : Follows w loose member member := by
  unfold Grammar.member
  infer_instance

instance fieldPattern : Follows w loose (fieldPattern rules) (fieldPattern other) := by
  unfold Grammar.fieldPattern
  dsimp only
  infer_instance

instance fieldPatterns : Follows w loose (fieldPatterns rules) (fieldPatterns other) := by
  have go : ∀ n, Follows w loose (fieldPatterns.go rules n) (fieldPatterns.go other n) := by
    intro n
    induction n with
    | zero => exact pure w _ _
    | succ n ih =>
      unfold fieldPatterns.go
      infer_instance
  unfold Grammar.fieldPatterns
  infer_instance

instance slicePattern : Follows w loose (slicePattern rules) (slicePattern other) := by
  refine @commaList w _ _ _ (andThen w inferInstance fun ⟨kind, tokens⟩ => ?_)
  cases kind with
  | openRange pos => exact inferInstanceAs (Follows w loose (Parser.failAt pos _) (Parser.failAt (retouch _ pos) _))
  | rest | other => exact inferInstanceAs (Follows w loose (Pure.pure tokens) (Pure.pure (retouch _ tokens)))

instance pattern : Follows w loose (pattern rules) (pattern other) := by
  unfold Grammar.pattern plainPattern rangeOpen literalPattern pathPattern bindingPattern
  dsimp only
  infer_instance

/-! ## Operators -/

instance rightOperand (allowStruct : Bool) (precedence : Precedence) :
    Follows w loose (rightOperand rules allowStruct precedence)
      (rightOperand other allowStruct precedence) := by
  have go : ∀ n operand operand', [Moved w operand operand'] →
      Follows w loose (rightOperand.go rules allowStruct precedence operand n)
        (rightOperand.go other allowStruct precedence operand' n) := by
    intro n
    induction n with
    | zero => exact fun operand operand' h => pure w _ _
    | succ n ih =>
      intro operand operand' h
      unfold rightOperand.go
      refine andThen w (get w) fun s => ?_
      simp only [stream_tokens_retouch, nextPrecedence_retouch]
      infer_instance
  unfold Grammar.rightOperand
  infer_instance

instance rangeAfter (start start' : Tokens) (allowStruct : Bool) [Moved w start start'] :
    Follows w loose (rangeAfter rules start allowStruct) (rangeAfter other start' allowStruct) := by
  unfold Grammar.rangeAfter endsRange
  infer_instance

instance operatorAfter (left left' : Expr) (allowStruct : Bool) (base : Precedence)
    [h : Moved w left left'] :
    Follows w loose (operatorAfter rules left allowStruct base)
      (operatorAfter other left' allowStruct base) := by
  unfold Grammar.operatorAfter
  refine orElse w inferInstance inferInstance (andThen w (get w) fun s => ?_)
  simp only [stream_tokens_retouch, binaryOperator?_retouch]
  rcases binaryOperator? s.tokens with _ | ⟨text, precedence⟩
  · refine andThen w (look w _) fun _ => orElse w inferInstance inferInstance ?_
    refine andThen w (look w _) fun _ => orElse w inferInstance inferInstance ?_
    refine andThen w (look w _) fun _ => orElse w inferInstance ?_ inferInstance
    refine andThen w (word w _) fun keyword => andThen w inferInstance fun type => ?_
    refine andThen w (get w) fun s => ?_
    simp only [stream_tokens_retouch, afterCast_retouch]
    cases afterCast s.tokens <;> dsimp only <;> infer_instance
  · infer_instance

instance climb (left left' : Expr) (allowStruct : Bool) (base : Precedence) [h : Moved w left left'] :
    Follows w loose (climb rules left allowStruct base) (climb other left' allowStruct base) := by
  have go : ∀ n left left', [Moved w left left'] →
      Follows w loose (climb.go rules allowStruct base left n)
        (climb.go other allowStruct base left' n) := by
    intro n
    induction n with
    | zero => exact fun left left' h => pure w _ _
    | succ n ih =>
      intro left left' h
      unfold climb.go
      refine andThen w inferInstance fun found => ?_
      cases found <;> simp only [retouch_none, retouch_some] <;> infer_instance
  unfold Grammar.climb
  infer_instance

instance expr (allowStruct : Bool) :
    Follows w loose (expr rules allowStruct) (expr other allowStruct) := by
  unfold Grammar.expr
  infer_instance

/-! ## Operands -/

instance exprAttributes : Follows w loose (exprAttributes rules) (exprAttributes other) := by
  unfold Grammar.exprAttributes
  infer_instance

instance callTokens : Follows w loose (callTokens rules) (callTokens other) := by
  unfold Grammar.callTokens
  infer_instance

instance indexToken (pos pos' : Pos) (part : List Char) [h : Moved w pos pos'] :
    Follows w loose (indexTokens.indexToken pos part) (indexTokens.indexToken pos' part) :=
  of_eq w fun s => by
    have hindex : Follows w False Grammar.tupleIndex Grammar.tupleIndex := tupleIndex w
    have hstream : Stream.mk [.literal (String.ofList part) pos'] pos' .invisible none =
        retouch w.toRetouch ⟨[.literal (String.ofList part) pos], pos, .invisible, none⟩ := by
      rw [h.eq]
      rfl
    have hrun := hindex.run ⟨[.literal (String.ofList part) pos], pos, .invisible, none⟩
    simp only [false_and, or_false] at hrun
    unfold indexTokens.indexToken
    rw [hstream, hrun, h.eq]
    generalize Grammar.tupleIndex _ = result
    rcases result with error | ⟨tokens, rest⟩ <;> rfl

instance indexTokens (pos pos' : Pos) (parts : List (List Char)) [h : Moved w pos pos'] :
    Follows w loose (indexTokens pos parts) (indexTokens pos' parts) := by
  induction parts with
  | nil => exact pure w _ _
  | cons part rest ih =>
    cases rest with
    | nil => exact indexToken w _ _ _
    | cons next rest =>
      unfold Grammar.indexTokens
      infer_instance

instance plainMember : Follows w loose (memberAfter.plain rules) (memberAfter.plain other) := by
  unfold memberAfter.plain
  infer_instance

instance memberAfter : Follows w loose (memberAfter rules) (memberAfter other) := by
  unfold Grammar.memberAfter
  refine andThen w (op w _) fun dot => andThen w (get w) fun s => ?_
  have named : Follows w loose (do return dot ++ (← memberAfter.plain rules))
      (do return retouch w.toRetouch dot ++ (← memberAfter.plain other)) := inferInstance
  simp only [stream_tokens_retouch, lit?_retouch]
  rcases lit? s.tokens with _ | ⟨⟨text, kind, pos, tokens⟩, rest⟩
  · exact named
  · rcases kind with _ | _ | _ | _ | suffix | _
    case some.fraction =>
      simp only [retouch_some, retouch_pair, retouch_lit]
      refine andThen w (modified w fun _ => rfl) fun _ => ?_
      have hpos : Moved w pos (w.place pos) := ⟨rfl⟩
      infer_instance
    all_goals exact named

instance trailers (first first' : Expr) [Moved w first first'] :
    Follows w loose (trailers rules first) (trailers other first') := by
  have go : ∀ n operand operand', [Moved w operand operand'] →
      Follows w loose (trailers.go rules operand n) (trailers.go other operand' n) := by
    intro n
    induction n with
    | zero => exact fun operand operand' h => pure w _ _
    | succ n ih =>
      intro operand operand' h
      unfold trailers.go
      dsimp only
      infer_instance
  unfold Grammar.trailers
  infer_instance

instance fieldValue : Follows w loose (fieldValue rules) (fieldValue other) := by
  unfold Grammar.fieldValue
  infer_instance

instance structFields : Follows w loose (structFields rules) (structFields other) := by
  have go : ∀ n, Follows w loose (structFields.go rules n) (structFields.go other n) := by
    intro n
    induction n with
    | zero => exact pure w _ _
    | succ n ih =>
      unfold structFields.go
      infer_instance
  unfold Grammar.structFields
  infer_instance

instance pathValue? (found found' : QPath) (allowStruct : Bool) [h : Moved w found found'] :
    Follows w loose (pathValue? rules found allowStruct) (pathValue? other found' allowStruct) := by
  unfold Grammar.pathValue?
  infer_instance

instance afterPath (found found' : QPath) (allowStruct : Bool) [h : Moved w found found'] :
    Follows w loose (afterPath rules found allowStruct) (afterPath other found' allowStruct) := by
  unfold Grammar.afterPath
  infer_instance

instance furtherElements : Follows w loose (furtherElements rules) (furtherElements other) := by
  have go : ∀ n, Follows w loose (furtherElements.go rules n) (furtherElements.go other n) := by
    intro n
    induction n with
    | zero => exact pure w _ _
    | succ n ih =>
      unfold furtherElements.go
      infer_instance
  unfold Grammar.furtherElements
  infer_instance

/-! ## Constructs with blocks -/

instance condition : Follows w loose (condition rules) (condition other) := by
  unfold Grammar.condition
  infer_instance

instance ifExpr : Follows w loose (ifExpr rules) (ifExpr other) := by
  have go : ∀ n, Follows w loose (ifExpr.go rules n) (ifExpr.go other n) := by
    intro n
    induction n with
    | zero => exact pure w _ _
    | succ n ih =>
      unfold ifExpr.go
      infer_instance
  unfold Grammar.ifExpr
  infer_instance

instance matchExpr : Follows w loose (matchExpr rules) (matchExpr other) := by
  unfold Grammar.matchExpr arm
  dsimp only
  infer_instance

instance whileExpr : Follows w loose (whileExpr rules) (whileExpr other) := by
  unfold Grammar.whileExpr
  infer_instance

instance forExpr : Follows w loose (forExpr rules) (forExpr other) := by
  unfold Grammar.forExpr
  infer_instance

instance loopExpr : Follows w loose (loopExpr rules) (loopExpr other) := by
  unfold Grammar.loopExpr
  infer_instance

instance builtin : Follows w loose builtin builtin := by
  unfold Grammar.builtin
  have drop : Follows w loose (modify fun s => { s with tokens := [] } : Parser Unit)
      (modify fun s => { s with tokens := [] }) := modified w fun _ => rfl
  infer_instance

instance wholePath? : Follows w loose (wholePath? rules) (wholePath? other) := by
  unfold Grammar.wholePath?
  refine whether w inferInstance (andThen w inferInstance fun found => ?_) inferInstance
  rcases found with _ | ⟨found, after⟩ <;> simp only [retouch_none, retouch_some, retouch_pair] <;>
    infer_instance

instance groupExpr (allowStruct : Bool) :
    Follows w loose (groupExpr rules allowStruct) (groupExpr other allowStruct) := by
  unfold Grammar.groupExpr
  refine andThen w (@invisible _ _ w _ _ _ (andThen w inferInstance fun found => ?_))
    fun ⟨⟨found, inner⟩, opening, closing⟩ => ?_
  · cases found <;> simp only [retouch_none, retouch_some] <;> infer_instance
  · cases found <;> simp only [retouch_pair, retouch_none, retouch_some] <;> infer_instance

end Follows

/-- Parsers with their tests that follow each other one by one. -/
class Entries (loose : Prop) (ps qs : List ((Tokens → Bool) × Parser Expr)) : Prop where
  /-- They follow each other. -/
  each : List.Forall₂ (fun p q => q.1 = p.1 ∧ Blind w p.1 ∧ Follows w loose p.2 q.2) ps qs

namespace Entries

variable {loose : Prop}

instance nil : Entries w loose [] [] := ⟨.nil⟩

instance cons (test : Tokens → Bool) (p q : Parser Expr) (ps qs : List ((Tokens → Bool) × Parser Expr))
    [ht : Blind w test] [hp : Follows w loose p q] [hs : Entries w loose ps qs] :
    Entries w loose ((test, p) :: ps) ((test, q) :: qs) := ⟨.cons ⟨rfl, ht, hp⟩ hs.each⟩

theorem first {ps qs : List ((Tokens → Bool) × Parser Expr)} (hs : Entries w loose ps qs)
    {p q : Parser Expr} (hp : Follows w loose p q) (tokens : Tokens) :
    Follows w loose
      (match ps.find? fun entry => entry.1 tokens with
        | some (_, parser) => parser
        | none => p)
      (match qs.find? fun entry => entry.1 (retouch w.toRetouch tokens) with
        | some (_, parser) => parser
        | none => q) := by
  obtain ⟨each⟩ := hs
  induction each with
  | nil => exact hp
  | @cons entry other ps qs hfirst _ ih =>
    obtain ⟨htest, hblind, hfollows⟩ := hfirst
    simp only [List.find?_cons, htest, hblind.same]
    cases entry.1 tokens with
    | true => exact hfollows
    | false => exact ih

end Entries

namespace Follows

variable {loose : Prop} (rules other : Rules) [Rules.Follow w loose rules other]

instance atom (allowStruct : Bool) :
    Follows w loose (atom rules allowStruct) (atom other allowStruct) := by
  have entries : Entries w loose (atoms rules allowStruct) (atoms other allowStruct) := by
    unfold atoms plainExpr blockExpr parenTokens bracketTokens closure closureParam startsClosure exprOpt
      breakExpr
      letExpr labelled
    dsimp only
    infer_instance
  exact andThen w (get w) fun s => entries.first w inferInstance s.tokens

instance addressOf (allowStruct : Bool) :
    Follows w loose (addressOf rules allowStruct) (addressOf other allowStruct) := by
  unfold Grammar.addressOf
  dsimp only
  infer_instance

instance unary (allowStruct : Bool) :
    Follows w loose (unary rules allowStruct) (unary other allowStruct) := by
  unfold Grammar.unary
  refine andThen w inferInstance fun attrs => whether w inferInstance inferInstance ?_
  refine whether w inferInstance inferInstance (whether w inferInstance ?_ ?_)
  · refine andThen w (get w) fun s => ?_
    simp only [stream_tokens_retouch, (Blind.op w _).same]
    infer_instance
  · infer_instance

instance earlyOperand : Follows w loose (earlyOperand rules) (earlyOperand other) := by
  have entries : Entries w loose (earlyAtoms rules) (earlyAtoms other) := by
    unfold earlyAtoms blockExpr labelled
    dsimp only
    infer_instance
  unfold Grammar.earlyOperand
  exact whether w inferInstance inferInstance
    (andThen w (get w) fun s => entries.first w inferInstance s.tokens)

instance early : Follows w loose (early rules) (early other) := by
  unfold Grammar.early
  infer_instance

end Follows

end Fieldwise.Grammar
