import Fieldwise.Proofs.Shrinking

/-!
# Expressions, patterns and items take from the front

The rest of the grammar leaves the end of what it was given as types do. What stands in braces, brackets and
parentheses has no say, so statements and members of traits and implementations need not be looked at.
-/

namespace Fieldwise.Grammar

open Fieldwise.Grammar.Parser Fieldwise.Token

set_option synthInstance.maxSize 1024

variable {α β : Type}

/-- Rules that all take from the front. Statements stand in braces. -/
class Rules.Shrinking (rules : Rules) : Prop where
  type : ∀ b, Shrinks (rules.type b)
  bound : ∀ b c, Shrinks (rules.bound b c)
  expr : ∀ b, Shrinks (rules.expr b)
  unary : ∀ b, Shrinks (rules.unary b)
  climb : ∀ left b precedence, Shrinks (rules.climb left b precedence)
  early : Shrinks rules.early
  pattern : Shrinks rules.pattern
  item : Shrinks rules.item
  useTree : ∀ b, Shrinks (rules.useTree b)

attribute [instance] Rules.Shrinking.type Rules.Shrinking.bound Rules.Shrinking.expr
  Rules.Shrinking.unary Rules.Shrinking.climb Rules.Shrinking.early Rules.Shrinking.pattern
  Rules.Shrinking.item Rules.Shrinking.useTree

namespace Shrinks

/-! ## Parsers of tokens -/

instance seq_nil : Shrinks (seq []) := pure []

instance seq_cons (p : Parser Tokens) (rest : List (Parser Tokens)) [Shrinks p] [Shrinks (seq rest)] :
    Shrinks (seq (p :: rest)) := inferInstanceAs (Shrinks (_ >>= _))

instance optionally (test : Tokens → Bool) (p : Parser Tokens) [Shrinks p] :
    Shrinks (optionally test p) := inferInstanceAs (Shrinks (_ >>= _))

instance opOpt (text : String) : Shrinks (opOpt text) :=
  inferInstanceAs (Shrinks (Parser.optionally _ _))

instance identTokens : Shrinks identTokens := inferInstanceAs (Shrinks (_ >>= _))

instance lifetimeOpt : Shrinks lifetimeOpt :=
  andThen inferInstance fun found => by cases found <;> exact pure _

theorem find? {entries : List ((Tokens → Bool) × Parser α)} {test : (Tokens → Bool) × Parser α → Bool}
    {entry : (Tokens → Bool) × Parser α} (h : ∀ entry ∈ entries, Shrinks entry.2)
    (hfound : entries.find? test = some entry) : Shrinks entry.2 :=
  h entry (List.mem_of_find?_eq_some hfound)

theorem choose_of {named : List (String × (Tokens → Bool) × Parser α)}
    (h : ∀ entry ∈ named, Shrinks entry.2.2) : Shrinks (Parser.choose named) := by
  unfold Parser.choose
  generalize named.map Prod.fst = names
  induction named with
  | nil => exact choose_nil names
  | cons entry rest ih =>
    obtain ⟨name, test, parser⟩ := entry
    obtain ⟨hfirst, hrest⟩ := List.forall_mem_cons.mp h
    exact andThen inferInstance fun found => orElse hfirst (ih hrest)

/-! ## Visibilities and paths -/

instance restriction (pos : Pos) : Shrinks (restriction pos) := by
  unfold Grammar.restriction
  refine andThen inferInstance fun s => ?_
  split
  · refine orElse ?_ inferInstance
    refine ahead_within (fun found after s b t hafter h => ?_) inferInstance
    dsimp only at h
    split at h
    · exact remains_resume hafter h
    · rw [← (pure_eq_ok.mp h).2]
      exact .refl _
  · infer_instance

instance visibility : Shrinks visibility := by
  have hafter : ∀ pos, Shrinks (do
      match ← Grammar.restriction pos with
      | some found => return found
      | none => return .everywhere pos) :=
    fun pos => andThen inferInstance fun found => by split <;> infer_instance
  unfold Grammar.visibility
  infer_instance

instance modPath : Shrinks modPath := by
  have go : ∀ n, Shrinks (modPath.go n) := by
    intro n
    induction n with
    | zero => exact pure _
    | succ n ih =>
      unfold modPath.go
      infer_instance
  unfold Grammar.Parser.modPath
  infer_instance

section Rules

variable (rules : Rules) [Rules.Shrinking rules]

instance block : Shrinks rules.block := inferInstanceAs (Shrinks (Parser.enclosed _ _))

instance exprTokens : Shrinks rules.exprTokens := inferInstanceAs (Shrinks (_ <$> _))

instance typeTokens : Shrinks rules.typeTokens := inferInstanceAs (Shrinks (_ <$> _))

instance outerTokens : Shrinks (outerTokens rules) := inferInstanceAs (Shrinks (_ >>= _))

instance innerAttributes : Shrinks (innerAttributes rules) := by
  unfold Grammar.innerAttributes innerAttribute attributeBody
  infer_instance

instance innerTokens : Shrinks (innerTokens rules) := inferInstanceAs (Shrinks (_ >>= _))

instance blockWithAttributes : Shrinks (blockWithAttributes rules) :=
  inferInstanceAs (Shrinks (Parser.enclosed _ _))

/-! ## Generic parameters and conditions -/

instance typeParam (attrs : List Attribute) : Shrinks (typeParam rules attrs) := by
  unfold Grammar.typeParam boundsUntil
  dsimp only
  infer_instance

instance constParam (attrs : List Attribute) : Shrinks (constParam rules attrs) := by
  unfold Grammar.constParam
  dsimp only
  infer_instance

instance genericParams : Shrinks (genericParams rules) := by
  unfold Grammar.genericParams genericParam lifetimeParam lifetimeBounds
  infer_instance

instance conditions : Shrinks (conditions rules) := by
  unfold Grammar.conditions predicate boundsUntil lifetimeBounds
  infer_instance

instance namedField (fields : Parser (Separated Field)) : Shrinks (namedField rules fields) := by
  unfold Grammar.namedField
  infer_instance

instance genericsTokens : Shrinks (genericsTokens rules) := inferInstanceAs (Shrinks (_ >>= _))

instance conditionsTokens : Shrinks (conditionsTokens rules) := inferInstanceAs (Shrinks (_ >>= _))

/-! ## Patterns -/

instance alternatives : Shrinks (alternatives rules) := by
  unfold Grammar.alternatives
  infer_instance

instance alternativesTokens : Shrinks (alternativesTokens rules) :=
  inferInstanceAs (Shrinks (_ <$> _))

instance constBlock : Shrinks (constBlock rules) := by
  unfold Grammar.constBlock
  infer_instance

instance rangeBound : Shrinks (rangeBound rules) := by
  unfold Grammar.rangeBound
  dsimp only
  infer_instance

instance rangeLimits (allowOld : Bool) : Shrinks (rangeLimits allowOld) := by
  unfold Grammar.rangeLimits
  infer_instance

instance rangeFrom (start : Tokens) : Shrinks (rangeFrom rules start) := by
  unfold Grammar.rangeFrom
  infer_instance

instance rangeOpen : Shrinks (rangeOpen rules) := by
  unfold Grammar.rangeOpen
  infer_instance

instance literalPattern : Shrinks (literalPattern rules) := by
  unfold Grammar.literalPattern
  infer_instance

instance pathPattern : Shrinks (pathPattern rules) := by
  unfold Grammar.pathPattern
  infer_instance

instance bindingPattern : Shrinks (bindingPattern rules) := by
  unfold Grammar.bindingPattern
  infer_instance

instance pattern : Shrinks (pattern rules) := by
  unfold Grammar.pattern plainPattern
  infer_instance

/-! ## Expressions -/

instance rightOperand (allowStruct : Bool) (precedence : Precedence) :
    Shrinks (rightOperand rules allowStruct precedence) := by
  have go : ∀ n operand, Shrinks (rightOperand.go rules allowStruct precedence operand n) := by
    intro n
    induction n with
    | zero => exact fun _ => pure _
    | succ n ih =>
      intro operand
      unfold rightOperand.go
      infer_instance
  unfold Grammar.rightOperand
  infer_instance

instance rangeAfter (start : Tokens) (allowStruct : Bool) :
    Shrinks (rangeAfter rules start allowStruct) := by
  unfold Grammar.rangeAfter
  infer_instance

instance castType : Shrinks (castType rules) := by
  unfold Grammar.castType
  infer_instance

instance operatorAfter (left : Expr) (allowStruct : Bool) (base : Precedence) :
    Shrinks (operatorAfter rules left allowStruct base) := by
  unfold Grammar.operatorAfter
  refine orElse inferInstance (andThen inferInstance fun s => ?_)
  split
  · infer_instance
  · have hcast : ∀ keyword : Tokens, Shrinks (do
        let type ← Grammar.castType rules
        match afterCast (← MonadState.get).tokens with
        | some what => Parser.violated ("casts cannot be followed by " ++ what)
        | none => Pure.pure (some ⟨.other, left.tokens ++ keyword ++ type.tokens⟩) :
          Parser (Option Expr)) :=
      fun keyword => andThen inferInstance fun type => andThen inferInstance fun s => by
        split <;> infer_instance
    infer_instance

instance climb (left : Expr) (allowStruct : Bool) (base : Precedence) :
    Shrinks (climb rules left allowStruct base) := by
  have go : ∀ n left, Shrinks (climb.go rules allowStruct base left n) := by
    intro n
    induction n with
    | zero => exact fun _ => pure _
    | succ n ih =>
      intro left
      refine andThen inferInstance fun found => ?_
      cases found with
      | some wider => exact ih wider
      | none => exact pure _
  unfold Grammar.climb
  infer_instance

instance expr (allowStruct : Bool) : Shrinks (expr rules allowStruct) := by
  unfold Grammar.expr
  infer_instance

instance exprAttributes : Shrinks (exprAttributes rules) := by
  unfold Grammar.exprAttributes outerAttribute attributeBody
  infer_instance

instance callTokens : Shrinks (callTokens rules) := by
  unfold Grammar.callTokens
  infer_instance

instance indexTokens (pos : Pos) (parts : List (List Char)) : Shrinks (indexTokens pos parts) := by
  have one : ∀ part, Shrinks (indexTokens.indexToken pos part) := by
    intro part
    refine of_same fun s a t h => ?_
    unfold indexTokens.indexToken at h
    split at h
    · cases h
      rfl
    · simp at h
  induction parts with
  | nil => exact pure _
  | cons part rest ih =>
    cases rest with
    | nil => exact one part
    | cons next rest => exact andThen (one part) fun _ => andThen ih fun _ => pure _

instance tupleIndex : Shrinks tupleIndex where
  remains s a t h := by
    have hlit : ∃ found, lit? s.tokens = some (found, t.tokens) := by
      grind [Grammar.tupleIndex, Parser.fail]
    obtain ⟨found, hlit⟩ := hlit
    exact remains_lit? hlit

instance member : Shrinks member := by
  unfold Grammar.member
  infer_instance

instance memberAfter : Shrinks (memberAfter rules) := by
  have plain : Shrinks (memberAfter.plain rules) := by
    unfold memberAfter.plain
    infer_instance
  refine andThen inferInstance fun dot => ⟨fun s a t h => ?_⟩
  obtain ⟨stream, m, hget, h⟩ := bind_eq_ok.mp h
  cases hget
  have hplain : (do return dot ++ (← memberAfter.plain rules) : Parser Tokens) s = .ok (a, t) →
      Remains t.tokens s.tokens := Shrinks.remains s a t
  cases hlit : lit? s.tokens with
  | none => exact hplain (by simpa only [hlit] using h)
  | some found =>
    obtain ⟨⟨text, kind, pos, digits⟩, rest⟩ := found
    simp only [hlit] at h
    -- Only a fraction is taken apart here; it is the next literal.
    rcases kind with _ | kind
    · exact hplain h
    · cases kind with
      | fraction suffix =>
        obtain ⟨taken, m, hmodify, h⟩ := bind_eq_ok.mp h
        have hm : m.tokens = rest := by
          cases hmodify
          rfl
        have hmore : Remains t.tokens m.tokens := Shrinks.remains m a t h
        rw [hm] at hmore
        exact hmore.trans (remains_lit? hlit)
      | _ => exact hplain h

instance trailers (first : Expr) : Shrinks (trailers rules first) := by
  have go : ∀ n operand, Shrinks (trailers.go rules operand n) := by
    intro n
    induction n with
    | zero => exact fun _ => pure _
    | succ n ih =>
      intro operand
      unfold trailers.go
      infer_instance
  unfold Grammar.trailers
  infer_instance

instance pathValueIf (found : QPath) (allowStruct : Bool) :
    Shrinks (pathValue? rules found allowStruct) := by
  unfold Grammar.pathValue?
  infer_instance

instance afterPath (found : QPath) (allowStruct : Bool) :
    Shrinks (afterPath rules found allowStruct) := by
  unfold Grammar.afterPath
  infer_instance

instance closure (allowStruct : Bool) : Shrinks (closure rules allowStruct) := by
  unfold Grammar.closure closureParam
  infer_instance

instance exprOpt : Shrinks (exprOpt rules) := by
  unfold Grammar.exprOpt
  infer_instance

instance breakExpr (allowStruct : Bool) : Shrinks (breakExpr rules allowStruct) := by
  unfold Grammar.breakExpr
  infer_instance

instance condition : Shrinks (condition rules) := by
  unfold Grammar.condition
  infer_instance

instance ifExpr : Shrinks (ifExpr rules) := by
  have go : ∀ n, Shrinks (ifExpr.go rules n) := by
    intro n
    induction n with
    | zero => exact pure _
    | succ n ih =>
      unfold ifExpr.go
      infer_instance
  unfold Grammar.ifExpr
  infer_instance

instance letExpr (allowStruct : Bool) : Shrinks (letExpr rules allowStruct) := by
  unfold Grammar.letExpr
  infer_instance

instance matchExpr : Shrinks (matchExpr rules) := by
  unfold Grammar.matchExpr
  infer_instance

instance whileExpr : Shrinks (whileExpr rules) := by
  unfold Grammar.whileExpr
  infer_instance

instance forExpr : Shrinks (forExpr rules) := by
  unfold Grammar.forExpr
  infer_instance

instance loopExpr : Shrinks (loopExpr rules) := by
  unfold Grammar.loopExpr
  infer_instance

instance labelled : Shrinks (labelled rules) := by
  unfold Grammar.labelled
  infer_instance

instance builtin : Shrinks builtin := by
  unfold Grammar.builtin
  infer_instance

instance groupExpr (allowStruct : Bool) : Shrinks (groupExpr rules allowStruct) := by
  unfold Grammar.groupExpr
  refine andThen inferInstance fun found => ?_
  obtain ⟨⟨path, inner⟩, opening, closing⟩ := found
  cases path <;> infer_instance

theorem atom_entries (allowStruct : Bool) :
    ∀ entry ∈ atoms rules allowStruct, Shrinks entry.2 := by
  unfold atoms plainExpr blockExpr
  simp only [List.forall_mem_cons, List.not_mem_nil, false_implies, implies_true, and_true]
  and_intros <;> infer_instance

instance atom (allowStruct : Bool) : Shrinks (atom rules allowStruct) := by
  refine andThen inferInstance fun s => ?_
  dsimp only
  split
  · rename_i hfound
    exact find? (atom_entries rules allowStruct) hfound
  · infer_instance

instance addressOf (allowStruct : Bool) : Shrinks (addressOf rules allowStruct) := by
  unfold Grammar.addressOf
  dsimp only
  infer_instance

instance unary (allowStruct : Bool) : Shrinks (unary rules allowStruct) := by
  unfold Grammar.unary
  infer_instance

theorem earlyAtom_entries : ∀ entry ∈ earlyAtoms rules, Shrinks entry.2 := by
  unfold earlyAtoms blockExpr
  simp only [List.forall_mem_cons, List.not_mem_nil, false_implies, implies_true, and_true]
  and_intros <;> infer_instance

instance earlyOperand : Shrinks (earlyOperand rules) := by
  refine andThen inferInstance fun invisible => orElse inferInstance ?_
  refine andThen inferInstance fun s => ?_
  dsimp only
  split
  · rename_i hfound
    exact find? (earlyAtom_entries rules) hfound
  · infer_instance

instance early : Shrinks (early rules) := by
  unfold Grammar.early
  infer_instance

/-! ## Items -/

instance abiTokens : Shrinks abiTokens := by
  unfold Grammar.abiTokens
  infer_instance

instance safety (allowSafe : Bool) : Shrinks (startsSignature.safety allowSafe) := by
  unfold startsSignature.safety
  infer_instance

instance outputTokens : Shrinks (outputTokens rules) := inferInstanceAs (Shrinks (_ >>= _))

instance signature (allowSafe : Bool) : Shrinks (signature rules allowSafe) := by
  unfold Grammar.signature
  infer_instance

instance constName : Shrinks constName := by
  unfold Grammar.constName
  infer_instance

instance constItem : Shrinks (constItem rules) := by
  unfold Grammar.constItem constItem.constRest
  infer_instance

instance staticItem : Shrinks (staticItem rules) := by
  unfold Grammar.staticItem
  infer_instance

instance typeItem (allowDefault : Bool) (place : ClausePlace) :
    Shrinks (typeItem rules allowDefault place) := by
  unfold Grammar.typeItem
  dsimp only
  infer_instance

instance useTree (allowRoot : Bool) : Shrinks (useTree rules allowRoot) := by
  unfold Grammar.useTree
  dsimp only
  infer_instance

instance useItem : Shrinks (useItem rules) := by
  unfold Grammar.useItem
  infer_instance

instance identOrUnderscore : Shrinks identOrUnderscore := inferInstanceAs (Shrinks (_ >>= _))

instance crateItem : Shrinks crateItem := by
  unfold Grammar.crateItem
  dsimp only
  infer_instance

instance callItem (allowName : Bool) : Shrinks (callItem allowName) := by
  unfold Grammar.callItem
  dsimp only
  infer_instance

instance macroItem : Shrinks macroItem := by
  unfold Grammar.macroItem
  dsimp only
  infer_instance

instance enumItem : Shrinks (enumItem rules) := by
  unfold Grammar.enumItem
  infer_instance

instance unionItem : Shrinks (unionItem rules) := by
  unfold Grammar.unionItem
  infer_instance

instance traitBody : Shrinks (traitBody rules) := by
  unfold Grammar.traitBody
  infer_instance

instance traitAlias : Shrinks (traitAlias rules) := by
  unfold Grammar.traitAlias
  infer_instance

instance traitOrAlias : Shrinks (traitOrAlias rules) := by
  unfold Grammar.traitOrAlias
  infer_instance

instance traitItem : Shrinks (traitItem rules) := by
  unfold Grammar.traitItem
  infer_instance

instance implItem : Shrinks (implItem rules) := by
  unfold Grammar.implItem
  infer_instance

instance foreignItem : Shrinks (foreignItem rules) := by
  unfold Grammar.foreignItem
  infer_instance

instance externItem : Shrinks (externItem rules) := by
  unfold Grammar.externItem
  dsimp only
  infer_instance

instance moduleItem : Shrinks (moduleItem rules) := by
  unfold Grammar.moduleItem
  dsimp only
  infer_instance

instance functionItem : Shrinks (functionItem rules) := by
  unfold Grammar.functionItem
  infer_instance

instance unsafeItem (lead : Tokens) : Shrinks (unsafeItem rules lead) := by
  unfold Grammar.unsafeItem
  dsimp only
  infer_instance

instance struct (attrs : List Attribute) (vis : Visibility) : Shrinks (struct rules attrs vis) := by
  unfold Grammar.struct
  dsimp only
  infer_instance

instance item : Shrinks (item rules) := by
  unfold Grammar.item
  dsimp only
  refine andThen inferInstance fun attrs => andThen inferInstance fun vis => choose_of ?_
  rw [List.forall_mem_append]
  constructor
  · simp only [List.forall_mem_cons, List.not_mem_nil, false_implies, implies_true, and_true]
    and_intros <;> infer_instance
  · split
    · simp only [List.forall_mem_cons, List.not_mem_nil, false_implies, implies_true, and_true]
      and_intros <;> infer_instance
    · simp

end Rules

/-- Every rule takes from the front at every level of nesting. -/
instance level_shrinking (depth : Nat) : (Rules.level depth).Shrinking := by
  induction depth with
  | zero =>
    exact ⟨fun _ => failHere _, fun _ _ => failHere _, fun _ => failHere _, fun _ => failHere _,
      fun _ _ _ => failHere _, failHere _, failHere _, failHere _, fun _ => failHere _⟩
  | succ depth ih =>
    exact ⟨type (Rules.level depth), bound (Rules.level depth), expr (Rules.level depth),
      unary (Rules.level depth), climb (Rules.level depth), early (Rules.level depth),
      pattern (Rules.level depth), item (Rules.level depth), useTree (Rules.level depth)⟩

instance forTokens_shrinking (tokens : Tokens) : (Rules.forTokens tokens).Shrinking :=
  level_shrinking _

end Shrinks

end Fieldwise.Grammar
