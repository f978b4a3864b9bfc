import Fieldwise.Proofs.SimulationExpressions

/-!
# Declarations see no places

The rules for generic parameters, fields, statements and items do at other places what they do here. With them
the rules of the grammar are complete, so they hold at every level of nesting: a parse at other places is the same
parse, and a parse with more depth is the same parse unless the depth was reached.
-/

namespace Fieldwise.Grammar

open Fieldwise.Grammar.Parser Fieldwise.Token

set_option synthInstance.maxSize 8192
set_option synthInstance.maxHeartbeats 100000

variable (w : Shift)

/-! ## Trees and tests -/

namespace Moved

section Trees

variable (attrs attrs' : List Attribute) (ident ident' : Ident) (type type' : Ty) (tokens tokens' : Tokens)
  (pos pos' : Pos) (vis vis' : Visibility) (bounds bounds' : Separated Bound)
  [ha : Moved w attrs attrs'] [hi : Moved w ident ident'] [ht : Moved w type type']
  [hk : Moved w tokens tokens'] [hp : Moved w pos pos'] [hv : Moved w vis vis']
  [hb : Moved w bounds bounds']

instance lifetimeGeneric (param param' : LifetimeParam) [h : Moved w param param'] :
    Moved w (GenericParam.lifetime param) (.lifetime param') := ⟨by rw [h.eq]; rfl⟩

section LifetimeParam

variable (param param' : LifetimeParam) [h : Moved w param param']

instance paramAttrs : Moved w param.attrs param'.attrs := ⟨by rw [h.eq]; rfl⟩

instance paramLifetime : Moved w param.lifetime param'.lifetime := ⟨by rw [h.eq]; rfl⟩

instance paramBounds : Moved w param.bounds param'.bounds := ⟨by rw [h.eq]; rfl⟩

end LifetimeParam

instance typeGeneric (default default' : Option Ty) [hd : Moved w default default'] :
    Moved w (GenericParam.type attrs ident bounds default) (.type attrs' ident' bounds' default') :=
  ⟨by rw [ha.eq, hi.eq, hb.eq, hd.eq]; rfl⟩

instance constGeneric (default default' : Option Expr) [hd : Moved w default default'] :
    Moved w (GenericParam.const attrs ident type default) (.const attrs' ident' type' default') :=
  ⟨by rw [ha.eq, hi.eq, ht.eq, hd.eq]; rfl⟩

instance lifetimePredicate (name name' : Lifetime) (bounds bounds' : Separated Lifetime)
    [h : Moved w name name'] [hb : Moved w bounds bounds'] :
    Moved w (Predicate.lifetime name bounds) (.lifetime name' bounds') :=
  ⟨by rw [h.eq, hb.eq]; rfl⟩

instance typePredicate (binder binder' : Option Binder) [h : Moved w binder binder'] :
    Moved w (Predicate.type binder type bounds) (.type binder' type' bounds') :=
  ⟨by rw [h.eq, ht.eq, hb.eq]; rfl⟩

instance generics (params params' : Separated GenericParam) (conditions conditions' : Separated Predicate)
    [h : Moved w params params'] [h' : Moved w conditions conditions'] :
    Moved w (Generics.mk params conditions) ⟨params', conditions'⟩ := ⟨by rw [h.eq, h'.eq]; rfl⟩

instance whereTokens (found found' : Generics) [h : Moved w found found'] :
    Moved w found.whereTokens found'.whereTokens := ⟨by rw [h.eq, Generics.whereTokens_retouch]⟩

instance genericsTokens (form : ParamForm) (found found' : Generics) [h : Moved w found found'] :
    Moved w (found.tokens form) (found'.tokens form) := ⟨by rw [h.eq, Generics.tokens_retouch]⟩

instance field (ident ident' : Option Ident) [h : Moved w ident ident'] :
    Moved w (Field.mk attrs vis ident type) ⟨attrs', vis', ident', type'⟩ :=
  ⟨by rw [ha.eq, hv.eq, h.eq, ht.eq]; rfl⟩

instance fieldsTokens (fields fields' : Separated Field) [h : Moved w fields fields'] :
    Moved w (fieldsTokens fields) (Grammar.fieldsTokens fields') :=
  ⟨by rw [h.eq, fieldsTokens_retouch]⟩

instance named (fields fields' : Separated Field) [h : Moved w fields fields'] :
    Moved w (Fields.named fields) (.named fields') := ⟨by rw [h.eq]; rfl⟩

instance tupleFields (fields fields' : Separated Field) [h : Moved w fields fields'] :
    Moved w (Fields.tuple fields) (.tuple fields') := ⟨by rw [h.eq]; rfl⟩

instance unit : Moved w Fields.unit .unit := ⟨rfl⟩

instance struct (generics generics' : Generics) (fields fields' : Fields)
    [hg : Moved w generics generics'] [hf : Moved w fields fields'] :
    Moved w (Struct.mk attrs vis pos ident generics fields)
      ⟨attrs', vis', pos', ident', generics', fields'⟩ :=
  ⟨by rw [ha.eq, hv.eq, hp.eq, hi.eq, hg.eq, hf.eq]; rfl⟩

instance structItem (decl decl' : Struct) [h : Moved w decl decl'] :
    Moved w (Item.struct decl) (.struct decl') := ⟨by rw [h.eq]; rfl⟩

instance otherItem : Moved w (Item.other tokens) (.other tokens') := ⟨by rw [hk.eq]; rfl⟩

instance moduleItem (items items' : List Item) [h : Moved w items items'] :
    Moved w (Item.module items tokens) (.module items' tokens') :=
  ⟨by rw [hk.eq, h.eq, retouch_module]⟩

instance itemTokens (item item' : Item) [h : Moved w item item'] : Moved w item.tokens item'.tokens :=
  ⟨by rw [h.eq, Item.tokens_retouch]⟩

instance itemsTokens (items items' : List Item) [h : Moved w items items'] :
    Moved w (items.flatMap Item.tokens) (items'.flatMap Item.tokens) :=
  ⟨by rw [h.eq, retouch_flatMap _ (Item.tokens_retouch w)]⟩

instance receiver : Moved w (Param.receiver tokens pos) (.receiver tokens' pos') :=
  ⟨by rw [hk.eq, hp.eq]; rfl⟩

instance typed : Moved w (Param.typed tokens) (.typed tokens') := ⟨by rw [hk.eq]; rfl⟩

instance variadicParam : Moved w (Param.variadic tokens) (.variadic tokens') := ⟨by rw [hk.eq]; rfl⟩

end Trees

end Moved

/-! ## Generic parameters and fields -/

namespace Follows

variable {loose : Prop} (rules other : Rules) [Rules.Follow w loose rules other]

instance genericParams : Follows w loose (genericParams rules) (genericParams other) := by
  unfold Grammar.genericParams genericParam typeParam constParam boundsUntil
  dsimp only
  infer_instance

instance endsConditions : Blind w endsConditions := inferInstanceAs (Blind w (Look.any _))

instance conditions : Follows w loose (conditions rules) (conditions other) := by
  unfold Grammar.conditions predicate boundsUntil
  infer_instance

instance conditionsTokens : Follows w loose (conditionsTokens rules) (conditionsTokens other) := by
  unfold Grammar.conditionsTokens
  infer_instance

instance genericsTokens : Follows w loose (genericsTokens rules) (genericsTokens other) := by
  unfold Grammar.genericsTokens
  infer_instance

instance startsFields : Blind w namedField.startsFields := by
  unfold namedField.startsFields
  infer_instance

instance namedField (p q : Parser (Separated Field)) [Follows w loose p q] :
    Follows w loose (namedField rules p) (namedField other q) := by
  unfold Grammar.namedField
  dsimp only
  infer_instance

instance namedFieldsTo (depth : Nat) :
    Follows w loose (namedFieldsTo rules depth) (namedFieldsTo other depth) := by
  induction depth with
  | zero => unfold Grammar.namedFieldsTo; infer_instance
  | succ depth ih => unfold Grammar.namedFieldsTo; infer_instance

instance namedFields : Follows w loose (namedFields rules) (namedFields other) := by
  unfold Grammar.namedFields
  infer_instance

instance tupleFields : Follows w loose (tupleFields rules) (tupleFields other) := by
  unfold Grammar.tupleFields tupleField
  infer_instance

instance struct (attrs attrs' : List Attribute) (vis vis' : Visibility) [Moved w attrs attrs']
    [Moved w vis vis'] : Follows w loose (struct rules attrs vis) (struct other attrs' vis') := by
  unfold Grammar.struct
  dsimp only
  infer_instance

/-! ## Statements -/

instance endsWithBrace : Blind w letStatement.endsWithBrace where
  same tokens := by
    unfold letStatement.endsWithBrace
    rw [← retouch_getLast?]
    rcases tokens.getLast? with _ | _ | _ | _ | ⟨_ | _ | _ | _, _, _, _⟩ <;> rfl

theorem callKind_retouch (tokens : Tokens) :
    callKind (retouch w.toRetouch tokens) = callKind tokens := by
  simp only [callKind, (Blind.op w _).same, (Blind.second w _).same, (Blind.third w _).same]

instance statement : Follows w loose (statement rules) (statement other) := by
  unfold Grammar.statement letStatement
  refine andThen w (get w) fun start => andThen w inferInstance fun attrs => ?_
  refine andThen w inferInstance fun read => ?_
  rcases read with _ | ⟨path, after⟩
  · dsimp only [retouch_none]
    infer_instance
  · simp only [retouch_some, retouch_pair, stream_tokens_retouch, callKind_retouch]
    cases callKind after.tokens <;> dsimp only <;> infer_instance

instance statements : Follows w loose (statements rules) (statements other) := by
  have go : ∀ n, Follows w loose (statements.go rules n) (statements.go other n) := by
    intro n
    induction n with
    | zero => exact pure w _ _
    | succ n ih =>
      unfold statements.go
      infer_instance
  unfold Grammar.statements
  infer_instance

/-! ## Functions -/

instance abiTokens : Follows w loose abiTokens abiTokens := by
  unfold Grammar.abiTokens
  infer_instance

instance safety (allowSafe : Bool) :
    Follows w loose (startsSignature.safety allowSafe) (startsSignature.safety allowSafe) := by
  unfold startsSignature.safety
  infer_instance

end Follows

instance Blind.startsSignature (allowSafe : Bool) : Blind w (startsSignature allowSafe) where
  same tokens := by
    have marks : Follows w False
        (seq [word? "const", word? "async", startsSignature.safety allowSafe, abiTokens])
        (seq [word? "const", word? "async", startsSignature.safety allowSafe, abiTokens]) :=
      inferInstance
    have hrun := marks.run ⟨tokens, Pos.callSite, .invisible, none⟩
    have hstream : retouch w.toRetouch (Stream.mk tokens Pos.callSite .invisible none) =
        ⟨retouch w.toRetouch tokens, Pos.callSite, .invisible, none⟩ := by
      exact congrArg (Stream.mk _ · _ _) w.callSite
    simp only [false_and, or_false, hstream] at hrun
    simp only [Grammar.startsSignature, hrun]
    rcases seq _ _ with error | ⟨found, after⟩
    · rfl
    · exact (Blind.word w "fn").same after.tokens

namespace Follows

variable {loose : Prop} (rules other : Rules) [Rules.Follow w loose rules other]

instance receiver : Follows w loose (receiver rules) (receiver other) := by
  unfold Grammar.receiver
  dsimp only
  infer_instance

instance param (attrs attrs' : Tokens) [Moved w attrs attrs'] :
    Follows w loose (param rules attrs) (param other attrs') := by
  unfold Grammar.param
  refine andThen w inferInstance fun found => ?_
  rcases found with _ | ⟨⟨tokens, pos⟩, after⟩ <;>
    simp only [retouch_none, retouch_some, retouch_pair] <;> infer_instance

instance lastComma : Follows w loose params.lastComma params.lastComma := by
  unfold params.lastComma
  infer_instance

instance params : Follows w loose (params rules) (params other) := by
  have go : ∀ n first received,
      Follows w loose (params.go rules first received n) (params.go other first received n) := by
    intro n
    induction n with
    | zero =>
      intro first received
      unfold params.go
      infer_instance
    | succ n ih =>
      intro first received
      have next : ∀ tokens tokens' received, [Moved w tokens tokens'] →
          Follows w loose (params.next rules tokens received n)
            (params.next other tokens' received n) := by
        intro tokens tokens' received _
        unfold params.next
        infer_instance
      unfold params.go
      refine andThen w inferInstance fun _ => orElse w inferInstance inferInstance ?_
      refine andThen w inferInstance fun attrs => whether w inferInstance inferInstance ?_
      refine andThen w inferInstance fun found => ?_
      rcases found with ⟨tokens, pos⟩ | tokens | tokens
      · exact orElse w inferInstance
          (inferInstanceAs (Follows w loose (Parser.failAt pos _) (Parser.failAt (retouch _ pos) _)))
          (orElse w inferInstance
            (inferInstanceAs (Follows w loose (Parser.failAt pos _) (Parser.failAt (retouch _ pos) _)))
            (next tokens (retouch _ tokens) true))
      · exact next tokens (retouch _ tokens) received
      · exact inferInstanceAs (Follows w loose (do return tokens ++ (← params.lastComma))
          (do return retouch _ tokens ++ (← params.lastComma)))
  unfold Grammar.params
  infer_instance

instance signature (allowSafe : Bool) :
    Follows w loose (signature rules allowSafe) (signature other allowSafe) := by
  unfold Grammar.signature outputTokens
  infer_instance

/-! ## Simple items -/

instance constItem : Follows w loose (constItem rules) (constItem other) := by
  unfold Grammar.constItem constItem.constRest constName
  infer_instance

instance constMember : Follows w loose (constMember rules) (constMember other) := by
  unfold Grammar.constMember constName constItem.constRest
  infer_instance

instance typeItem (allowDefault : Bool) (place : ClausePlace) :
    Follows w loose (typeItem rules allowDefault place) (typeItem other allowDefault place) := by
  unfold Grammar.typeItem
  dsimp only
  infer_instance

instance useTree (allowRoot allowRoot' : Bool) [h : Moved w allowRoot allowRoot'] :
    Follows w loose (useTree rules allowRoot) (useTree other allowRoot') := by
  unfold Grammar.useTree
  dsimp only
  infer_instance

instance callItem (allowName : Bool) : Follows w loose (callItem allowName) (callItem allowName) := by
  unfold Grammar.callItem
  dsimp only
  infer_instance

instance skipAll : Follows w loose skipAll skipAll := modified w fun _ => rfl

instance macroItem : Follows w loose macroItem macroItem := by
  unfold Grammar.macroItem
  dsimp only
  infer_instance

/-! ## Types with bodies -/

instance memberCall (p q : Parser Tokens) [Follows w loose p q] :
    Alternatives w loose (memberCall p) (memberCall q) := by
  unfold Grammar.memberCall
  infer_instance

instance traitMember : Follows w loose (traitMember rules) (traitMember other) := by
  unfold Grammar.traitMember traitFunctionBody
  dsimp only
  infer_instance

instance traitBody : Follows w loose (traitBody rules) (traitBody other) := by
  unfold Grammar.traitBody
  infer_instance

instance traitItem : Follows w loose (traitItem rules) (traitItem other) := by
  unfold Grammar.traitItem
  infer_instance

instance implMember : Follows w loose (implMember rules) (implMember other) := by
  unfold Grammar.implMember implFunction
  dsimp only
  infer_instance

end Follows

instance Blind.startsGenerics : Blind w startsGenerics := by
  unfold Grammar.startsGenerics
  infer_instance

namespace Follows

variable {loose : Prop} (rules other : Rules) [Rules.Follow w loose rules other]

instance implItem : Follows w loose (implItem rules) (implItem other) := by
  unfold Grammar.implItem
  infer_instance

/-! ## Foreign blocks and modules -/

instance foreignMember : Follows w loose (foreignMember rules) (foreignMember other) := by
  unfold Grammar.foreignMember
  dsimp only
  infer_instance

instance foreignItem : Follows w loose (foreignItem rules) (foreignItem other) := by
  unfold Grammar.foreignItem
  infer_instance

instance moduleItem : Follows w loose (moduleItem rules) (moduleItem other) := by
  unfold Grammar.moduleItem
  dsimp only
  infer_instance

instance item : Follows w loose (item rules) (item other) := by
  unfold Grammar.item staticItem useItem enumItem variant unionItem traitOrAlias traitAlias functionItem
    externItem crateItem unsafeItem
  dsimp only
  infer_instance

theorem outOfDepth {α : Type} [HasPlaces α] (h : loose) (q : Parser α) :
    Follows w loose (Parser.failHere .tooDeep : Parser α) q :=
  ⟨fun s => .inr ⟨h, s.here, rfl⟩⟩

end Follows

/-! ## All levels of nesting -/

theorem level_follow_self (depth : Nat) : Rules.Follow w False (.level depth) (.level depth) := by
  induction depth with
  | zero => constructor <;> intros <;> exact Follows.failHere w _
  | succ depth ih =>
    unfold Rules.level Rules.above
    constructor <;> intros <;> dsimp only <;> infer_instance

/-- The rules of a deeper level follow those of a level, unless its depth is reached. -/
theorem level_follow_deeper {depth deeper : Nat} (h : depth ≤ deeper) :
    Rules.Follow w True (.level depth) (.level deeper) := by
  induction depth generalizing deeper with
  | zero => constructor <;> intros <;> exact Follows.outOfDepth w trivial _
  | succ depth ih =>
    obtain ⟨deeper, rfl⟩ : ∃ n, deeper = n + 1 := ⟨deeper - 1, by omega⟩
    have := @ih deeper (by omega)
    unfold Rules.level Rules.above
    constructor <;> intros <;> dsimp only <;> infer_instance

end Fieldwise.Grammar
