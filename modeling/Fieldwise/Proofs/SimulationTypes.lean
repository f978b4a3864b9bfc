import Fieldwise.Proofs.Simulation

/-!
# Types see no places

The rules for attributes, paths, bounds, types and generic parameters do at other places what they do here, as
far as the rules that they come back to do.
-/

namespace Fieldwise.Grammar

open Fieldwise.Grammar.Parser Fieldwise.Token

-- A rule of the grammar is one long term, and the search goes through all of its steps.
set_option synthInstance.maxSize 8192
set_option synthInstance.maxHeartbeats 100000

/-- Rules that follow each other. -/
class Rules.Follow (w : Shift) (loose : Prop) (rules other : Rules) : Prop where
  type : ∀ b, Follows w loose (rules.type b) (other.type b)
  bound : ∀ b c, Follows w loose (rules.bound b c) (other.bound b c)
  expr : ∀ b, Follows w loose (rules.expr b) (other.expr b)
  unary : ∀ b, Follows w loose (rules.unary b) (other.unary b)
  climb : ∀ left left' b precedence, [Moved w left left'] →
    Follows w loose (rules.climb left b precedence) (other.climb left' b precedence)
  early : Follows w loose rules.early other.early
  pattern : Follows w loose rules.pattern other.pattern
  statements : Follows w loose rules.statements other.statements
  item : Follows w loose rules.item other.item
  useTree : ∀ b b', [Moved w b b'] → Follows w loose (rules.useTree b) (other.useTree b')

attribute [instance] Rules.Follow.type Rules.Follow.bound Rules.Follow.expr Rules.Follow.unary
  Rules.Follow.climb Rules.Follow.early Rules.Follow.pattern Rules.Follow.statements
  Rules.Follow.item Rules.Follow.useTree

variable (w : Shift)

/-! ## Trees at other places -/

namespace Moved

section Trees

variable (type type' : Ty) (types types' : List Ty) (segments segments' : List Segment)
  (args args' : Args) (bound bound' : Bound) (bounds bounds' : List Bound) (name name' : Lifetime)
  (ident ident' : Ident) (value value' : Expr) (tokens tokens' : Tokens) (output output' : Option Ty)
  (binder binder' : Option Binder) (attrs attrs' : List Attribute) (path path' : ModPath)
  (flag flag' mark mark' : Bool) (pos pos' closing closing' : Pos)
  [ht : Moved w type type'] [hts : Moved w types types'] [hss : Moved w segments segments']
  [ha : Moved w args args'] [hb : Moved w bound bound'] [hbs : Moved w bounds bounds']
  [hn : Moved w name name'] [hi : Moved w ident ident'] [hv : Moved w value value']
  [hk : Moved w tokens tokens'] [ho : Moved w output output'] [hq : Moved w binder binder']
  [hat : Moved w attrs attrs'] [hpt : Moved w path path'] [hf : Moved w flag flag']
  [hm : Moved w mark mark'] [hp : Moved w pos pos'] [hc : Moved w closing closing']

/-! ### Types -/

instance array : Moved w (Ty.array type value) (.array type' value') := ⟨by rw [ht.eq, hv.eq]; rfl⟩

instance function (abi abi' : Option (Option Token)) (inputs inputs' : List FunctionInput)
    (variadic variadic' : Option Tokens) [habi : Moved w abi abi'] [hin : Moved w inputs inputs']
    [hvar : Moved w variadic variadic'] :
    Moved w (Ty.function binder flag abi inputs mark variadic output)
      (.function binder' flag' abi' inputs' mark' variadic' output') :=
  ⟨by rw [hq.eq, hf.eq, habi.eq, hin.eq, hm.eq, hvar.eq, ho.eq, retouch_function]; rfl⟩

instance groupType : Moved w (Ty.group type) (.group type') := ⟨by rw [ht.eq]; rfl⟩

instance implTrait : Moved w (Ty.implTrait bounds flag) (.implTrait bounds' flag') :=
  ⟨by rw [hbs.eq, hf.eq, retouch_implTrait]; rfl⟩

instance infer : Moved w Ty.infer .infer := ⟨rfl⟩

instance call (delim delim' : Delim) [h : Moved w delim delim'] :
    Moved w (Ty.call path delim tokens) (.call path' delim' tokens') :=
  ⟨by rw [hpt.eq, h.eq, hk.eq]; rfl⟩

instance never : Moved w Ty.never .never := ⟨rfl⟩

instance paren : Moved w (Ty.paren type) (.paren type') := ⟨by rw [ht.eq]; rfl⟩

instance projection (position position' : Nat) [hpn : Moved w position position'] :
    Moved w (Ty.projection type position flag segments) (.projection type' position' flag' segments') :=
  ⟨by rw [ht.eq, hpn.eq, hf.eq, hss.eq, retouch_projection]; rfl⟩

instance pointer : Moved w (Ty.pointer flag type) (.pointer flag' type') :=
  ⟨by rw [hf.eq, ht.eq]; rfl⟩

instance reference (lifetime lifetime' : Option Lifetime) [hl : Moved w lifetime lifetime'] :
    Moved w (Ty.reference lifetime flag type) (.reference lifetime' flag' type') :=
  ⟨by rw [hl.eq, hf.eq, ht.eq]; rfl⟩

instance slice : Moved w (Ty.slice type) (.slice type') := ⟨by rw [ht.eq]; rfl⟩

instance traitObject : Moved w (Ty.traitObject flag bounds mark) (.traitObject flag' bounds' mark') :=
  ⟨by rw [hf.eq, hbs.eq, hm.eq, retouch_traitObject]; rfl⟩

instance tuple : Moved w (Ty.tuple types flag) (.tuple types' flag') :=
  ⟨by rw [hts.eq, hf.eq, retouch_tuple]; rfl⟩

instance verbatim : Moved w (Ty.verbatim tokens) (.verbatim tokens') := ⟨by rw [hk.eq]; rfl⟩

instance segment : Moved w (Segment.mk ident args) (.mk ident' args') :=
  ⟨by rw [hi.eq, ha.eq]; rfl⟩

instance noArgs : Moved w Args.none .none := ⟨rfl⟩

instance angle (items items' : List GenericArg) [h : Moved w items items'] :
    Moved w (Args.angle flag items mark) (.angle flag' items' mark') :=
  ⟨by rw [hf.eq, h.eq, hm.eq, retouch_angle]; rfl⟩

instance callArgs : Moved w (Args.call types flag output) (.call types' flag' output') :=
  ⟨by rw [hts.eq, hf.eq, ho.eq, retouch_callArgs]; rfl⟩

instance lifetimeArg : Moved w (GenericArg.lifetime name) (.lifetime name') := ⟨by rw [hn.eq]; rfl⟩

instance typeArg : Moved w (GenericArg.type type) (.type type') := ⟨by rw [ht.eq]; rfl⟩

instance constArg : Moved w (GenericArg.const value) (.const value') := ⟨by rw [hv.eq]; rfl⟩

instance assocType : Moved w (GenericArg.assocType ident args type) (.assocType ident' args' type') :=
  ⟨by rw [hi.eq, ha.eq, ht.eq]; rfl⟩

instance assocConst :
    Moved w (GenericArg.assocConst ident args value) (.assocConst ident' args' value') :=
  ⟨by rw [hi.eq, ha.eq, hv.eq]; rfl⟩

instance constraint : Moved w (GenericArg.constraint ident args bounds flag)
    (.constraint ident' args' bounds' flag') :=
  ⟨by rw [hi.eq, ha.eq, hbs.eq, hf.eq, retouch_constraint]; rfl⟩

instance lifetimeBound : Moved w (Bound.lifetime name) (.lifetime name') := ⟨by rw [hn.eq]; rfl⟩

instance trait (rooted rooted' : Bool) [hr : Moved w rooted rooted'] :
    Moved w (Bound.trait flag mark binder rooted segments)
      (.trait flag' mark' binder' rooted' segments') :=
  ⟨by rw [hf.eq, hm.eq, hq.eq, hr.eq, hss.eq, retouch_trait]; rfl⟩

instance capture : Moved w (Bound.capture tokens) (.capture tokens') := ⟨by rw [hk.eq]; rfl⟩

instance verbatimBound : Moved w (Bound.verbatim tokens) (.verbatim tokens') := ⟨by rw [hk.eq]; rfl⟩

instance input (word word' : Option Ident) [hw : Moved w word word'] :
    Moved w (FunctionInput.mk attrs word type) (.mk attrs' word' type') :=
  ⟨by rw [hat.eq, hw.eq, ht.eq]; rfl⟩

instance inputs (found found' : Separated FunctionInput) (variadic variadic' : Option Tokens)
    [h : Moved w found found'] [hvar : Moved w variadic variadic'] :
    Moved w (FunctionInputs.mk found variadic) ⟨found', variadic'⟩ := ⟨by rw [h.eq, hvar.eq]; rfl⟩

instance functionInputs (found found' : FunctionInputs) [h : Moved w found found'] :
    Moved w found.inputs found'.inputs := ⟨by rw [h.eq]; rfl⟩

instance variadic (found found' : FunctionInputs) [h : Moved w found found'] :
    Moved w found.variadic found'.variadic := ⟨by rw [h.eq]; rfl⟩

instance parenType : Moved w (ParenContent.type type) (.type type') := ⟨by rw [ht.eq]; rfl⟩

instance parenInner : Moved w (ParenContent.inner type) (.inner type') := ⟨by rw [ht.eq]; rfl⟩

instance parenBound : Moved w (ParenContent.bound bound) (.bound bound') := ⟨by rw [hb.eq]; rfl⟩

instance typeTokens : Moved w type.tokens type'.tokens := ⟨by rw [ht.eq, Ty.tokens_retouch]⟩

instance argsTokens : Moved w args.tokens args'.tokens := ⟨by rw [ha.eq, Args.tokens_retouch]⟩

instance boundTokens : Moved w (Bound.tokensAll bounds) (Bound.tokensAll bounds') :=
  ⟨by rw [hbs.eq, Bound.tokensAll_retouch]⟩

instance outputTokens : Moved w (Ty.outputTokens output) (Ty.outputTokens output') :=
  ⟨by rw [ho.eq, Ty.outputTokens_retouch]⟩

instance binderTokens : Moved w (binderTokens binder) (Grammar.binderTokens binder') :=
  ⟨by rw [hq.eq, binderTokens_retouch]⟩

instance expr (kind : ExprKind) : Moved w (Expr.mk kind tokens) ⟨kind, tokens'⟩ :=
  ⟨by rw [hk.eq]; rfl⟩

instance exprTokens : Moved w value.tokens value'.tokens := ⟨by rw [hv.eq]; rfl⟩

instance exprKind : Moved w value.kind value'.kind := ⟨by rw [hv.eq]; rfl⟩

instance litTokens (lit lit' : Lit) [h : Moved w lit lit'] : Moved w lit.tokens lit'.tokens :=
  ⟨by rw [h.eq]; rfl⟩

/-! ### Paths -/

instance qpath (self self' : Option (Ty × Nat)) [h : Moved w self self'] :
    Moved w (QPath.mk self flag segments) ⟨self', flag', segments'⟩ :=
  ⟨by rw [h.eq, hf.eq, hss.eq]; rfl⟩

section QPath

variable (p p' : QPath) [h : Moved w p p']

instance qself : Moved w p.self p'.self := ⟨by rw [h.eq]; rfl⟩

instance pathRooted : Moved w p.rooted p'.rooted := ⟨by rw [h.eq]; rfl⟩

instance pathSegments : Moved w p.segments p'.segments := ⟨by rw [h.eq]; rfl⟩

instance qpathType : Moved w p.type p'.type := by
  refine ⟨?_⟩
  rw [h.eq]
  obtain ⟨_ | ⟨self, position⟩, rooted, segments⟩ := p <;> simp [QPath.type]

instance qpathTokens : Moved w p.tokens p'.tokens :=
  inferInstanceAs (Moved w p.type.tokens p'.type.tokens)

instance words : Moved w p.words? p'.words? := by
  refine ⟨?_⟩
  rw [h.eq]
  have hargs : ∀ segments : List Segment,
      (retouch w.toRetouch segments).all (fun s => s.args.isNone) =
        segments.all fun s => s.args.isNone := by
    intro segments
    rw [retouch_list, List.all_map]
    congr 1
    funext segment
    obtain ⟨ident, args⟩ := segment
    cases args <;> rfl
  have hidents : (retouch w.toRetouch p.segments).map Segment.ident =
      retouch w.toRetouch (p.segments.map Segment.ident) :=
    retouch_map _ (fun segment => by cases segment; rfl) p.segments
  simp only [QPath.words?, self_retouch, isNone_retouch, segments_retouch, hargs, hidents,
    rooted_retouch, retouch_ite]
  rfl

end QPath

instance anyTrait (test : Bound → Bool)
    [h : ∀ bound, Moved w (test bound) (test (retouch w.toRetouch bound))] :
    Moved w (bounds.any test) (bounds'.any test) := by
  refine ⟨?_⟩
  rw [hbs.eq, retouch_list, List.any_map]
  exact congrArg bounds.any (funext fun bound => (h bound).eq)

instance isTrait : Moved w bound.isTrait bound'.isTrait := ⟨by rw [hb.eq]; cases bound <;> rfl⟩

instance isAnyTrait : Moved w bound.isAnyTrait bound'.isAnyTrait :=
  ⟨by rw [hb.eq]; cases bound <;> rfl⟩

instance withCallArgs : Moved w (withCallArgs segments args) (Grammar.withCallArgs segments' args') := by
  refine ⟨?_⟩
  rw [hss.eq, ha.eq]
  clear hss
  induction segments with
  | nil => rfl
  | cons first rest ih =>
    obtain ⟨ident, plain⟩ := first
    cases rest with
    | nil => rfl
    | cons next rest => simpa [Grammar.withCallArgs] using ih

instance lastIsNone : Moved w (segments.getLast?.all fun s => s.args.isNone)
    (segments'.getLast?.all fun s => s.args.isNone) := by
  refine ⟨?_⟩
  rw [hss.eq, ← retouch_getLast?]
  rcases segments.getLast? with _ | ⟨ident, _ | _ | _⟩ <;> rfl

instance lastIsPlain : Moved w (lastIsPlain segments) (Grammar.lastIsPlain segments') := by
  refine ⟨?_⟩
  rw [hss.eq, Grammar.lastIsPlain, Grammar.lastIsPlain, ← retouch_getLast?]
  rcases segments.getLast? with _ | ⟨ident, _ | ⟨turbofish, _ | _, trailing⟩ | _⟩ <;> rfl

/-! ### Attributes, parameters and declarations -/

instance attrList (delim : Delim) : Moved w (AttributeValue.list delim tokens pos closing)
    (.list delim tokens' pos' closing') := ⟨by rw [hk.eq, hp.eq, hc.eq]; rfl⟩

instance attrValue : Moved w (AttributeValue.value pos tokens) (.value pos' tokens') :=
  ⟨by rw [hp.eq, hk.eq]; rfl⟩

instance attrWord : Moved w AttributeValue.word .word := ⟨rfl⟩

instance attr (shown shown' : AttributeValue) [h : Moved w shown shown'] :
    Moved w (Attribute.mk flag pos closing path shown) ⟨flag', pos', closing', path', shown'⟩ :=
  ⟨by rw [hf.eq, hp.eq, hc.eq, hpt.eq, h.eq]; rfl⟩

instance attrsTokens : Moved w (attrsTokens attrs) (Grammar.attrsTokens attrs') :=
  ⟨by rw [hat.eq, attrsTokens_retouch]⟩

instance attrsFlat : Moved w (attrs.flatMap Attribute.tokens) (attrs'.flatMap Attribute.tokens) :=
  ⟨by rw [hat.eq, retouch_flatMap _ (Attribute.tokens_retouch w)]⟩

instance inherited : Moved w Visibility.inherited .inherited := ⟨rfl⟩

instance everywhere : Moved w (Visibility.everywhere pos) (.everywhere pos') := ⟨by rw [hp.eq]; rfl⟩

instance inside : Moved w (Visibility.inside pos flag path) (.inside pos' flag' path') :=
  ⟨by rw [hp.eq, hf.eq, hpt.eq]; rfl⟩

instance visibilityTokens (vis vis' : Visibility) [h : Moved w vis vis'] :
    Moved w vis.tokens vis'.tokens := ⟨by rw [h.eq, Visibility.tokens_retouch]⟩

instance isInherited (vis vis' : Visibility) [h : Moved w vis vis'] :
    Moved w vis.isInherited vis'.isInherited := ⟨by rw [h.eq]; cases vis <;> rfl⟩

instance lifetimeParam (outlived outlived' : Separated Lifetime) [h : Moved w outlived outlived'] :
    Moved w (LifetimeParam.mk attrs name outlived) ⟨attrs', name', outlived'⟩ :=
  ⟨by rw [hat.eq, hn.eq, h.eq]; rfl⟩

end Trees

end Moved

namespace Blind

instance startsConst : Blind w startsConst := inferInstanceAs (Blind w (Look.any _))

instance pathGoesOn : Blind w pathGoesOn := by
  unfold Grammar.pathGoesOn
  infer_instance

instance startsBound (allowConst : Bool) : Blind w (startsBound allowConst) := by
  unfold Grammar.startsBound
  infer_instance

instance startsVariadic : Blind w startsVariadic := by
  unfold Grammar.startsVariadic
  infer_instance

instance startsQuantified : Blind w typeAfter.startsQuantified :=
  inferInstanceAs (Blind w (Look.any _))

end Blind

namespace Follows

variable {loose : Prop} (rules other : Rules) [Rules.Follow w loose rules other]

/-! ## Attributes and visibilities -/

instance attributeValue : Follows w loose (attributeValue rules) (attributeValue other) := by
  unfold Grammar.attributeValue
  refine whether w inferInstance ?_ (whether w inferInstance ?_ inferInstance)
  · refine andThen w inferInstance fun ⟨delim, body, opening, closing⟩ => ?_
    exact pure w (AttributeValue.list delim body opening closing) _
  · refine andThen w inferInstance fun equals => andThen w inferInstance fun _ => ?_
    refine andThen w inferInstance fun s => ?_
    dsimp only
    rw [stream_tokens_retouch, lit?_retouch]
    rcases lit? s.tokens with _ | ⟨found, _ | ⟨token, rest⟩⟩
    · exact inferInstanceAs (Follows w loose (_ >>= _) (_ >>= _))
    · refine andThen w (modified w fun _ => rfl) fun _ => ?_
      exact pure w (AttributeValue.value equals found.tokens) _
    · exact inferInstanceAs (Follows w loose (_ >>= _) (_ >>= _))

instance attributeBody (inner : Bool) (pos pos' : Pos) [Moved w pos pos'] :
    Follows w loose (attributeBody rules inner pos) (attributeBody other inner pos') := by
  unfold Grammar.attributeBody attributePath
  refine andThen w inferInstance fun ⟨⟨path, value⟩, opening, closing⟩ => ?_
  exact pure w (Attribute.mk inner pos closing path value) _

instance outerAttribute : Follows w loose (outerAttribute rules) (outerAttribute other) := by
  unfold Grammar.outerAttribute
  infer_instance

instance outerAttributes : Follows w loose (outerAttributes rules) (outerAttributes other) := by
  unfold Grammar.outerAttributes
  infer_instance

instance outerTokens : Follows w loose (outerTokens rules) (outerTokens other) := by
  unfold Grammar.outerTokens
  infer_instance

instance innerAttributes : Follows w loose (innerAttributes rules) (innerAttributes other) := by
  unfold Grammar.innerAttributes innerAttribute
  infer_instance

instance innerTokens : Follows w loose (innerTokens rules) (innerTokens other) := by
  unfold Grammar.innerTokens
  infer_instance

instance blockWithAttributes :
    Follows w loose (blockWithAttributes rules) (blockWithAttributes other) := by
  unfold Grammar.blockWithAttributes
  infer_instance

instance restriction (pos pos' : Pos) [Moved w pos pos'] :
    Follows w loose (restriction pos) (restriction pos') := by
  have hbody : ∀ tokens, restriction.groupBody (retouch w.toRetouch tokens) =
      retouch w.toRetouch (restriction.groupBody tokens) := by
    intro tokens
    simp only [restriction.groupBody, bare_retouch]
    rcases bare tokens with _ | ⟨_ | _ | _ | ⟨_ | _ | _ | _, _, _, _⟩, rest⟩ <;> simp
  unfold Grammar.restriction
  refine andThen w inferInstance fun s => ?_
  rw [stream_tokens_retouch, hbody]
  cases restriction.groupBody s.tokens with
  | none => exact pure w none none
  | some body =>
    refine orElse w inferInstance ?_ (orElse w inferInstance ?_ inferInstance)
    · refine andThen w inferInstance fun found => ?_
      rcases found with _ | ⟨⟨name, opening, closing⟩, after⟩
      · exact pure w none none
      · refine orElse w inferInstance ?_ (pure w none none)
        refine andThen w (resume w after _) fun _ => ?_
        exact pure w (some (Visibility.inside pos false ⟨false, [name]⟩)) _
    · refine andThen w inferInstance fun ⟨path, opening, closing⟩ => ?_
      exact pure w (some (Visibility.inside pos true path)) _

instance visibility : Follows w loose visibility visibility := by
  have hunit : Blind w visibility.isEmptyUnit := by
    refine ⟨fun tokens => ?_⟩
    rcases tokens with _ | ⟨_ | _ | _ | ⟨_ | _ | _ | _, _ | _, _, _⟩, rest⟩ <;>
      simp [visibility.isEmptyUnit]
  unfold Grammar.visibility
  refine whether w hunit inferInstance (whether w inferInstance ?_ inferInstance)
  refine andThen w inferInstance fun pos => andThen w inferInstance fun _ => ?_
  refine andThen w inferInstance fun found => ?_
  cases found with
  | none => exact pure w (Visibility.everywhere pos) _
  | some found => exact pure w found _

instance visibilityTokens : Follows w loose visibilityTokens visibilityTokens := by
  unfold Grammar.visibilityTokens
  infer_instance

/-! ## Paths and bounds -/

instance lifetimeBounds (stop : Tokens → Bool) [Blind w stop] :
    Follows w loose (lifetimeBounds stop) (lifetimeBounds stop) := by
  unfold Grammar.lifetimeBounds
  infer_instance

instance lifetimeParam : Follows w loose (lifetimeParam rules) (lifetimeParam other) := by
  unfold Grammar.lifetimeParam
  dsimp only
  infer_instance

instance binder : Follows w loose (binder rules) (binder other) := by
  unfold Grammar.binder
  infer_instance

instance binderIf : Follows w loose (binder? rules) (binder? other) := by
  unfold Grammar.binder?
  infer_instance

instance outputIf (allowPlus : Bool) :
    Follows w loose (output? rules allowPlus) (output? other allowPlus) := by
  unfold Grammar.output?
  infer_instance

instance callArgs : Follows w loose (callArgs rules) (callArgs other) := by
  unfold Grammar.callArgs
  refine andThen w inferInstance fun ⟨inputs, opening, closing⟩ => ?_
  exact inferInstanceAs (Follows w loose (_ >>= _) (_ >>= _))

instance constArgument : Follows w loose (constArgument rules) (constArgument other) := by
  unfold Grammar.constArgument
  infer_instance

theorem soleSegment?_retouch (type : Ty) :
    genericArg.soleSegment? (retouch w.toRetouch type) =
      retouch w.toRetouch (genericArg.soleSegment? type) := by
  cases type with
  | path rooted segments =>
    rcases rooted with _ | _ <;> rcases segments with _ | ⟨⟨name, _ | _ | _⟩, _ | ⟨next, rest⟩⟩ <;> rfl
  | _ => rfl

instance genericArg : Follows w loose (genericArg rules) (genericArg other) := by
  unfold Grammar.genericArg
  refine whether w inferInstance inferInstance (whether w inferInstance inferInstance ?_)
  refine andThen w inferInstance fun type => ?_
  rw [soleSegment?_retouch]
  rcases genericArg.soleSegment? type with _ | ⟨name, args⟩
  · exact pure w (GenericArg.type type) _
  · exact inferInstanceAs (Follows w loose (_ >>= _) (_ >>= _))

instance angleArgs : Follows w loose (angleArgs rules) (angleArgs other) := by
  unfold Grammar.angleArgs
  infer_instance

instance segment (exprStyle : Bool) :
    Follows w loose (segment rules exprStyle) (segment other exprStyle) := by
  unfold Grammar.segment startsArgs
  dsimp only
  infer_instance

instance moreSegments (exprStyle : Bool) (goesOn : Tokens → Bool) [Blind w goesOn] :
    Follows w loose (moreSegments rules exprStyle goesOn) (moreSegments other exprStyle goesOn) := by
  unfold Grammar.moreSegments
  infer_instance

instance path (exprStyle : Bool) :
    Follows w loose (path rules exprStyle) (path other exprStyle) := by
  unfold Grammar.path
  infer_instance

instance qpath (exprStyle : Bool) :
    Follows w loose (qpath rules exprStyle) (qpath other exprStyle) := by
  unfold Grammar.qpath
  dsimp only
  refine whether w inferInstance ?_ inferInstance
  refine andThen w inferInstance fun _ => andThen w inferInstance fun self => ?_
  have hrest : ∀ asTrait : Option (Bool × List Segment), Follows w loose
      (do
        let _ ← Parser.op ">"
        let _ ← Parser.op "::"
        let first ← Grammar.segment rules exprStyle
        let rest ← Grammar.moreSegments rules exprStyle (Look.op "::")
        match asTrait with
        | some (rooted, front) => return (⟨some (self, front.length), rooted, front ++ first :: rest⟩ : QPath)
        | none => return ⟨some (self, 0), true, first :: rest⟩)
      (do
        let _ ← Parser.op ">"
        let _ ← Parser.op "::"
        let first ← Grammar.segment other exprStyle
        let rest ← Grammar.moreSegments other exprStyle (Look.op "::")
        match retouch w.toRetouch asTrait with
        | some (rooted, front) =>
          return ⟨some (retouch w.toRetouch self, front.length), rooted, front ++ first :: rest⟩
        | none => return ⟨some (retouch w.toRetouch self, 0), true, first :: rest⟩) := by
    intro asTrait
    rcases asTrait with _ | ⟨rooted, front⟩ <;>
      simp only [retouch_none, retouch_some, retouch_pair] <;> infer_instance
  exact whether w inferInstance (andThen w inferInstance fun _ => andThen w inferInstance hrest)
    (andThen w (pure w none none) hrest)

instance captured : Follows w loose captured captured := by
  have go : ∀ n, Follows w loose (captured.go n) (captured.go n) := by
    intro n
    induction n with
    | zero => exact pure w _ _
    | succ n ih =>
      unfold captured.go
      infer_instance
  unfold Grammar.captured
  infer_instance

instance traitBound (inParens allowConst : Bool) :
    Follows w loose (traitBound rules inParens allowConst) (traitBound other inParens allowConst) := by
  unfold Grammar.traitBound traitBound.startsCall traitBound.constMark
  dsimp only
  infer_instance

instance bound (allowCapture allowConst : Bool) :
    Follows w loose (bound rules allowCapture allowConst) (bound other allowCapture allowConst) := by
  unfold Grammar.bound
  dsimp only
  refine whether w inferInstance inferInstance (whether w inferInstance inferInstance ?_)
  refine andThen w inferInstance fun before => whether w inferInstance ?_ ?_ <;>
  · refine andThen w inferInstance fun found => ?_
    cases found <;> simp only [retouch_none, retouch_some] <;> infer_instance

instance bounds (allowPlus allowCapture allowConst : Bool) :
    Follows w loose (bounds rules allowPlus allowCapture allowConst)
      (bounds other allowPlus allowCapture allowConst) := by
  have go : ∀ n, Follows w loose (bounds.go rules allowPlus allowCapture allowConst n)
      (bounds.go other allowPlus allowCapture allowConst n) := by
    intro n
    induction n with
    | zero => exact pure w _ _
    | succ n ih =>
      unfold bounds.go
      infer_instance
  unfold Grammar.bounds
  infer_instance

/-! ## Types -/

instance objectBounds (pos pos' : Pos) (allowPlus : Bool) [Moved w pos pos'] :
    Follows w loose (objectBounds rules pos allowPlus) (objectBounds other pos' allowPlus) := by
  unfold Grammar.objectBounds
  infer_instance

instance traitObject : Follows w loose (traitObject rules) (traitObject other) := by
  unfold Grammar.traitObject
  infer_instance

instance furtherBounds (first first' : Bound) [Moved w first first'] :
    Follows w loose (furtherBounds rules first) (furtherBounds other first') := by
  unfold Grammar.furtherBounds
  infer_instance

theorem parenBound?_retouch (type : Ty) :
    parenBound? (retouch w.toRetouch type) = retouch w.toRetouch (parenBound? type) := by
  cases type with
  | path rooted segments => simp [parenBound?]
  | traitObject isDyn bounds trailing =>
    rcases isDyn with _ | _ <;> rcases trailing with _ | _ <;>
      rcases bounds with _ | ⟨_ | _ | _ | _, _ | ⟨next, rest⟩⟩ <;> rfl
  | _ => rfl

instance parenContent : Follows w loose (parenContent rules) (parenContent other) := by
  have hrelaxed : Follows w loose
      (do match ← Grammar.traitBound rules true false with
        | some found => return ParenContent.bound found
        | none => return .type (.tuple [] false))
      (do match ← Grammar.traitBound other true false with
        | some found => return ParenContent.bound found
        | none => return .type (.tuple [] false)) := by
    refine andThen w inferInstance fun found => ?_
    cases found <;> simp only [retouch_none, retouch_some] <;> infer_instance
  unfold Grammar.parenContent
  infer_instance

instance parenType (allowPlus : Bool) :
    Follows w loose (parenType rules allowPlus) (parenType other allowPlus) := by
  unfold Grammar.parenType
  refine andThen w inferInstance fun ⟨content, opening, closing⟩ => ?_
  cases content with
  | type found => exact pure w found _
  | bound found => exact furtherBounds w rules other found _
  | inner inner =>
    refine andThen w inferInstance fun plus => orElse w inferInstance ?_ (pure w (Ty.paren inner) _)
    rw [parenBound?_retouch]
    cases parenBound? inner with
    | none => exact pure w (Ty.paren inner) _
    | some first => exact furtherBounds w rules other first _

instance functionInput (attrs attrs' : List Attribute) (allowSelf : Bool) [Moved w attrs attrs'] :
    Follows w loose (functionInput rules attrs allowSelf) (functionInput other attrs' allowSelf) := by
  -- The test for a name depends on what was looked at before, so that is brought to the same places first.
  unfold Grammar.functionInput functionInput.mutThenSelf
  dsimp only
  refine andThen w inferInstance fun more => andThen w inferInstance fun before => ?_
  refine orElse w inferInstance ?_ ?_
  · refine andThen w inferInstance fun _ => andThen w inferInstance fun s => ?_
    simp only [stream_tokens_retouch, (Blind.word w _).same]
    infer_instance
  · refine andThen w inferInstance fun s => ?_
    simp only [stream_tokens_retouch, (Blind.word w _).same]
    infer_instance

instance functionInputs : Follows w loose (functionInputs rules) (functionInputs other) := by
  have go : ∀ n first, Follows w loose (functionInputs.go rules first n)
      (functionInputs.go other first n) := by
    intro n
    induction n with
    | zero => exact fun _ => pure w _ _
    | succ n ih =>
      intro first
      unfold functionInputs.go
      infer_instance
  unfold Grammar.functionInputs
  infer_instance

instance pathType (quantified quantified' : Option Binder) (allowPlus : Bool)
    [Moved w quantified quantified'] :
    Follows w loose (pathType rules quantified allowPlus) (pathType other quantified' allowPlus) := by
  have more : ∀ n, Follows w loose (pathType.more rules n) (pathType.more other n) := by
    intro n
    induction n with
    | zero => exact pure w _ _
    | succ n ih =>
      unfold pathType.more
      infer_instance
  unfold Grammar.pathType
  dsimp only
  refine andThen w inferInstance fun found => orElse w inferInstance inferInstance ?_
  refine andThen w inferInstance fun called => ?_
  have hwords : (retouch w.toRetouch found).words? = retouch w.toRetouch found.words? := Moved.eq
  rw [hwords]
  rcases found.words? with _ | words <;> rcases called with _ | _
  · exact inferInstanceAs (Follows w loose (_ >>= _) (_ >>= _))
  · exact inferInstanceAs (Follows w loose (_ >>= _) (_ >>= _))
  · exact inferInstanceAs (Follows w loose (_ >>= _) (_ >>= _))
  · exact inferInstanceAs (Follows w loose (_ >>= _) (_ >>= _))

instance dynType (allowPlus : Bool) :
    Follows w loose (dynType rules allowPlus) (dynType other allowPlus) := by
  unfold Grammar.dynType
  infer_instance

instance groupType (allowArgs : Bool) :
    Follows w loose (groupType rules allowArgs) (groupType other allowArgs) := by
  have hpath : ∀ type : Ty, (retouch w.toRetouch type).qpath? = retouch w.toRetouch type.qpath? := by
    intro type
    cases type <;> simp [Ty.qpath?] <;> rfl
  unfold Grammar.groupType
  dsimp only
  refine andThen w inferInstance fun ⟨inner, opening, closing⟩ => ?_
  refine andThen w inferInstance fun goesOn => andThen w inferInstance fun argued => ?_
  dsimp only [retouch_pair]
  rw [hpath]
  cases inner.qpath? with
  | none => exact orElse w inferInstance inferInstance inferInstance
  | some found =>
    exact orElse w inferInstance inferInstance (orElse w inferInstance inferInstance inferInstance)

instance typeAfter (allowPlus : Bool) (quantified quantified' : Option Binder)
    [Moved w quantified quantified'] :
    Follows w loose (typeAfter rules allowPlus quantified) (typeAfter other allowPlus quantified') := by
  unfold Grammar.typeAfter functionType abi? bracketType pointerType referenceType implType
  dsimp only
  infer_instance

instance type (allowPlus : Bool) : Follows w loose (type rules allowPlus) (type other allowPlus) := by
  unfold Grammar.type
  infer_instance

instance castType : Follows w loose (castType rules) (castType other) := by
  unfold Grammar.castType
  infer_instance

end Follows

end Fieldwise.Grammar
