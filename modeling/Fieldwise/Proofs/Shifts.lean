import Fieldwise.Proofs.Places

/-!
# Writing a tree at other places

A shift changes places and leaves the spacing and the call site as they are. Trees are written with implied
punctuation at the call site and with the spacing that each operator needs, so writing commutes with every
shift.
-/

namespace Fieldwise

variable {α β : Type} [HasPlaces α] [HasPlaces β] (r : Retouch)

/-- A change of places that leaves the spacing and the call site alone. -/
structure Shift extends Retouch where
  /-- The call site stays. -/
  callSite : place .callSite = .callSite
  /-- The spacing stays. -/
  spacing : ∀ spacing, space spacing = spacing

namespace Grammar

variable (w : Shift)

theorem retouch_operator (pos : Pos) (cs : List Char) :
    retouch w.toRetouch (Token.operator pos cs) = Token.operator (w.place pos) cs := by
  induction cs with
  | nil => rfl
  | cons c rest ih =>
    cases rest with
    | nil => simp [Token.operator, w.spacing]
    | cons next rest => simp [Token.operator, ← ih, w.spacing]

@[simp] theorem retouch_sign (text : String) : retouch w.toRetouch (sign text) = sign text := by
  rw [sign, retouch_operator, w.callSite]

@[simp] theorem retouch_term (name : String) : retouch w.toRetouch (term name) = term name := by
  simp [term, w.callSite]

@[simp] theorem retouch_wrap (delim : Delim) (body : Tokens) :
    retouch w.toRetouch (wrap delim body) = wrap delim (retouch w.toRetouch body) := by
  simp [wrap, w.callSite]

theorem retouch_ite (c : Prop) [Decidable c] (a b : α) :
    retouch r (if c then a else b) = if c then retouch r a else retouch r b := by
  split <;> rfl

theorem retouch_joined (separator : Tokens) (pieces : List Tokens) (trailing : Bool) :
    retouch r (joined separator pieces trailing) =
      joined (retouch r separator) (retouch r pieces) trailing := by
  induction pieces with
  | nil => rfl
  | cons piece rest ih =>
    cases rest with
    | nil => simp [joined, retouch_ite]
    | cons next rest => simpa [joined] using ih

theorem retouch_marked (pieces : List α) (trailing : Bool) :
    retouch r (marked pieces trailing) = marked (retouch r pieces) trailing := by
  induction pieces with
  | nil => rfl
  | cons piece rest ih =>
    cases rest with
    | nil => rfl
    | cons next rest => simpa [marked] using ih

theorem retouch_appendPiece (done piece : Tokens × Bool) :
    retouch w.toRetouch (appendPiece done piece) =
      appendPiece (retouch w.toRetouch done) (retouch w.toRetouch piece) := by
  obtain ⟨text, closed⟩ := done
  obtain ⟨shown, more⟩ := piece
  cases closed <;> cases more <;> simp [appendPiece]

theorem retouch_lifetimesFirst (pieces : List (Bool × Tokens)) (trailing : Bool) :
    retouch w.toRetouch (lifetimesFirst pieces trailing) =
      lifetimesFirst (retouch w.toRetouch pieces) trailing := by
  have hfold : ∀ (late : List ((Bool × Tokens) × Bool)) (done : Tokens × Bool),
      retouch w.toRetouch
          (late.foldl (fun done piece => appendPiece done (piece.1.2, piece.2)) done) =
        (retouch w.toRetouch late).foldl (fun done piece => appendPiece done (piece.1.2, piece.2))
          (retouch w.toRetouch done) := by
    intro late
    induction late with
    | nil => exact fun _ => rfl
    | cons piece rest ih =>
      intro done
      rw [List.foldl_cons, ih, retouch_appendPiece]
      rfl
  have hfilter : ∀ (all : List ((Bool × Tokens) × Bool)) (test : Bool → Bool),
      retouch w.toRetouch (all.filter fun piece => test piece.1.1) =
        (retouch w.toRetouch all).filter fun piece => test piece.1.1 := by
    intro all test
    simp only [retouch_list, List.filter_map]
    rfl
  have hlead : ∀ early : List ((Bool × Tokens) × Bool),
      retouch w.toRetouch
          (early.map fun piece => piece.1.2 ++ (if piece.2 then sign "," else [])).flatten =
        ((retouch w.toRetouch early).map fun piece =>
          piece.1.2 ++ (if piece.2 then sign "," else [])).flatten := by
    intro early
    rw [retouch_flatten, retouch_list, retouch_list, List.map_map, List.map_map]
    congr 1
    refine List.map_congr_left fun piece _ => ?_
    obtain ⟨⟨isLifetime, shown⟩, more⟩ := piece
    cases more <;> simp
  have hclosed : ∀ early : List ((Bool × Tokens) × Bool),
      ((retouch w.toRetouch early).getLast?.map Prod.snd).getD true =
        (early.getLast?.map Prod.snd).getD true := by
    intro early
    rw [← retouch_getLast?]
    cases early.getLast? <;> rfl
  have hearly := hfilter (marked pieces trailing) id
  have hlate := hfilter (marked pieces trailing) (!·)
  simp only [retouch_marked, id_eq] at hearly hlate
  simp only [lifetimesFirst, ← hearly, ← hlate, hclosed, ← hlead]
  exact congrArg Prod.fst (hfold _ _)

theorem Lifetime.tokens_retouch (name : Lifetime) :
    (retouch w.toRetouch name).tokens = retouch w.toRetouch name.tokens := by
  simp [Lifetime.tokens, w.spacing]

theorem ModPath.tokens_retouch (path : ModPath) :
    (retouch w.toRetouch path).tokens = retouch w.toRetouch path.tokens := by
  simp only [ModPath.tokens, retouch_append, retouch_ite, retouch_sign, retouch_joined, retouch_nil,
    modPath_rooted_retouch, names_retouch]
  simp only [retouch_list, List.map_map]
  rfl

theorem AttributeValue.tokens_retouch (value : AttributeValue) :
    (retouch w.toRetouch value).tokens = retouch w.toRetouch value.tokens := by
  cases value with
  | word => rfl
  | list delim body opening closing =>
    simp only [AttributeValue.tokens, retouch_cons, retouch_group]
    rfl
  | value equals shown =>
    simp only [AttributeValue.tokens, retouch_cons, retouch_punct, w.spacing]
    rfl

theorem Attribute.tokens_retouch (attr : Attribute) :
    (retouch w.toRetouch attr).tokens = retouch w.toRetouch attr.tokens := by
  simp [Attribute.tokens, retouch_ite, w.spacing, ModPath.tokens_retouch,
    AttributeValue.tokens_retouch]

theorem retouch_flatMap {f : α → Tokens} (hf : ∀ a, f (retouch r a) = retouch r (f a))
    (list : List α) : (retouch r list).flatMap f = retouch r (list.flatMap f) := by
  induction list with
  | nil => rfl
  | cons a rest ih => simp [hf, ih]

theorem retouch_map {f : α → β} (hf : ∀ a, f (retouch r a) = retouch r (f a)) (list : List α) :
    (retouch r list).map f = retouch r (list.map f) := by
  simp only [retouch_list, List.map_map]
  exact List.map_congr_left fun a _ => hf a

theorem attrsTokens_retouch (attrs : List Attribute) :
    attrsTokens (retouch w.toRetouch attrs) = retouch w.toRetouch (attrsTokens attrs) := by
  have houter : (retouch w.toRetouch attrs).filter (fun attr => !attr.inner) =
      retouch w.toRetouch (attrs.filter fun attr => !attr.inner) := by
    rw [retouch_list, retouch_list, List.filter_map]
    rfl
  rw [attrsTokens, houter, retouch_flatMap _ (Attribute.tokens_retouch w)]
  rfl

theorem LifetimeParam.tokens_retouch (param : LifetimeParam) :
    (retouch w.toRetouch param).tokens = retouch w.toRetouch param.tokens := by
  simp [LifetimeParam.tokens, retouch_ite, retouch_joined, attrsTokens_retouch,
    Lifetime.tokens_retouch, retouch_map _ (Lifetime.tokens_retouch w)]

theorem binderTokens_retouch (binder : Option Binder) :
    binderTokens (retouch w.toRetouch binder) = retouch w.toRetouch (binderTokens binder) := by
  cases binder with
  | none => rfl
  | some binder =>
    simp [binderTokens, Binder.tokens, retouch_joined, retouch_map _ (LifetimeParam.tokens_retouch w)]

theorem projectionTokens_retouch (self : Tokens) (position : Nat) (rooted : Bool)
    (segments : List Tokens) :
    projectionTokens (retouch w.toRetouch self) position rooted (retouch w.toRetouch segments) =
      retouch w.toRetouch (projectionTokens self position rooted segments) := by
  simp only [projectionTokens, retouch_ite, retouch_append, retouch_sign, retouch_term,
    retouch_joined, retouch_nil, retouch_take, retouch_drop]

theorem functionTokens_retouch (binder : Option Binder) (isUnsafe : Bool)
    (abi : Option (Option Token)) (inputs : Tokens) (variadic : Option Tokens) (output : Tokens) :
    functionTokens (retouch w.toRetouch binder) isUnsafe (retouch w.toRetouch abi)
        (retouch w.toRetouch inputs) (retouch w.toRetouch variadic) (retouch w.toRetouch output) =
      retouch w.toRetouch (functionTokens binder isUnsafe abi inputs variadic output) := by
  rcases abi with _ | _ | name <;> cases variadic <;>
    simp [functionTokens, retouch_ite, binderTokens_retouch]

mutual

theorem Ty.tokens_retouch (type : Ty) :
    (retouch w.toRetouch type).tokens = retouch w.toRetouch type.tokens := by
  match type with
  | .array element length => simp [Ty.tokens, Ty.tokens_retouch element]
  | .function binder isUnsafe abi inputs trailing variadic output =>
    simp [Ty.tokens, ← functionTokens_retouch, retouch_joined, FunctionInput.tokensAll_retouch inputs,
      Ty.outputTokens_retouch output]
  | .group inner => simp [Ty.tokens, Ty.tokens_retouch inner]
  | .implTrait bounds trailing =>
    simp [Ty.tokens, retouch_joined, Bound.tokensAll_retouch bounds]
  | .infer | .never => simp [Ty.tokens]
  | .call path delim body => simp [Ty.tokens, ModPath.tokens_retouch]
  | .paren inner => simp [Ty.tokens, Ty.tokens_retouch inner]
  | .path rooted segments =>
    simp [Ty.tokens, retouch_ite, retouch_joined, Segment.tokensAll_retouch segments]
  | .projection self position rooted segments =>
    simp [Ty.tokens, ← projectionTokens_retouch, Ty.tokens_retouch self,
      Segment.tokensAll_retouch segments]
  | .pointer isMut target => simp [Ty.tokens, Ty.tokens_retouch target]
  | .reference lifetime isMut target =>
    cases lifetime <;>
      simp [Ty.tokens, retouch_ite, Ty.tokens_retouch target, Lifetime.tokens_retouch]
  | .slice element => simp [Ty.tokens, Ty.tokens_retouch element]
  | .traitObject isDyn bounds trailing =>
    simp [Ty.tokens, retouch_ite, retouch_joined, Bound.tokensAll_retouch bounds]
  | .tuple elements trailing =>
    simp [Ty.tokens, retouch_joined, Ty.tokensAll_retouch elements]
  | .verbatim tokens => simp [Ty.tokens]

theorem Ty.tokensAll_retouch (types : List Ty) :
    Ty.tokensAll (retouch w.toRetouch types) = retouch w.toRetouch (Ty.tokensAll types) := by
  match types with
  | [] => rfl
  | type :: rest => simp [Ty.tokensAll, Ty.tokens_retouch type, Ty.tokensAll_retouch rest]

theorem Ty.outputTokens_retouch (output : Option Ty) :
    Ty.outputTokens (retouch w.toRetouch output) = retouch w.toRetouch (Ty.outputTokens output) := by
  match output with
  | none => rfl
  | some type => simp [Ty.outputTokens, Ty.tokens_retouch type]

theorem Segment.tokens_retouch (segment : Segment) :
    (retouch w.toRetouch segment).tokens = retouch w.toRetouch segment.tokens := by
  match segment with
  | .mk ident args => simp [Segment.tokens, Args.tokens_retouch args]

theorem Segment.tokensAll_retouch (segments : List Segment) :
    Segment.tokensAll (retouch w.toRetouch segments) =
      retouch w.toRetouch (Segment.tokensAll segments) := by
  match segments with
  | [] => rfl
  | segment :: rest =>
    simp [Segment.tokensAll, Segment.tokens_retouch segment, Segment.tokensAll_retouch rest]

theorem Args.tokens_retouch (args : Args) :
    (retouch w.toRetouch args).tokens = retouch w.toRetouch args.tokens := by
  match args with
  | .none => rfl
  | .angle turbofish items trailing =>
    simp [Args.tokens, retouch_ite, retouch_lifetimesFirst, GenericArg.piecesAll_retouch items]
  | .call inputs trailing output =>
    simp [Args.tokens, retouch_joined, Ty.tokensAll_retouch inputs, Ty.outputTokens_retouch output]

theorem GenericArg.tokens_retouch (arg : GenericArg) :
    (retouch w.toRetouch arg).tokens = retouch w.toRetouch arg.tokens := by
  match arg with
  | .lifetime name => simp [GenericArg.tokens, Lifetime.tokens_retouch]
  | .type type => simp [GenericArg.tokens, Ty.tokens_retouch type]
  | .const value => simp [GenericArg.tokens]
  | .assocType ident args type =>
    simp [GenericArg.tokens, Args.tokens_retouch args, Ty.tokens_retouch type]
  | .assocConst ident args value => simp [GenericArg.tokens, Args.tokens_retouch args]
  | .constraint ident args bounds trailing =>
    simp [GenericArg.tokens, retouch_joined, Args.tokens_retouch args, Bound.tokensAll_retouch bounds]

/-- Writing the pieces of an argument list commutes with a shift. -/
theorem GenericArg.piecesAll_retouch (args : List GenericArg) :
    GenericArg.piecesAll (retouch w.toRetouch args) =
      retouch w.toRetouch (GenericArg.piecesAll args) := by
  match args with
  | [] => rfl
  | arg :: rest =>
    have hkind : (retouch w.toRetouch arg).isLifetime = arg.isLifetime := by cases arg <;> rfl
    simp [GenericArg.piecesAll, hkind, GenericArg.tokens_retouch arg,
      GenericArg.piecesAll_retouch rest]

theorem Bound.tokens_retouch (bound : Bound) :
    (retouch w.toRetouch bound).tokens = retouch w.toRetouch bound.tokens := by
  match bound with
  | .lifetime name => simp [Bound.tokens, Lifetime.tokens_retouch]
  | .trait inParens relaxed binder rooted segments =>
    simp [Bound.tokens, retouch_ite, retouch_joined, binderTokens_retouch,
      Segment.tokensAll_retouch segments]
  | .capture tokens | .verbatim tokens => simp [Bound.tokens]

theorem Bound.tokensAll_retouch (bounds : List Bound) :
    Bound.tokensAll (retouch w.toRetouch bounds) = retouch w.toRetouch (Bound.tokensAll bounds) := by
  match bounds with
  | [] => rfl
  | bound :: rest =>
    simp [Bound.tokensAll, Bound.tokens_retouch bound, Bound.tokensAll_retouch rest]

theorem FunctionInput.tokens_retouch (input : FunctionInput) :
    (retouch w.toRetouch input).tokens = retouch w.toRetouch input.tokens := by
  match input with
  | .mk attrs name type =>
    cases name <;>
      simp [FunctionInput.tokens, attrsTokens_retouch, Ty.tokens_retouch type]

theorem FunctionInput.tokensAll_retouch (inputs : List FunctionInput) :
    FunctionInput.tokensAll (retouch w.toRetouch inputs) =
      retouch w.toRetouch (FunctionInput.tokensAll inputs) := by
  match inputs with
  | [] => rfl
  | input :: rest =>
    simp [FunctionInput.tokensAll, FunctionInput.tokens_retouch input,
      FunctionInput.tokensAll_retouch rest]

end

theorem boundsTokens_retouch (bounds : Separated Bound) :
    boundsTokens (retouch w.toRetouch bounds) = retouch w.toRetouch (boundsTokens bounds) := by
  simp [boundsTokens, retouch_ite, retouch_joined, Bound.tokensAll_retouch]

theorem defaultTokens_retouch (form : ParamForm) (value : Option Tokens) :
    defaultTokens form (retouch w.toRetouch value) =
      retouch w.toRetouch (defaultTokens form value) := by
  cases form <;> cases value <;> simp [defaultTokens]

theorem GenericParam.piece_retouch (form : ParamForm) (param : GenericParam) :
    (retouch w.toRetouch param).piece form = retouch w.toRetouch (param.piece form) := by
  cases param with
  | lifetime param =>
    simp [GenericParam.piece, retouch_ite, LifetimeParam.tokens_retouch, Lifetime.tokens_retouch]
  | type attrs ident bounds default =>
    have hdefault : (retouch w.toRetouch default).map Ty.tokens =
        retouch w.toRetouch (default.map Ty.tokens) := by
      cases default <;> simp [Ty.tokens_retouch]
    simp [GenericParam.piece, retouch_ite, attrsTokens_retouch, boundsTokens_retouch, hdefault,
      defaultTokens_retouch]
  | const attrs ident type default =>
    have hdefault : (retouch w.toRetouch default).map Expr.tokens =
        retouch w.toRetouch (default.map Expr.tokens) := by
      cases default <;> simp
    simp [GenericParam.piece, retouch_ite, attrsTokens_retouch, Ty.tokens_retouch, hdefault,
      defaultTokens_retouch]

theorem Generics.tokens_retouch (form : ParamForm) (generics : Generics) :
    (retouch w.toRetouch generics).tokens form = retouch w.toRetouch (generics.tokens form) := by
  simp [Generics.tokens, retouch_ite, retouch_lifetimesFirst,
    retouch_map _ (GenericParam.piece_retouch w form)]

theorem Predicate.tokens_retouch (predicate : Predicate) :
    (retouch w.toRetouch predicate).tokens = retouch w.toRetouch predicate.tokens := by
  cases predicate with
  | lifetime name bounds =>
    simp [Predicate.tokens, retouch_joined, Lifetime.tokens_retouch,
      retouch_map _ (Lifetime.tokens_retouch w)]
  | type binder bounded bounds =>
    simp [Predicate.tokens, retouch_joined, binderTokens_retouch, Ty.tokens_retouch,
      Bound.tokensAll_retouch]

theorem Generics.whereTokens_retouch (generics : Generics) :
    (retouch w.toRetouch generics).whereTokens = retouch w.toRetouch generics.whereTokens := by
  simp [Generics.whereTokens, retouch_ite, retouch_joined, retouch_map _ (Predicate.tokens_retouch w)]

theorem Visibility.tokens_retouch (vis : Visibility) :
    (retouch w.toRetouch vis).tokens = retouch w.toRetouch vis.tokens := by
  cases vis <;> simp [Visibility.tokens, retouch_ite, ModPath.tokens_retouch]

theorem Field.tokens_retouch (field : Field) :
    (retouch w.toRetouch field).tokens = retouch w.toRetouch field.tokens := by
  obtain ⟨attrs, vis, ident, type⟩ := field
  cases ident <;>
    simp [Field.tokens, attrsTokens_retouch, Visibility.tokens_retouch, Ty.tokens_retouch]

theorem fieldsTokens_retouch (fields : Separated Field) :
    fieldsTokens (retouch w.toRetouch fields) = retouch w.toRetouch (fieldsTokens fields) := by
  simp [fieldsTokens, retouch_joined, retouch_map _ (Field.tokens_retouch w)]

theorem Struct.tokens_retouch (decl : Struct) :
    (retouch w.toRetouch decl).tokens = retouch w.toRetouch decl.tokens := by
  obtain ⟨attrs, vis, pos, ident, generics, fields⟩ := decl
  cases fields <;>
    simp [Struct.tokens, attrsTokens_retouch, Visibility.tokens_retouch, Generics.tokens_retouch,
      Generics.whereTokens_retouch, fieldsTokens_retouch]

theorem Item.tokens_retouch (item : Item) :
    (retouch w.toRetouch item).tokens = retouch w.toRetouch item.tokens := by
  cases item with
  | struct decl => exact Struct.tokens_retouch w decl
  | module items tokens => simp [Item.tokens]
  | other tokens => rfl

end Grammar

end Fieldwise
