import Fieldwise.Directive
import Fieldwise.Host

/-!
# The same tree at other places

Tokens and trees keep places, and tokens of punctuation keep their spacing. `retouch` gives a tree other places
and another spacing and changes nothing else, so two trees that differ in nothing else are equal after the
same retouching.
-/

namespace Fieldwise

/-- A change of places and of spacing. -/
structure Retouch where
  /-- Where a place goes. -/
  place : Pos → Pos
  /-- What a spacing becomes. -/
  space : Spacing → Spacing

/-- What keeps places. -/
class HasPlaces (α : Type) where
  /-- The same at other places. -/
  retouch : Retouch → α → α

export HasPlaces (retouch)

/-- What keeps no places. -/
class PlaceFree (α : Type) [HasPlaces α] : Prop where
  /-- Retouching changes nothing. -/
  retouch_eq : ∀ (r : Retouch) (a : α), retouch r a = a

attribute [simp] PlaceFree.retouch_eq

/-- Everything at the call site, and every character of punctuation alone. -/
def Retouch.plain : Retouch := ⟨fun _ => .callSite, fun _ => .alone⟩

variable {α β ε : Type} [HasPlaces α] [HasPlaces β] [HasPlaces ε] (r : Retouch)

/-! ## Values without places, and containers -/

instance : HasPlaces Bool := ⟨fun _ a => a⟩
instance : HasPlaces Nat := ⟨fun _ a => a⟩
instance : HasPlaces Unit := ⟨fun _ a => a⟩
instance : HasPlaces String := ⟨fun _ a => a⟩
instance : HasPlaces Delim := ⟨fun _ a => a⟩
instance : PlaceFree Bool := ⟨fun _ _ => rfl⟩
instance : PlaceFree Nat := ⟨fun _ _ => rfl⟩
instance : PlaceFree Unit := ⟨fun _ _ => rfl⟩
instance : PlaceFree String := ⟨fun _ _ => rfl⟩
instance : PlaceFree Delim := ⟨fun _ _ => rfl⟩

instance : HasPlaces Pos := ⟨fun r pos => r.place pos⟩
instance : HasPlaces (List α) := ⟨fun r => List.map (retouch r)⟩
instance : HasPlaces (Option α) := ⟨fun r => Option.map (retouch r)⟩
instance : HasPlaces (α × β) := ⟨fun r pair => (retouch r pair.1, retouch r pair.2)⟩

instance : HasPlaces (Except ε α) where
  retouch r
    | .ok a => .ok (retouch r a)
    | .error e => .error (retouch r e)

@[simp, grind =] theorem retouch_pos (pos : Pos) : retouch r pos = r.place pos := rfl

theorem retouch_list (list : List α) : retouch r list = list.map (retouch r) := rfl

@[simp, grind =] theorem retouch_nil : retouch r ([] : List α) = [] := rfl

@[simp, grind =] theorem retouch_cons (a : α) (rest : List α) :
    retouch r (a :: rest) = retouch r a :: retouch r rest := rfl

@[simp, grind =] theorem retouch_append (left right : List α) :
    retouch r (left ++ right) = retouch r left ++ retouch r right := List.map_append

@[simp] theorem length_retouch (list : List α) : (retouch r list).length = list.length :=
  List.length_map _

@[simp] theorem isEmpty_retouch (list : List α) : (retouch r list).isEmpty = list.isEmpty := by
  cases list <;> rfl

@[simp, grind =] theorem retouch_none : retouch r (none : Option α) = none := rfl

@[simp, grind =] theorem retouch_some (a : α) : retouch r (some a) = some (retouch r a) := rfl

@[simp] theorem isSome_retouch (option : Option α) : (retouch r option).isSome = option.isSome := by
  cases option <;> rfl

@[simp] theorem isNone_retouch (option : Option α) : (retouch r option).isNone = option.isNone := by
  cases option <;> rfl

@[simp] theorem retouch_or (option other : Option α) :
    retouch r (option.or other) = (retouch r option).or (retouch r other) := by
  cases option <;> rfl

@[simp, grind =] theorem retouch_pair (a : α) (b : β) : retouch r (a, b) = (retouch r a, retouch r b) := rfl

@[simp, grind =] theorem retouch_ok (a : α) : retouch r (.ok a : Except ε α) = .ok (retouch r a) := rfl

@[simp, grind =] theorem retouch_error (e : ε) :
    retouch r (.error e : Except ε α) = .error (retouch r e) := rfl

theorem retouch_flatten (lists : List (List α)) :
    retouch r lists.flatten = (retouch r lists).flatten := by
  simp only [retouch_list, List.map_flatten]
  rfl

theorem retouch_take (n : Nat) (list : List α) : retouch r (list.take n) = (retouch r list).take n := by
  simp [retouch_list]

theorem retouch_drop (n : Nat) (list : List α) : retouch r (list.drop n) = (retouch r list).drop n := by
  simp [retouch_list]

theorem retouch_head? (list : List α) : retouch r list.head? = (retouch r list).head? := by
  cases list <;> rfl

theorem retouch_getLast? (list : List α) : retouch r list.getLast? = (retouch r list).getLast? := by
  simp only [retouch_list, List.getLast?_map]
  rfl

/-! ## Tokens -/

namespace Token

mutual

/-- The same token at other places. -/
def retouched (r : Retouch) : Token → Token
  | ident name pos => ident name (r.place pos)
  | punct c spacing pos => punct c (r.space spacing) (r.place pos)
  | literal text pos => literal text (r.place pos)
  | group delim body opening closing =>
    group delim (retouchedAll r body) (r.place opening) (r.place closing)

/-- The same tokens at other places. -/
def retouchedAll (r : Retouch) : List Token → List Token
  | [] => []
  | token :: rest => retouched r token :: retouchedAll r rest

end

end Token

instance : HasPlaces Token := ⟨Token.retouched⟩

theorem retouchedAll_eq (tokens : Tokens) : Token.retouchedAll r tokens = retouch r tokens := by
  induction tokens with
  | nil => rfl
  | cons token rest ih => rw [Token.retouchedAll, ih]; rfl

@[simp, grind =] theorem retouch_ident (name : String) (pos : Pos) :
    retouch r (Token.ident name pos) = .ident name (r.place pos) := rfl

@[simp, grind =] theorem retouch_punct (c : Char) (spacing : Spacing) (pos : Pos) :
    retouch r (Token.punct c spacing pos) = .punct c (r.space spacing) (r.place pos) := rfl

@[simp, grind =] theorem retouch_literal (text : String) (pos : Pos) :
    retouch r (Token.literal text pos) = .literal text (r.place pos) := rfl

@[simp, grind =] theorem retouch_group (delim : Delim) (body : Tokens) (opening closing : Pos) :
    retouch r (Token.group delim body opening closing) =
      .group delim (retouch r body) (r.place opening) (r.place closing) := by
  rw [← retouchedAll_eq]
  rfl

@[simp, grind =] theorem pos_retouch (token : Token) : (retouch r token).pos = r.place token.pos := by
  cases token <;> rfl

namespace Grammar

/-! ## Trees -/

instance : HasPlaces Ident := ⟨fun r ident => ⟨ident.name, r.place ident.pos⟩⟩
instance : HasPlaces Lifetime := ⟨fun r name => ⟨r.place name.pos, retouch r name.ident⟩⟩
instance : HasPlaces ModPath := ⟨fun r path => ⟨path.rooted, retouch r path.names⟩⟩
instance : HasPlaces ExprKind := ⟨fun _ kind => kind⟩
instance : PlaceFree ExprKind := ⟨fun _ _ => rfl⟩

instance : HasPlaces PatternKind where
  retouch r
    | .openRange pos => .openRange (r.place pos)
    | kind => kind

instance : HasPlaces Pattern := ⟨fun r pattern => ⟨retouch r pattern.kind, retouch r pattern.tokens⟩⟩
instance : HasPlaces Expr := ⟨fun r expr => ⟨expr.kind, retouch r expr.tokens⟩⟩

instance : HasPlaces AttributeValue where
  retouch r
    | .word => .word
    | .list delim body opening closing =>
      .list delim (retouch r body) (r.place opening) (r.place closing)
    | .value equals shown => .value (r.place equals) (retouch r shown)

instance : HasPlaces Attribute where
  retouch r attr :=
    ⟨attr.inner, r.place attr.pos, r.place attr.closing, retouch r attr.path, retouch r attr.value⟩

instance : HasPlaces (Separated α) := ⟨fun r list => ⟨retouch r list.items, list.trailing⟩⟩

instance : HasPlaces LifetimeParam where
  retouch r param := ⟨retouch r param.attrs, retouch r param.lifetime, retouch r param.bounds⟩

section Projections

variable (ident : Ident) (name : Lifetime) (path : ModPath) (pattern : Pattern) (expr : Expr)
  (attr : Attribute) (list : Separated α) (param : LifetimeParam)

@[simp] theorem name_retouch : (retouch r ident).name = ident.name := rfl
@[simp] theorem ident_pos_retouch : (retouch r ident).pos = r.place ident.pos := rfl
@[simp] theorem token_retouch : (retouch r ident).token = retouch r ident.token := rfl
@[simp] theorem lifetime_pos_retouch : (retouch r name).pos = r.place name.pos := rfl
@[simp] theorem lifetime_ident_retouch : (retouch r name).ident = retouch r name.ident := rfl
@[simp] theorem modPath_rooted_retouch : (retouch r path).rooted = path.rooted := rfl
@[simp] theorem names_retouch : (retouch r path).names = retouch r path.names := rfl
@[simp] theorem pattern_kind_retouch : (retouch r pattern).kind = retouch r pattern.kind := rfl
@[simp] theorem pattern_tokens_retouch : (retouch r pattern).tokens = retouch r pattern.tokens := rfl
@[simp] theorem kind_retouch : (retouch r expr).kind = expr.kind := rfl
@[simp] theorem expr_tokens_retouch : (retouch r expr).tokens = retouch r expr.tokens := rfl
@[simp] theorem inner_retouch : (retouch r attr).inner = attr.inner := rfl
@[simp] theorem attr_pos_retouch : (retouch r attr).pos = r.place attr.pos := rfl
@[simp] theorem closing_retouch : (retouch r attr).closing = r.place attr.closing := rfl
@[simp] theorem attr_path_retouch : (retouch r attr).path = retouch r attr.path := rfl
@[simp] theorem value_retouch : (retouch r attr).value = retouch r attr.value := rfl
@[simp] theorem items_retouch : (retouch r list).items = retouch r list.items := rfl
@[simp] theorem trailing_retouch : (retouch r list).trailing = list.trailing := rfl
@[simp] theorem param_attrs_retouch : (retouch r param).attrs = retouch r param.attrs := rfl
@[simp] theorem param_lifetime_retouch : (retouch r param).lifetime = retouch r param.lifetime := rfl
@[simp] theorem param_bounds_retouch : (retouch r param).bounds = retouch r param.bounds := rfl

end Projections

mutual

/-- The same type at other places. -/
def Ty.retouched (r : Retouch) : Ty → Ty
  | .array element length => .array (element.retouched r) (retouch r length)
  | .function binder isUnsafe abi inputs trailing variadic output =>
    .function (retouch r binder) isUnsafe (retouch r abi) (FunctionInput.retouchedAll r inputs)
      trailing (retouch r variadic) (Ty.retouchedIn r output)
  | .group inner => .group (inner.retouched r)
  | .implTrait bounds trailing => .implTrait (Bound.retouchedAll r bounds) trailing
  | .infer => .infer
  | .call path delim body => .call (retouch r path) delim (retouch r body)
  | .never => .never
  | .paren inner => .paren (inner.retouched r)
  | .path rooted segments => .path rooted (Segment.retouchedAll r segments)
  | .projection self position rooted segments =>
    .projection (self.retouched r) position rooted (Segment.retouchedAll r segments)
  | .pointer isMut target => .pointer isMut (target.retouched r)
  | .reference lifetime isMut target => .reference (retouch r lifetime) isMut (target.retouched r)
  | .slice element => .slice (element.retouched r)
  | .traitObject isDyn bounds trailing => .traitObject isDyn (Bound.retouchedAll r bounds) trailing
  | .tuple elements trailing => .tuple (Ty.retouchedAll r elements) trailing
  | .verbatim tokens => .verbatim (retouch r tokens)

/-- The same types at other places. -/
def Ty.retouchedAll (r : Retouch) : List Ty → List Ty
  | [] => []
  | type :: rest => type.retouched r :: Ty.retouchedAll r rest

/-- The same result type at other places. -/
def Ty.retouchedIn (r : Retouch) : Option Ty → Option Ty
  | none => none
  | some type => some (type.retouched r)

/-- The same segment at other places. -/
def Segment.retouched (r : Retouch) : Segment → Segment
  | .mk ident args => .mk (retouch r ident) (args.retouched r)

/-- The same segments at other places. -/
def Segment.retouchedAll (r : Retouch) : List Segment → List Segment
  | [] => []
  | segment :: rest => segment.retouched r :: Segment.retouchedAll r rest

/-- The same arguments at other places. -/
def Args.retouched (r : Retouch) : Args → Args
  | .none => .none
  | .angle turbofish items trailing => .angle turbofish (GenericArg.retouchedAll r items) trailing
  | .call inputs trailing output =>
    .call (Ty.retouchedAll r inputs) trailing (Ty.retouchedIn r output)

/-- The same argument at other places. -/
def GenericArg.retouched (r : Retouch) : GenericArg → GenericArg
  | .lifetime name => .lifetime (retouch r name)
  | .type type => .type (type.retouched r)
  | .const value => .const (retouch r value)
  | .assocType ident args type => .assocType (retouch r ident) (args.retouched r) (type.retouched r)
  | .assocConst ident args value =>
    .assocConst (retouch r ident) (args.retouched r) (retouch r value)
  | .constraint ident args bounds trailing =>
    .constraint (retouch r ident) (args.retouched r) (Bound.retouchedAll r bounds) trailing

/-- The same arguments of a list at other places. -/
def GenericArg.retouchedAll (r : Retouch) : List GenericArg → List GenericArg
  | [] => []
  | arg :: rest => arg.retouched r :: GenericArg.retouchedAll r rest

/-- The same bound at other places. -/
def Bound.retouched (r : Retouch) : Bound → Bound
  | .lifetime name => .lifetime (retouch r name)
  | .trait inParens relaxed binder rooted segments =>
    .trait inParens relaxed (retouch r binder) rooted (Segment.retouchedAll r segments)
  | .capture tokens => .capture (retouch r tokens)
  | .verbatim tokens => .verbatim (retouch r tokens)

/-- The same bounds at other places. -/
def Bound.retouchedAll (r : Retouch) : List Bound → List Bound
  | [] => []
  | bound :: rest => bound.retouched r :: Bound.retouchedAll r rest

/-- The same parameter at other places. -/
def FunctionInput.retouched (r : Retouch) : FunctionInput → FunctionInput
  | .mk attrs name type => .mk (retouch r attrs) (retouch r name) (type.retouched r)

/-- The same parameters at other places. -/
def FunctionInput.retouchedAll (r : Retouch) : List FunctionInput → List FunctionInput
  | [] => []
  | input :: rest => input.retouched r :: FunctionInput.retouchedAll r rest

end

instance : HasPlaces Ty := ⟨Ty.retouched⟩
instance : HasPlaces Segment := ⟨Segment.retouched⟩
instance : HasPlaces Args := ⟨Args.retouched⟩
instance : HasPlaces GenericArg := ⟨GenericArg.retouched⟩
instance : HasPlaces Bound := ⟨Bound.retouched⟩
instance : HasPlaces FunctionInput := ⟨FunctionInput.retouched⟩


theorem Ty.retouchedAll_eq (types : List Ty) : Ty.retouchedAll r types = retouch r types := by
  induction types with
  | nil => rfl
  | cons type rest ih => rw [Ty.retouchedAll, ih]; rfl

theorem Ty.retouchedIn_eq (type : Option Ty) : Ty.retouchedIn r type = retouch r type := by
  cases type <;> rfl

theorem Segment.retouchedAll_eq (segments : List Segment) :
    Segment.retouchedAll r segments = retouch r segments := by
  induction segments with
  | nil => rfl
  | cons segment rest ih => rw [Segment.retouchedAll, ih]; rfl

theorem GenericArg.retouchedAll_eq (args : List GenericArg) :
    GenericArg.retouchedAll r args = retouch r args := by
  induction args with
  | nil => rfl
  | cons arg rest ih => rw [GenericArg.retouchedAll, ih]; rfl

theorem Bound.retouchedAll_eq (bounds : List Bound) :
    Bound.retouchedAll r bounds = retouch r bounds := by
  induction bounds with
  | nil => rfl
  | cons bound rest ih => rw [Bound.retouchedAll, ih]; rfl

theorem FunctionInput.retouchedAll_eq (inputs : List FunctionInput) :
    FunctionInput.retouchedAll r inputs = retouch r inputs := by
  induction inputs with
  | nil => rfl
  | cons input rest ih => rw [FunctionInput.retouchedAll, ih]; rfl

section TypeConstructors

variable (type : Ty) (types : List Ty) (segments : List Segment) (args : Args) (bounds : List Bound)
  (name : Lifetime) (ident : Ident) (value : Expr) (tokens : Tokens) (output : Option Ty)
  (flag : Bool)

@[simp] theorem retouch_array : retouch r (Ty.array type value) =
    .array (retouch r type) (retouch r value) := rfl

@[simp] theorem retouch_function (binder : Option Binder) (isUnsafe : Bool)
    (abi : Option (Option Token)) (inputs : List FunctionInput) (variadic : Option Tokens) :
    retouch r (Ty.function binder isUnsafe abi inputs flag variadic output) =
      .function (retouch r binder) isUnsafe (retouch r abi) (retouch r inputs) flag
        (retouch r variadic) (retouch r output) := by
  rw [← FunctionInput.retouchedAll_eq, ← Ty.retouchedIn_eq]
  rfl

@[simp] theorem retouch_groupType : retouch r (Ty.group type) = .group (retouch r type) := rfl

@[simp] theorem retouch_implTrait :
    retouch r (Ty.implTrait bounds flag) = .implTrait (retouch r bounds) flag := by
  rw [← Bound.retouchedAll_eq]
  rfl

@[simp] theorem retouch_infer : retouch r Ty.infer = .infer := rfl

@[simp] theorem retouch_call (path : ModPath) (delim : Delim) :
    retouch r (Ty.call path delim tokens) = .call (retouch r path) delim (retouch r tokens) := rfl

@[simp] theorem retouch_never : retouch r Ty.never = .never := rfl

@[simp] theorem retouch_paren : retouch r (Ty.paren type) = .paren (retouch r type) := rfl

@[simp] theorem retouch_path :
    retouch r (Ty.path flag segments) = .path flag (retouch r segments) := by
  rw [← Segment.retouchedAll_eq]
  rfl

@[simp] theorem retouch_projection (position : Nat) :
    retouch r (Ty.projection type position flag segments) =
      .projection (retouch r type) position flag (retouch r segments) := by
  rw [← Segment.retouchedAll_eq]
  rfl

@[simp] theorem retouch_pointer :
    retouch r (Ty.pointer flag type) = .pointer flag (retouch r type) := rfl

@[simp] theorem retouch_reference (lifetime : Option Lifetime) :
    retouch r (Ty.reference lifetime flag type) =
      .reference (retouch r lifetime) flag (retouch r type) := rfl

@[simp] theorem retouch_slice : retouch r (Ty.slice type) = .slice (retouch r type) := rfl

@[simp] theorem retouch_traitObject (isDyn : Bool) :
    retouch r (Ty.traitObject isDyn bounds flag) = .traitObject isDyn (retouch r bounds) flag := by
  rw [← Bound.retouchedAll_eq]
  rfl

@[simp] theorem retouch_tuple : retouch r (Ty.tuple types flag) = .tuple (retouch r types) flag := by
  rw [← Ty.retouchedAll_eq]
  rfl

@[simp] theorem retouch_verbatim :
    retouch r (Ty.verbatim tokens) = .verbatim (retouch r tokens) := rfl

@[simp] theorem retouch_segment :
    retouch r (Segment.mk ident args) = .mk (retouch r ident) (retouch r args) := rfl

@[simp] theorem retouch_noArgs : retouch r Args.none = .none := rfl

@[simp] theorem retouch_angle (turbofish : Bool) (items : List GenericArg) :
    retouch r (Args.angle turbofish items flag) = .angle turbofish (retouch r items) flag := by
  rw [← GenericArg.retouchedAll_eq]
  rfl

@[simp] theorem retouch_callArgs :
    retouch r (Args.call types flag output) = .call (retouch r types) flag (retouch r output) := by
  rw [← Ty.retouchedAll_eq, ← Ty.retouchedIn_eq]
  rfl

@[simp] theorem retouch_lifetimeArg :
    retouch r (GenericArg.lifetime name) = .lifetime (retouch r name) := rfl

@[simp] theorem retouch_typeArg : retouch r (GenericArg.type type) = .type (retouch r type) := rfl

@[simp] theorem retouch_constArg :
    retouch r (GenericArg.const value) = .const (retouch r value) := rfl

@[simp] theorem retouch_assocType : retouch r (GenericArg.assocType ident args type) =
    .assocType (retouch r ident) (retouch r args) (retouch r type) := rfl

@[simp] theorem retouch_assocConst : retouch r (GenericArg.assocConst ident args value) =
    .assocConst (retouch r ident) (retouch r args) (retouch r value) := rfl

@[simp] theorem retouch_constraint : retouch r (GenericArg.constraint ident args bounds flag) =
    .constraint (retouch r ident) (retouch r args) (retouch r bounds) flag := by
  rw [← Bound.retouchedAll_eq]
  rfl

@[simp] theorem retouch_lifetimeBound :
    retouch r (Bound.lifetime name) = .lifetime (retouch r name) := rfl

@[simp] theorem retouch_trait (inParens relaxed : Bool) (binder : Option Binder) :
    retouch r (Bound.trait inParens relaxed binder flag segments) =
      .trait inParens relaxed (retouch r binder) flag (retouch r segments) := by
  rw [← Segment.retouchedAll_eq]
  rfl

@[simp] theorem retouch_capture :
    retouch r (Bound.capture tokens) = .capture (retouch r tokens) := rfl

@[simp] theorem retouch_verbatimBound :
    retouch r (Bound.verbatim tokens) = .verbatim (retouch r tokens) := rfl

@[simp] theorem retouch_input (attrs : List Attribute) (word : Option Ident) :
    retouch r (FunctionInput.mk attrs word type) =
      .mk (retouch r attrs) (retouch r word) (retouch r type) := rfl

end TypeConstructors

/-! ## Trees of items, and what the parsers return besides trees -/

instance : HasPlaces GenericParam where
  retouch r
    | .lifetime param => .lifetime (retouch r param)
    | .type attrs ident bounds default =>
      .type (retouch r attrs) (retouch r ident) (retouch r bounds) (retouch r default)
    | .const attrs ident type default =>
      .const (retouch r attrs) (retouch r ident) (retouch r type) (retouch r default)

instance : HasPlaces Predicate where
  retouch r
    | .lifetime name bounds => .lifetime (retouch r name) (retouch r bounds)
    | .type binder bounded bounds => .type (retouch r binder) (retouch r bounded) (retouch r bounds)

instance : HasPlaces Generics where
  retouch r generics := ⟨retouch r generics.params, retouch r generics.conditions⟩

instance : HasPlaces Visibility where
  retouch r
    | .inherited => .inherited
    | .everywhere pos => .everywhere (r.place pos)
    | .inside pos withIn path => .inside (r.place pos) withIn (retouch r path)

instance : HasPlaces Field where
  retouch r field :=
    ⟨retouch r field.attrs, retouch r field.visibility, retouch r field.ident, retouch r field.type⟩

instance : HasPlaces Fields where
  retouch r
    | .named fields => .named (retouch r fields)
    | .tuple fields => .tuple (retouch r fields)
    | .unit => .unit

instance : HasPlaces Struct where
  retouch r decl :=
    ⟨retouch r decl.attrs, retouch r decl.visibility, r.place decl.pos, retouch r decl.ident,
      retouch r decl.generics, retouch r decl.fields⟩

mutual

/-- The same item at other places. -/
def Item.retouched (r : Retouch) : Item → Item
  | .struct decl => .struct (retouch r decl)
  | .module items tokens => .module (Item.retouchedAll r items) (retouch r tokens)
  | .other tokens => .other (retouch r tokens)

/-- The same items at other places. -/
def Item.retouchedAll (r : Retouch) : List Item → List Item
  | [] => []
  | item :: rest => item.retouched r :: Item.retouchedAll r rest

end

instance : HasPlaces Item := ⟨Item.retouched⟩

@[simp] theorem retouch_module (items : List Item) (tokens : Tokens) :
    retouch r (Item.module items tokens) = .module (retouch r items) (retouch r tokens) := by
  have hall : Item.retouchedAll r items = retouch r items := by
    induction items with
    | nil => rfl
    | cons item rest ih => rw [Item.retouchedAll, ih]; rfl
  rw [← hall]
  rfl

instance : HasPlaces QPath := ⟨fun r p => ⟨retouch r p.self, p.rooted, retouch r p.segments⟩⟩

instance : HasPlaces ParenContent where
  retouch r
    | .type type => .type (retouch r type)
    | .inner inner => .inner (retouch r inner)
    | .bound bound => .bound (retouch r bound)

instance : HasPlaces FunctionInputs := ⟨fun r found => ⟨retouch r found.inputs, retouch r found.variadic⟩⟩

instance : HasPlaces Parser.Lit where
  retouch r found := ⟨found.text, found.kind, r.place found.pos, retouch r found.tokens⟩

instance : HasPlaces Param where
  retouch r
    | .receiver tokens pos => .receiver (retouch r tokens) (r.place pos)
    | .typed tokens => .typed (retouch r tokens)
    | .variadic tokens => .variadic (retouch r tokens)

instance : HasPlaces Stream where
  retouch r s := ⟨retouch r s.tokens, r.place s.stop, s.delim, retouch r s.leftover⟩

instance : HasPlaces SyntaxError := ⟨fun r error => ⟨r.place error.pos, error.cause⟩⟩

section ItemConstructors

variable (attrs : List Attribute) (ident : Ident) (pos : Pos) (path : ModPath) (tokens : Tokens)

@[simp] theorem retouch_lifetimeParam (param : LifetimeParam) :
    retouch r (GenericParam.lifetime param) = .lifetime (retouch r param) := rfl

@[simp] theorem retouch_typeParam (bounds : Separated Bound) (default : Option Ty) :
    retouch r (GenericParam.type attrs ident bounds default) =
      .type (retouch r attrs) (retouch r ident) (retouch r bounds) (retouch r default) := rfl

@[simp] theorem retouch_constParam (type : Ty) (default : Option Expr) :
    retouch r (GenericParam.const attrs ident type default) =
      .const (retouch r attrs) (retouch r ident) (retouch r type) (retouch r default) := rfl

@[simp] theorem retouch_lifetimePredicate (name : Lifetime) (bounds : Separated Lifetime) :
    retouch r (Predicate.lifetime name bounds) = .lifetime (retouch r name) (retouch r bounds) := rfl

@[simp] theorem retouch_typePredicate (binder : Option Binder) (bounded : Ty)
    (bounds : Separated Bound) : retouch r (Predicate.type binder bounded bounds) =
      .type (retouch r binder) (retouch r bounded) (retouch r bounds) := rfl

@[simp] theorem retouch_inherited : retouch r Visibility.inherited = .inherited := rfl

@[simp] theorem retouch_everywhere :
    retouch r (Visibility.everywhere pos) = .everywhere (r.place pos) := rfl

@[simp] theorem retouch_inside (withIn : Bool) :
    retouch r (Visibility.inside pos withIn path) = .inside (r.place pos) withIn (retouch r path) :=
  rfl

@[simp] theorem retouch_named (fields : Separated Field) :
    retouch r (Fields.named fields) = .named (retouch r fields) := rfl

@[simp] theorem retouch_tupleFields (fields : Separated Field) :
    retouch r (Fields.tuple fields) = .tuple (retouch r fields) := rfl

@[simp] theorem retouch_unit : retouch r Fields.unit = .unit := rfl

@[simp] theorem retouch_struct (decl : Struct) :
    retouch r (Item.struct decl) = .struct (retouch r decl) := rfl

@[simp] theorem retouch_other : retouch r (Item.other tokens) = .other (retouch r tokens) := rfl

end ItemConstructors

section ItemProjections

variable (generics : Generics) (field : Field) (decl : Struct) (p : QPath) (found : FunctionInputs)
  (lit : Parser.Lit) (s : Stream) (error : SyntaxError)

@[simp] theorem params_retouch : (retouch r generics).params = retouch r generics.params := rfl
@[simp] theorem conditions_retouch :
    (retouch r generics).conditions = retouch r generics.conditions := rfl
@[simp] theorem field_attrs_retouch : (retouch r field).attrs = retouch r field.attrs := rfl
@[simp] theorem field_visibility_retouch :
    (retouch r field).visibility = retouch r field.visibility := rfl
@[simp] theorem field_ident_retouch : (retouch r field).ident = retouch r field.ident := rfl
@[simp] theorem field_type_retouch : (retouch r field).type = retouch r field.type := rfl
@[simp] theorem decl_attrs_retouch : (retouch r decl).attrs = retouch r decl.attrs := rfl
@[simp] theorem decl_visibility_retouch :
    (retouch r decl).visibility = retouch r decl.visibility := rfl
@[simp] theorem decl_pos_retouch : (retouch r decl).pos = r.place decl.pos := rfl
@[simp] theorem decl_ident_retouch : (retouch r decl).ident = retouch r decl.ident := rfl
@[simp] theorem decl_generics_retouch : (retouch r decl).generics = retouch r decl.generics := rfl
@[simp] theorem decl_fields_retouch : (retouch r decl).fields = retouch r decl.fields := rfl
@[simp] theorem self_retouch : (retouch r p).self = retouch r p.self := rfl
@[simp] theorem rooted_retouch : (retouch r p).rooted = p.rooted := rfl
@[simp] theorem segments_retouch : (retouch r p).segments = retouch r p.segments := rfl
@[simp] theorem inputs_retouch : (retouch r found).inputs = retouch r found.inputs := rfl
@[simp] theorem variadic_retouch : (retouch r found).variadic = retouch r found.variadic := rfl
@[simp] theorem retouch_lit (text : String) (kind : Option Literal.Kind) (pos : Pos)
    (tokens : Tokens) :
    retouch r (Parser.Lit.mk text kind pos tokens) = ⟨text, kind, r.place pos, retouch r tokens⟩ := rfl
@[simp] theorem lit_text_retouch : (retouch r lit).text = lit.text := rfl
@[simp] theorem lit_kind_retouch : (retouch r lit).kind = lit.kind := rfl
@[simp] theorem lit_pos_retouch : (retouch r lit).pos = r.place lit.pos := rfl
@[simp] theorem lit_tokens_retouch : (retouch r lit).tokens = retouch r lit.tokens := rfl
@[simp, grind =] theorem stream_tokens_retouch : (retouch r s).tokens = retouch r s.tokens := rfl
@[simp, grind =] theorem stop_retouch : (retouch r s).stop = r.place s.stop := rfl
@[simp, grind =] theorem delim_retouch : (retouch r s).delim = s.delim := rfl
@[simp, grind =] theorem leftover_retouch : (retouch r s).leftover = retouch r s.leftover := rfl
@[simp, grind =] theorem error_pos_retouch : (retouch r error).pos = r.place error.pos := rfl
@[simp, grind =] theorem cause_retouch : (retouch r error).cause = error.cause := rfl

end ItemProjections

end Grammar

end Fieldwise
