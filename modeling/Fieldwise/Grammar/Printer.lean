import Fieldwise.Grammar.Tree

/-!
# Trees as tokens

Every tree can be written back as tokens. Words and values that a tree keeps stand at their own places,
the punctuation that the grammar implies stands at the call site. Lifetimes are written before the other
arguments and parameters of a list, whatever their order was, and a comma is put in where the new order
needs one.
-/

namespace Fieldwise.Grammar

/-- The tokens of an operator at the call site. -/
def sign (text : String) : Tokens := Token.operator Pos.callSite text.toList

/-- A word at the call site. -/
def term (name : String) : Tokens := [.ident name Pos.callSite]

/-- A group at the call site. -/
def wrap (delim : Delim) (body : Tokens) : Tokens :=
  [.group delim body Pos.callSite Pos.callSite]

/-- Pieces with a separator between them, and one after the last if asked. -/
def joined (separator : Tokens) : List Tokens → Bool → Tokens
  | [], _ => []
  | [piece], trailing => piece ++ (if trailing then separator else [])
  | piece :: rest, trailing => piece ++ separator ++ joined separator rest trailing

/-- Every piece of a list with the mark whether a separator follows it. -/
def marked {α : Type} : List α → Bool → List (α × Bool)
  | [], _ => []
  | [piece], trailing => [(piece, trailing)]
  | piece :: rest, trailing => (piece, true) :: marked rest trailing

/-- One piece after others of a list, and whether the list now ends with a comma or is empty. A
comma is put in where the text before lacks one. -/
def appendPiece (done : Tokens × Bool) (piece : Tokens × Bool) : Tokens × Bool :=
  (done.1 ++ (if done.2 then [] else sign ",") ++ piece.1 ++ (if piece.2 then sign "," else []),
    piece.2)

/-- Write the pieces that are lifetimes first, then the others. -/
def lifetimesFirst (pieces : List (Bool × Tokens)) (trailing : Bool) : Tokens :=
  let all := marked pieces trailing
  let early := all.filter fun piece => piece.1.1
  let late := all.filter fun piece => !piece.1.1
  let lead := (early.map fun piece =>
    piece.1.2 ++ (if piece.2 then sign "," else [])).flatten
  let closed := (early.getLast?.map Prod.snd).getD true
  (late.foldl (fun done piece => appendPiece done (piece.1.2, piece.2)) (lead, closed)).1

/-- The token of a name. -/
def Ident.token (ident : Ident) : Token := .ident ident.name ident.pos

/-- The tokens of a lifetime. -/
def Lifetime.tokens (lifetime : Lifetime) : Tokens :=
  [.punct '\'' .joint lifetime.pos, lifetime.ident.token]

/-- The tokens of a path of words. -/
def ModPath.tokens (path : ModPath) : Tokens :=
  (if path.rooted then sign "::" else []) ++
    joined (sign "::") (path.names.map fun name => [name.token]) false

/-- The tokens of what an attribute says. -/
def AttributeValue.tokens : AttributeValue → Tokens
  | .word => []
  | .list delim body opening closing => [.group delim body opening closing]
  | .value equals shown => .punct '=' .alone equals :: shown

/-- The tokens of an attribute. -/
def Attribute.tokens (attr : Attribute) : Tokens :=
  .punct '#' .alone attr.pos :: (if attr.inner then [.punct '!' .alone attr.pos] else []) ++
    [.group .bracket (attr.path.tokens ++ attr.value.tokens) attr.pos attr.closing]

/-- The tokens of attributes that stand before an item. -/
def attrsTokens (attrs : List Attribute) : Tokens :=
  (attrs.filter fun attr => !attr.inner).flatMap Attribute.tokens

/-- The tokens of a lifetime parameter. -/
def LifetimeParam.tokens (param : LifetimeParam) : Tokens :=
  attrsTokens param.attrs ++ param.lifetime.tokens ++
    (if param.bounds.items.isEmpty then []
     else sign ":" ++ joined (sign "+") (param.bounds.items.map Lifetime.tokens)
       param.bounds.trailing)

/-- The tokens of quantified lifetimes. -/
def Binder.tokens (binder : Binder) : Tokens :=
  term "for" ++ sign "<" ++
    joined (sign ",") (binder.items.map LifetimeParam.tokens) binder.trailing ++ sign ">"

/-- The tokens of optional quantified lifetimes. -/
def binderTokens : Option Binder → Tokens
  | none => []
  | some binder => Binder.tokens binder

/-- Whether an argument is a lifetime. -/
def GenericArg.isLifetime : GenericArg → Bool
  | .lifetime _ => true
  | _ => false

/-- The segments of a projection: those of the trait stand inside the angle brackets. -/
def projectionTokens (self : Tokens) (position : Nat) (rooted : Bool)
    (segments : List Tokens) : Tokens :=
  let root := if rooted then sign "::" else []
  if position = 0 then
    sign "<" ++ self ++ sign ">" ++ root ++ joined (sign "::") segments false
  else
    sign "<" ++ self ++ term "as" ++ root ++ joined (sign "::") (segments.take position) false ++
      sign ">" ++ sign "::" ++ joined (sign "::") (segments.drop position) false

/-- The tokens of a function pointer around its parts. -/
def functionTokens (binder : Option Binder) (isUnsafe : Bool) (abi : Option (Option Token))
    (inputs : Tokens) (variadic : Option Tokens) (output : Tokens) : Tokens :=
  binderTokens binder ++ (if isUnsafe then term "unsafe" else []) ++
    (match abi with
      | none => []
      | some none => term "extern"
      | some (some name) => term "extern" ++ [name]) ++
    term "fn" ++ wrap .paren (inputs ++ variadic.getD []) ++ output

mutual

/-- The tokens of a type. -/
def Ty.tokens : Ty → Tokens
  | .array element length => wrap .bracket (element.tokens ++ sign ";" ++ length.tokens)
  | .function binder isUnsafe abi inputs trailing variadic output =>
    functionTokens binder isUnsafe abi
      (joined (sign ",") (FunctionInput.tokensAll inputs) trailing) variadic
      (Ty.outputTokens output)
  | .group inner => wrap .invisible inner.tokens
  | .implTrait bounds trailing =>
    term "impl" ++ joined (sign "+") (Bound.tokensAll bounds) trailing
  | .infer => term "_"
  | .call path delim body => path.tokens ++ sign "!" ++ wrap delim body
  | .never => sign "!"
  | .paren inner => wrap .paren inner.tokens
  | .path rooted segments =>
    (if rooted then sign "::" else []) ++ joined (sign "::") (Segment.tokensAll segments) false
  | .projection self position rooted segments =>
    projectionTokens self.tokens position rooted (Segment.tokensAll segments)
  | .pointer isMut target =>
    sign "*" ++ term (if isMut then "mut" else "const") ++ target.tokens
  | .reference lifetime isMut target =>
    sign "&" ++ (match lifetime with | none => [] | some name => name.tokens) ++
      (if isMut then term "mut" else []) ++ target.tokens
  | .slice element => wrap .bracket element.tokens
  | .traitObject isDyn bounds trailing =>
    (if isDyn then term "dyn" else []) ++ joined (sign "+") (Bound.tokensAll bounds) trailing
  | .tuple elements trailing =>
    wrap .paren
      (joined (sign ",") (Ty.tokensAll elements) (trailing || elements.length == 1))
  | .verbatim tokens => tokens

/-- The tokens of each of several types. -/
def Ty.tokensAll : List Ty → List Tokens
  | [] => []
  | type :: rest => type.tokens :: Ty.tokensAll rest

/-- The tokens of a result type with the arrow before it. -/
def Ty.outputTokens : Option Ty → Tokens
  | none => []
  | some type => sign "->" ++ type.tokens

/-- The tokens of a path segment. -/
def Segment.tokens : Segment → Tokens
  | .mk ident args => ident.token :: args.tokens

/-- The tokens of each of several segments. -/
def Segment.tokensAll : List Segment → List Tokens
  | [] => []
  | segment :: rest => segment.tokens :: Segment.tokensAll rest

/-- The tokens of the arguments of a segment. -/
def Args.tokens : Args → Tokens
  | .none => []
  | .angle turbofish items trailing =>
    (if turbofish then sign "::" else []) ++ sign "<" ++
      lifetimesFirst (GenericArg.piecesAll items) trailing ++ sign ">"
  | .call inputs trailing output =>
    wrap .paren (joined (sign ",") (Ty.tokensAll inputs) trailing) ++ Ty.outputTokens output

/-- The tokens of an argument. -/
def GenericArg.tokens : GenericArg → Tokens
  | .lifetime name => name.tokens
  | .type ty => ty.tokens
  | .const value => value.tokens
  | .assocType ident args ty => ident.token :: args.tokens ++ sign "=" ++ ty.tokens
  | .assocConst ident args value => ident.token :: args.tokens ++ sign "=" ++ value.tokens
  | .constraint ident args bounds trailing =>
    ident.token :: args.tokens ++ sign ":" ++
      joined (sign "+") (Bound.tokensAll bounds) trailing

/-- The tokens of each of several arguments, with the mark whether it is a lifetime. -/
def GenericArg.piecesAll : List GenericArg → List (Bool × Tokens)
  | [] => []
  | arg :: rest => (arg.isLifetime, arg.tokens) :: GenericArg.piecesAll rest

/-- The tokens of a bound. -/
def Bound.tokens : Bound → Tokens
  | .lifetime name => name.tokens
  | .trait inParens relaxed binder rooted segments =>
    let inside := (if relaxed then sign "?" else []) ++ binderTokens binder ++
      (if rooted then sign "::" else []) ++
      joined (sign "::") (Segment.tokensAll segments) false
    if inParens then wrap .paren inside else inside
  | .capture tokens => tokens
  | .verbatim tokens => tokens

/-- The tokens of each of several bounds. -/
def Bound.tokensAll : List Bound → List Tokens
  | [] => []
  | bound :: rest => bound.tokens :: Bound.tokensAll rest

/-- The tokens of a parameter of a function pointer. -/
def FunctionInput.tokens : FunctionInput → Tokens
  | .mk attrs name type =>
    attrsTokens attrs ++
      (match name with | none => [] | some ident => ident.token :: sign ":") ++ type.tokens

/-- The tokens of each of several parameters. -/
def FunctionInput.tokensAll : List FunctionInput → List Tokens
  | [] => []
  | input :: rest => input.tokens :: FunctionInput.tokensAll rest

end

/-- The tokens of bounds after a parameter or a type; the colon only if there is a bound. -/
def boundsTokens (bounds : Separated Bound) : Tokens :=
  if bounds.items.isEmpty then []
  else sign ":" ++ joined (sign "+") (Bound.tokensAll bounds.items) bounds.trailing

/-- Which of the three forms of a parameter list is written. -/
inductive ParamForm where
  /-- The declaration, with bounds and defaults. -/
  | declared
  /-- The parameters of an implementation: no defaults. -/
  | implemented
  /-- The arguments that name the type: names alone. -/
  | applied
  deriving DecidableEq

/-- The tokens of a default, which only a declaration shows. -/
def defaultTokens (form : ParamForm) (value : Option Tokens) : Tokens :=
  match form, value with
  | .declared, some tokens => sign "=" ++ tokens
  | _, _ => []

/-- The tokens of a parameter, with the mark whether it is a lifetime. -/
def GenericParam.piece (form : ParamForm) : GenericParam → Bool × Tokens
  | .lifetime param =>
    (true, if form = .applied then param.lifetime.tokens else param.tokens)
  | .type attrs ident bounds default =>
    (false,
      if form = .applied then [ident.token]
      else attrsTokens attrs ++ [ident.token] ++ boundsTokens bounds ++
        defaultTokens form (default.map Ty.tokens))
  | .const attrs ident ty default =>
    (false,
      if form = .applied then [ident.token]
      else attrsTokens attrs ++ term "const" ++ [ident.token] ++ sign ":" ++ ty.tokens ++
        defaultTokens form (default.map Expr.tokens))

/-- The tokens of a parameter list; none for an empty one. -/
def Generics.tokens (form : ParamForm) (generics : Generics) : Tokens :=
  if generics.params.items.isEmpty then []
  else
    sign "<" ++
      lifetimesFirst (generics.params.items.map (GenericParam.piece form))
        generics.params.trailing ++
      sign ">"

/-- The tokens of a condition. -/
def Predicate.tokens : Predicate → Tokens
  | .lifetime name bounds =>
    name.tokens ++ sign ":" ++
      joined (sign "+") (bounds.items.map Lifetime.tokens) bounds.trailing
  | .type binder bounded bounds =>
    binderTokens binder ++ bounded.tokens ++ sign ":" ++
      joined (sign "+") (Bound.tokensAll bounds.items) bounds.trailing

/-- The tokens of a where clause; none for an empty one. -/
def Generics.whereTokens (generics : Generics) : Tokens :=
  if generics.conditions.items.isEmpty then []
  else
    term "where" ++ joined (sign ",") (generics.conditions.items.map Predicate.tokens)
      generics.conditions.trailing

/-- The tokens of a visibility. -/
def Visibility.tokens : Visibility → Tokens
  | .inherited => []
  | .everywhere pos => [.ident "pub" pos]
  | .inside pos withIn path =>
    [.ident "pub" pos] ++ wrap .paren ((if withIn then term "in" else []) ++ path.tokens)

/-- The tokens of a field. -/
def Field.tokens (field : Field) : Tokens :=
  attrsTokens field.attrs ++ field.visibility.tokens ++
    (match field.ident with | none => [] | some ident => ident.token :: sign ":") ++
    field.type.tokens

/-- The tokens of a list of fields. -/
def fieldsTokens (fields : Separated Field) : Tokens :=
  joined (sign ",") (fields.items.map Field.tokens) fields.trailing

/-- The tokens of a struct. -/
def Struct.tokens (decl : Struct) : Tokens :=
  let head := attrsTokens decl.attrs ++ decl.visibility.tokens ++ [.ident "struct" decl.pos] ++
    [decl.ident.token] ++ decl.generics.tokens .declared
  match decl.fields with
  | .named fields => head ++ decl.generics.whereTokens ++ wrap .brace (fieldsTokens fields)
  | .tuple fields =>
    head ++ wrap .paren (fieldsTokens fields) ++ decl.generics.whereTokens ++ sign ";"
  | .unit => head ++ decl.generics.whereTokens ++ sign ";"

/-- The tokens of an item. -/
def Item.tokens : Item → Tokens
  | .struct decl => decl.tokens
  | .module _ tokens => tokens
  | .other tokens => tokens

end Fieldwise.Grammar
