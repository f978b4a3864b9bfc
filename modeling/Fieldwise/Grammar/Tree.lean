import Fieldwise.Grammar.Stream

/-!
# Types, attributes and items as trees

The parts of a declaration that the library takes apart: names, attributes, visibilities, types with
their paths and bounds, generic parameters, and structs. Expressions, patterns and the items that are
only passed through keep their tokens. Lists record whether a separator follows the last item, so that a
tree can be written out as it was read.
-/

namespace Fieldwise.Grammar

/-- A word at a place. -/
structure Ident where
  /-- The word, with its raw marker if it has one. -/
  name : String
  /-- Where it stands. -/
  pos : Pos
  deriving DecidableEq, Inhabited

/-- A lifetime: a word after an apostrophe. -/
structure Lifetime where
  /-- Where the apostrophe stands. -/
  pos : Pos
  /-- The word after it. -/
  ident : Ident
  deriving DecidableEq, Inhabited

/-- A path of words alone, as attributes and visibilities have it. -/
structure ModPath where
  /-- Whether the path begins with a separator. -/
  rooted : Bool
  /-- The words; there is at least one. -/
  names : List Ident
  deriving DecidableEq, Inhabited

/-- Whether a path is this one word. -/
def ModPath.isWord (path : ModPath) (name : String) : Bool :=
  !path.rooted && path.names.map Ident.name == [name]

/-- What a parser has to know about an expression it has read, beside its tokens. -/
inductive ExprKind where
  /-- A range, which no operator may follow. -/
  | range
  /-- A comparison, which cannot be chained. -/
  | comparison
  /-- A construct that ends a statement without a semicolon. -/
  | block
  /-- A macro call with braces. -/
  | bracedCall
  /-- Any other expression. -/
  | other
  deriving DecidableEq, Inhabited

/-- What a parser has to know about a pattern it has read, beside its tokens. -/
inductive PatternKind where
  /-- The rest of a sequence. -/
  | rest
  /-- A range without one of its ends, with the place of its operator. -/
  | openRange (pos : Pos)
  /-- Any other pattern. -/
  | other
  deriving DecidableEq, Inhabited

/-- A pattern: its tokens, each operator set as the grammar reads it. -/
structure Pattern where
  /-- What matters about it to the parser. -/
  kind : PatternKind
  /-- Its tokens. -/
  tokens : Tokens
  deriving Inhabited

/-- An expression: its tokens, each operator set as the grammar reads it. -/
structure Expr where
  /-- What matters about it to the parser. -/
  kind : ExprKind
  /-- Its tokens. -/
  tokens : Tokens
  deriving Inhabited

/-- What follows the path of an attribute. -/
inductive AttributeValue where
  /-- Nothing. -/
  | word
  /-- Tokens between delimiters, kept as they are. -/
  | list (delim : Delim) (body : Tokens) (opening closing : Pos)
  /-- An equals sign, at a place, and a value. -/
  | value (equals : Pos) (value : Tokens)
  deriving Inhabited

/-- An attribute. -/
structure Attribute where
  /-- Whether it belongs to what encloses it. -/
  inner : Bool
  /-- Where it begins. -/
  pos : Pos
  /-- Where its bracket closes. -/
  closing : Pos
  /-- What it names. -/
  path : ModPath
  /-- What it says. -/
  value : AttributeValue
  deriving Inhabited

/-- A lifetime with the lifetimes that it outlives, as a parameter. -/
structure LifetimeParam where
  /-- Its attributes. -/
  attrs : List Attribute
  /-- Its name. -/
  lifetime : Lifetime
  /-- What it outlives. -/
  bounds : Separated Lifetime
  deriving Inhabited

/-- The lifetimes that a type or bound quantifies over. -/
abbrev Binder := Separated LifetimeParam

mutual

/-- A type. -/
inductive Ty where
  /-- Elements of one type, as many as an expression gives. -/
  | array (element : Ty) (length : Expr)
  /-- A pointer to a function. -/
  | function (binder : Option Binder) (isUnsafe : Bool) (abi : Option (Option Token))
      (inputs : List FunctionInput) (trailing : Bool) (variadic : Option Tokens)
      (output : Option Ty)
  /-- A type inside an invisible group. -/
  | group (inner : Ty)
  /-- Some type that satisfies bounds. -/
  | implTrait (bounds : List Bound) (trailing : Bool)
  /-- A placeholder to be inferred. -/
  | infer
  /-- A macro call. -/
  | call (path : ModPath) (delim : Delim) (body : Tokens)
  /-- The type without values. -/
  | never
  /-- A type in parentheses. -/
  | paren (inner : Ty)
  /-- A named type. -/
  | path (rooted : Bool) (segments : List Segment)
  /-- A type named through another one; so many segments name the trait it belongs to. -/
  | projection (self : Ty) (position : Nat) (rooted : Bool) (segments : List Segment)
  /-- A raw pointer. -/
  | pointer (isMut : Bool) (target : Ty)
  /-- A reference. -/
  | reference (lifetime : Option Lifetime) (isMut : Bool) (target : Ty)
  /-- Elements of one type, any number of them. -/
  | slice (element : Ty)
  /-- Any value that satisfies bounds, with or without the leading keyword. -/
  | traitObject (isDyn : Bool) (bounds : List Bound) (trailing : Bool)
  /-- A fixed sequence of types. -/
  | tuple (elements : List Ty) (trailing : Bool)
  /-- Tokens that the grammar admits and does not take apart. -/
  | verbatim (tokens : Tokens)

/-- A word of a path with its arguments. -/
inductive Segment where
  | mk (ident : Ident) (args : Args)

/-- The arguments of a path segment. -/
inductive Args where
  /-- No arguments. -/
  | none
  /-- Arguments between angle brackets, with or without a path separator before them. -/
  | angle (turbofish : Bool) (items : List GenericArg) (trailing : Bool)
  /-- Argument types in parentheses and a result type. -/
  | call (inputs : List Ty) (trailing : Bool) (output : Option Ty)

/-- An argument between angle brackets. -/
inductive GenericArg where
  | lifetime (lifetime : Lifetime)
  | type (type : Ty)
  | const (value : Expr)
  /-- An associated type with its value. -/
  | assocType (ident : Ident) (args : Args) (type : Ty)
  /-- An associated constant with its value. -/
  | assocConst (ident : Ident) (args : Args) (value : Expr)
  /-- An associated type with its bounds. -/
  | constraint (ident : Ident) (args : Args) (bounds : List Bound) (trailing : Bool)

/-- What a type has to satisfy. -/
inductive Bound where
  | lifetime (lifetime : Lifetime)
  /-- A trait, perhaps in parentheses, perhaps relaxed by a question mark. -/
  | trait (inParens : Bool) (relaxed : Bool) (binder : Option Binder) (rooted : Bool)
      (segments : List Segment)
  /-- The parameters that a hidden type may mention. -/
  | capture (tokens : Tokens)
  /-- A trait that only constant evaluation can use, kept as its tokens. -/
  | verbatim (tokens : Tokens)

/-- A parameter of a function pointer. -/
inductive FunctionInput where
  | mk (attrs : List Attribute) (name : Option Ident) (type : Ty)

end

instance : Inhabited Ty := ⟨.infer⟩

/-- The word of a segment. -/
def Segment.ident : Segment → Ident
  | .mk ident _ => ident

/-- The arguments of a segment. -/
def Segment.args : Segment → Args
  | .mk _ args => args

/-- Whether a segment has no arguments. -/
def Args.isNone : Args → Bool
  | .none => true
  | _ => false

/-- A generic parameter. -/
inductive GenericParam where
  | lifetime (param : LifetimeParam)
  | type (attrs : List Attribute) (ident : Ident) (bounds : Separated Bound) (default : Option Ty)
  | const (attrs : List Attribute) (ident : Ident) (type : Ty) (default : Option Expr)
  deriving Inhabited

/-- A condition of a where clause. -/
inductive Predicate where
  | lifetime (lifetime : Lifetime) (bounds : Separated Lifetime)
  | type (binder : Option Binder) (bounded : Ty) (bounds : Separated Bound)

/-- Generic parameters and the conditions on them. -/
structure Generics where
  /-- The parameters in order. -/
  params : Separated GenericParam
  /-- The conditions. -/
  conditions : Separated Predicate
  deriving Inhabited

/-- A visibility as it is written. -/
inductive Visibility where
  /-- Nothing is written. -/
  | inherited
  /-- Visible everywhere. -/
  | everywhere (pos : Pos)
  /-- Visible inside a module, with or without the word before its path. -/
  | inside (pos : Pos) (withIn : Bool) (path : ModPath)
  deriving Inhabited

/-- A field of a struct. Fields of a tuple have no name. -/
structure Field where
  /-- Its attributes. -/
  attrs : List Attribute
  /-- Its visibility. -/
  visibility : Visibility
  /-- Its name. -/
  ident : Option Ident
  /-- Its type. -/
  type : Ty
  deriving Inhabited

/-- The fields of a struct. -/
inductive Fields where
  | named (fields : Separated Field)
  | tuple (fields : Separated Field)
  | unit
  deriving Inhabited

/-- A struct declaration. -/
structure Struct where
  /-- Its attributes. -/
  attrs : List Attribute
  /-- Its visibility. -/
  visibility : Visibility
  /-- Where its keyword stands. -/
  pos : Pos
  /-- Its name. -/
  ident : Ident
  /-- Its generic parameters. -/
  generics : Generics
  /-- Its fields. -/
  fields : Fields
  deriving Inhabited

namespace Struct

/-- The fields of a struct that has names for them. -/
def namedFields (decl : Struct) : List Field :=
  match decl.fields with
  | .named fields => fields.items
  | _ => []

/-- The names of the fields. -/
def fieldNames (decl : Struct) : List String :=
  decl.namedFields.filterMap fun field => field.ident.map Ident.name

/-- The struct with these named fields instead of its own. -/
def withFields (decl : Struct) (fields : List Field) : Struct :=
  match decl.fields with
  | .named _ => { decl with fields := .named ⟨fields, false⟩ }
  | _ => decl

end Struct

/-- An item. All but structs and inline modules are passed through as tokens. -/
inductive Item where
  | struct (decl : Struct)
  /-- A module with the items in it. -/
  | module (items : List Item) (tokens : Tokens)
  | other (tokens : Tokens)

end Fieldwise.Grammar
