import Fieldwise.Grammar.Parse
import Fieldwise.Token.Printer

/-!
# Type descriptors

A descriptor is a type as constructors see it: a name written out, a container with its elements, or a
callable. Types that are written explicitly stay names; their container structure is read from the name
when a value has to be fitted to it.
-/

namespace Fieldwise

open Fieldwise.Grammar

/-- The type of a parameter or a stored member. -/
inductive Descriptor where
  /-- A type written out. -/
  | named (text : String)
  | array (element : Descriptor)
  | map (key value : Descriptor)
  | optional (inner : Descriptor)
  /-- A callable: the type written out, its bounds, and whether it is stored by its owner and so
  outlives the call that takes it. -/
  | callable (text bounds : String) (escapes : Bool)
  deriving DecidableEq, Inhabited

namespace Descriptor

/-- An optional type; one that is optional already stays as it is. -/
def optionally : Descriptor → Descriptor
  | optional inner => optional inner
  | other => optional other

/-- The type of truth values. -/
def bool : Descriptor := named "bool"

/-- The type of texts. -/
def string : Descriptor := named "String"

/-- The type of characters. -/
def char : Descriptor := named "char"

/-- The type of whole numbers without a suffix. -/
def int : Descriptor := named "i32"

/-- The type of fractions without a suffix. -/
def double : Descriptor := named "f64"

/-- A descriptor as source text. -/
def text : Descriptor → String
  | named name => name
  | array element => "Vec<" ++ element.text ++ ">"
  | map key value => "::std::collections::HashMap<" ++ key.text ++ ", " ++ value.text ++ ">"
  | optional inner => "Option<" ++ inner.text ++ ">"
  | callable shown _ _ => shown

/-- Whether a descriptor is this name. -/
def isNamed (descriptor : Descriptor) (name : String) : Bool := descriptor == named name

/-- Whether a callable outlives the call that takes it. -/
def escapes : Descriptor → Bool
  | callable _ _ escapes => escapes
  | _ => false

/-- Whether bounds written out hold a lifetime. -/
def hasLifetime (bounds : String) : Bool :=
  (bounds.toList.splitOn '+').any fun bound =>
    (bound.dropWhile Text.isWhitespace).head? == some '\''

/-- The type written in a parameter list. A callable that outlives the call is taken by its bounds, with
a lifetime among them. -/
def parameterText : Descriptor → String
  | callable _ bounds true =>
    if hasLifetime bounds then "impl " ++ bounds else "impl " ++ bounds ++ " + 'static"
  | other => other.text

/-- Whether a bound is one of the traits of callables. -/
def isCallableBound : Bound → Bool
  | .trait _ _ _ _ segments =>
    segments.getLast?.any fun segment =>
      ["Fn", "FnMut", "FnOnce"].contains segment.ident.name
  | _ => false

/-- The bounds of a trait object as source text. -/
def boundsText (bounds : List Bound) (trailing : Bool) : String :=
  Tokens.text (joined (sign "+") (Bound.tokensAll bounds) trailing)

/-- The bounds of the callable trait object that is the sole argument of a box. -/
def boxedBounds? (segments : List Segment) : Option String :=
  match segments.getLast? with
  | some (.mk name (.angle _ [.type (.traitObject _ bounds trailing)] _)) =>
    if name.name == "Box" && bounds.any isCallableBound then some (boundsText bounds trailing)
    else none
  | _ => none

/-- The descriptor of a type that is written out; nothing for the placeholder. -/
def ofType? : Ty → Option Descriptor
  | .infer => none
  | .group inner => ofType? inner
  | .function binder isUnsafe abi inputs trailing variadic output =>
    let shown := Tokens.text
      (Ty.tokens (.function binder isUnsafe abi inputs trailing variadic output))
    some (callable shown shown false)
  | .reference lifetime isMut target =>
    let shown := Tokens.text (Ty.tokens (.reference lifetime isMut target))
    match target with
    | .traitObject _ bounds trailing =>
      if bounds.any isCallableBound then some (callable shown (boundsText bounds trailing) false)
      else some (named shown)
    | _ => some (named shown)
  | .path rooted segments =>
    let shown := Tokens.text (Ty.tokens (.path rooted segments))
    match boxedBounds? segments with
    | some bounds => some (callable shown bounds true)
    | none => some (named shown)
  | other => some (named (Tokens.text other.tokens))

/-- The container that a name with arguments stands for. -/
def container? (name : String) (args : List Descriptor) : Option Descriptor :=
  match name, args with
  | "String", [] => some string
  | "Vec", [element] => some (array element)
  | "Option", [inner] => some (optional inner)
  | "HashMap", key :: value :: _ => some (map key value)
  | "BTreeMap", key :: value :: _ => some (map key value)
  | _, _ => none

section Structure

variable (leaf : Ty → Descriptor)

mutual

/-- The container structure of a type, if it has one, where types without structure are described in this
way. -/
def shapeWith? : Ty → Option Descriptor
  | .path _ segments => lastShape? segments
  | _ => none

/-- The container structure that the last segment of a path names. -/
def lastShape? : List Segment → Option Descriptor
  | [] => none
  | [last] => segmentShape? last
  | _ :: rest => lastShape? rest

/-- The container structure that a segment names. -/
def segmentShape? : Segment → Option Descriptor
  | .mk name args =>
    match argShapes? args with
    | some shapes => container? name.name shapes
    | none => none

/-- The structures of the types among arguments; nothing for arguments in parentheses. -/
def argShapes? : Args → Option (List Descriptor)
  | .none => some []
  | .angle _ items _ => some (itemShapes items)
  | .call _ _ _ => none

/-- The structures of the types among arguments. -/
def itemShapes : List GenericArg → List Descriptor
  | [] => []
  | item :: rest => itemShape item ++ itemShapes rest

/-- The structure of an argument, if it is a type. -/
def itemShape : GenericArg → List Descriptor
  | .type type => [(shapeWith? type).getD (leaf type)]
  | _ => []

end

/-- The container structure of a type written out; a text without one is a name. -/
def readWith (name : String) : Descriptor :=
  match parseText parseType name with
  | .ok type => (shapeWith? leaf type).getD (named name)
  | .error _ => named name

end Structure

/-- A type without structure by its text, which is read again, so many times. A text can begin a comment
between signs that stood apart, and then it is not read as the type it is written from. -/
def leafTo : Nat → Ty → Descriptor
  | 0, type => named (Tokens.text type.tokens)
  | depth + 1, type => readWith (leafTo depth) (Tokens.text type.tokens)

/-- A type without structure by its text. Each time a text is read for a structure, the types in it have
fewer tokens than the whole. -/
def leaf (type : Ty) : Descriptor := leafTo (Token.sizeAll type.tokens) type

/-- The container structure of a type, if it has one. -/
def shapeOf? : Ty → Option Descriptor := shapeWith? leaf

/-- The container structure of a descriptor: a name is read as a type, everything else stays. -/
def shape : Descriptor → Descriptor
  | named name => readWith leaf name
  | other => other

/-- The structure of a name is that of the type it is read as; a name without one stays. -/
theorem shape_named (name : String) :
    shape (named name) =
      match parseText parseType name with
      | .ok type => (shapeOf? type).getD (named name)
      | .error _ => named name := rfl

/-- The structure of a path is that of its last segment. -/
theorem shapeOf?_path (rooted : Bool) (segments : List Segment) :
    shapeOf? (.path rooted segments) = lastShape? leaf segments := by rw [shapeOf?, shapeWith?]

end Descriptor

end Fieldwise
