import Fieldwise.Plan

/-!
# The expansion of a declaration

The code that takes the place of an annotated declaration: the struct with its stored fields, and an
implementation with the constructor, the static members as functions, and the computed members as getters.
Types and values that are generated as text are parsed before they are put in, so a text that is no type or
no expression is a fault.
-/

namespace Fieldwise

open Fieldwise.Grammar

/-- The constructor as trees. -/
structure Constructor where
  /-- How far it can be seen. -/
  access : Access
  /-- The parameters with their types. -/
  params : List (Ident × Ty)
  /-- The fields with their values; a field without one takes the parameter of its name. -/
  fields : List (Ident × Option Expr)
  deriving Inhabited

/-- A member that is lifted out of the struct into a function. -/
structure Accessor where
  /-- The visibility of the member. -/
  visibility : Visibility
  /-- The name of the member. -/
  ident : Ident
  /-- The type of the member. -/
  type : Ty
  /-- The tokens of its value. -/
  body : Tokens
  deriving Inhabited

/-- The code for a declaration. -/
structure Expansion where
  /-- The struct with its stored fields. -/
  decl : Struct
  /-- The constructor. -/
  constructor : Constructor
  /-- The static members. -/
  statics : List Accessor
  /-- The computed members. -/
  getters : List Accessor
  deriving Inhabited

/-- Parse generated source text. -/
def parseGenerated {α : Type} (parser : Tokens → Except SyntaxError α) (source : String) :
    Except Fault α :=
  match parseText parser source with
  | .ok value => .ok value
  | .error error => .error (.malformed error)

/-- What becomes of a field. -/
inductive Placement where
  | stored (field : Field)
  | static (accessor : Accessor)
  | getter (accessor : Accessor)

namespace Placement

/-- The stored field. -/
def stored? : Placement → Option Field
  | stored field => some field
  | _ => none

/-- The static member. -/
def static? : Placement → Option Accessor
  | static accessor => some accessor
  | _ => none

/-- The computed member. -/
def getter? : Placement → Option Accessor
  | getter accessor => some accessor
  | _ => none

/-- A stored field; a placeholder gives way to the type of the member. -/
def ofStored (field : Field) (type : Descriptor) : Except Fault Placement :=
  match field.type with
  | .infer => do
    let found ← parseGenerated parseType type.text
    return stored { field with type := found }
  | _ => .ok (stored field)

/-- What becomes of a field with a classified member. -/
def of (field : Field) (classified : Classified) : Except Fault Placement :=
  let member := classified.member
  match classified.role with
  | .static type =>
    match member.options.initial with
    | none => .error (.staticWithoutValue member.name member.ident.pos)
    | some value => do
      let body ← parseGenerated parseExpr (value.lower (some type))
      let found ← parseGenerated parseType type.text
      return static ⟨member.visibility, member.ident, found, body.tokens⟩
  | .computed type => do
    let found ← parseGenerated parseType type.text
    let body := (member.options.computed.map Expr.tokens).getD []
    return getter ⟨member.visibility, member.ident, found, body⟩
  | .parameter type _ => ofStored field type
  | .initialized type => ofStored field type

/-- What becomes of fields and their members in order. -/
def ofAll : List Field → List Classified → Except Fault (List Placement)
  | field :: fields, classified :: members => do
    let first ← of field classified
    return first :: (← ofAll fields members)
  | _, _ => .ok []

end Placement

namespace Constructor

/-- The parameter and the assignment of a stored field. -/
structure Part where
  /-- The parameter, if the field has one. -/
  param : Option (Ident × Ty)
  /-- The assignment. -/
  field : Ident × Option Expr

/-- Parse the texts that a plan has for a field. -/
def part : FieldInit → Except Fault Part
  | .parameter p => do
    let type ← parseGenerated parseType p.typeText
    match p.valueText? with
    | some shown => do
      let value ← parseGenerated parseExpr shown
      return ⟨some (p.ident, type), p.ident, some value⟩
    | none => return ⟨some (p.ident, type), p.ident, none⟩
  | .value ident shown => do
    let value ← parseGenerated parseExpr shown
    return ⟨none, ident, some value⟩

/-- Parse the texts that a plan has for its fields in order. -/
def parts : List FieldInit → Except Fault (List Part)
  | [] => .ok []
  | field :: rest => do
    let first ← part field
    return first :: (← parts rest)

/-- The constructor of a plan. -/
def ofPlan (plan : Plan) : Except Fault Constructor := do
  let found ← parts plan.fields
  return ⟨plan.access, found.filterMap Part.param, found.map Part.field⟩

/-- The tokens of an access level. -/
def accessTokens : Access → Tokens
  | .confined => []
  | .internal => term "pub" ++ wrap .paren (term "crate")
  | .exported => term "pub"

/-- The tokens of an assignment. -/
def assignmentTokens : Ident × Option Expr → Tokens
  | (name, some value) => name.token :: sign ":" ++ value.tokens
  | (name, none) => [name.token]

/-- The tokens of a constructor. -/
def tokens (constructor : Constructor) : Tokens :=
  accessTokens constructor.access ++ term "fn" ++ term "new" ++
    wrap .paren (joined (sign ",")
      (constructor.params.map fun param => param.1.token :: sign ":" ++ param.2.tokens) false) ++
    sign "->" ++ term "Self" ++
    wrap .brace (term "Self" ++
      wrap .brace (joined (sign ",") (constructor.fields.map assignmentTokens) false))

end Constructor

/-- The tokens of a lifted member with its parameter list. -/
def Accessor.tokens (params : Tokens) (accessor : Accessor) : Tokens :=
  accessor.visibility.tokens ++ term "fn" ++ [accessor.ident.token] ++ wrap .paren params ++
    sign "->" ++ accessor.type.tokens ++ wrap .brace accessor.body

namespace Expansion

/-- The code for an analysed declaration. -/
def ofAnalysis (analysis : Analysis) : Except Fault Expansion := do
  let decl := analysis.host.decl
  let placements ← Placement.ofAll (decl.namedFields) analysis.members
  let constructor ← Constructor.ofPlan analysis.plan
  return ⟨decl.withFields (placements.filterMap Placement.stored?), constructor,
    placements.filterMap Placement.static?, placements.filterMap Placement.getter?⟩

/-- The tokens of an expansion. -/
def tokens (expansion : Expansion) : Tokens :=
  let decl := expansion.decl
  let self := sign "&" ++ term "self"
  decl.tokens ++ term "impl" ++ decl.generics.tokens .implemented ++ [decl.ident.token] ++
    decl.generics.tokens .applied ++ decl.generics.whereTokens ++
    wrap .brace (expansion.constructor.tokens ++ expansion.statics.flatMap (Accessor.tokens []) ++
      expansion.getters.flatMap (Accessor.tokens self))

end Expansion

/-- Expand a declaration under the arguments of its annotation. -/
def expand (args item : Tokens) : Except Fault Expansion := do
  Expansion.ofAnalysis (← analyze args item)

end Fieldwise
