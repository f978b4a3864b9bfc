import Fieldwise.Directive
import Fieldwise.Host
import Fieldwise.Inference

/-!
# Roles of members

What becomes of each member: a parameter of the constructor, a field that is assigned from its own initial
value, a function of the type, or a getter. An exclusion is looked at first, then whether the member is
static, constant, or computed.
-/

namespace Fieldwise

open Fieldwise.Grammar

/-- What becomes of a member, with its type. -/
inductive Role where
  /-- Supplied by the caller, perhaps with a default. -/
  | parameter (type : Descriptor) (default : Option Default)
  /-- Stored, and assigned from its own initial value. -/
  | initialized (type : Descriptor)
  /-- Emitted as a function of the type. -/
  | static (type : Descriptor)
  /-- Emitted as a getter. -/
  | computed (type : Descriptor)
  deriving Inhabited

namespace Role

/-- The type of a member. -/
def type : Role → Descriptor
  | parameter type _ => type
  | initialized type => type
  | static type => type
  | computed type => type

/-- The default value of a parameter. -/
def default? : Role → Option Default
  | parameter _ default => default
  | _ => none

/-- Whether a member is a parameter. -/
def isParameter : Role → Bool
  | parameter _ _ => true
  | _ => false

/-- Whether a member is stored in the struct. -/
def isStored : Role → Bool
  | parameter _ _ | initialized _ => true
  | static _ | computed _ => false

end Role

/-- A member and what becomes of it. -/
structure Classified where
  /-- The member. -/
  member : Member
  /-- Its role. -/
  role : Role
  deriving Inhabited

namespace Member

/-- The fault of a member without a type. -/
def untyped (member : Member) : Fault := .untyped member.name member.ident.pos

/-- The type a member is declared with, or the type of its initial value. -/
def storedType (member : Member) : Except Fault Descriptor :=
  match member.explicit with
  | some type => .ok type
  | none =>
    match member.options.initial.bind Value.infer with
    | some type => .ok type
    | none => .error member.untyped

/-- The type a computed member is declared with. -/
def computedType (member : Member) : Except Fault Descriptor :=
  match member.explicit with
  | some type => .ok type
  | none => .error member.untyped

/-- What becomes of a member under some directives. -/
def role (directives : Directives) (member : Member) : Except Fault Role :=
  let initialised := member.options.initial.isSome
  match directives.excluded? member.name with
  | some exclusion =>
    if initialised then
      if member.options.isStatic then Role.static <$> member.storedType
      else Role.initialized <$> member.storedType
    else .error (.excludedWithoutValue member.name exclusion.pos)
  | none =>
    if member.options.isStatic then
      if initialised then Role.static <$> member.storedType
      else .error (.staticWithoutValue member.name member.ident.pos)
    else if member.options.isConstant && initialised then Role.initialized <$> member.storedType
    else if member.options.computed.isSome then Role.computed <$> member.computedType
    else
      (fun type => Role.parameter type (directives.default? member.name)) <$> member.storedType

end Member

/-- The roles of members in order, or the fault of the first member that has none. -/
def classify (directives : Directives) : List Member → Except Fault (List Classified)
  | [] => .ok []
  | member :: rest =>
    match member.role directives with
    | .error fault => .error fault
    | .ok role =>
      match classify directives rest with
      | .error fault => .error fault
      | .ok classified => .ok (⟨member, role⟩ :: classified)

end Fieldwise
