import Fieldwise.Role

/-!
# Analysis of a declaration

The checks that a declaration and the arguments of its annotation have to pass, in a fixed order: the form
of the arguments, the form and kind of the declaration, its access level, the member attributes, the role of
each member, and last the keys of the directives.
-/

namespace Fieldwise

open Fieldwise.Grammar

/-- A struct with named fields or without fields. -/
def hostStruct : Item → Except Fault Struct
  | .struct decl =>
    match decl.fields with
    | .named _ | .unit => .ok decl
    | .tuple _ => .error (.unsupported decl.ident.pos)
  | other => .error (.unsupported (startOf other.tokens))
where
  /-- Where tokens begin. -/
  startOf : Tokens → Pos
    | token :: _ => token.pos
    | [] => Pos.callSite

/-- The access level of a host, which must not be confined and not be exceeded by the request. -/
def hostAccess (decl : Struct) (directives : Directives) : Except Fault Access :=
  let host := Access.ofVisibility decl.visibility
  if host = .confined then .error (.confinedHost decl.ident.pos)
  else if host < directives.access then
    .error (.tooVisible directives.access host directives.accessPos)
  else .ok host

/-- The keys of directives with their places, exclusions first. -/
def Directives.keys (directives : Directives) : List (String × Pos) :=
  (directives.excluded.map fun exclusion => (exclusion.key, exclusion.pos)) ++
    directives.defaults.map fun default => (default.key, default.pos)

/-- Every key has to name a member. -/
def checkKeys (known : List String) (directives : Directives) : Except Fault Unit :=
  match directives.keys.find? fun key => !known.contains key.1 with
  | some (key, pos) => .error (.unknownKey key pos)
  | none => .ok ()

/-- A declaration that has passed all checks. -/
structure Analysis where
  /-- What the annotation asks for. -/
  directives : Directives
  /-- The declaration. -/
  host : Host
  /-- The members with their roles, in order. -/
  members : List Classified
  deriving Inhabited

namespace Analysis

/-- The names that keys may use: each name of a member once, in the order of code points. -/
def known (analysis : Analysis) : List String :=
  (analysis.host.members.map Member.name).eraseDups.mergeSort fun left right => !(right < left)

/-- The members that are parameters. -/
def parameters (analysis : Analysis) : List Classified :=
  analysis.members.filter fun classified => classified.role.isParameter

end Analysis

/-- Parse a declaration and check that it can be a host for some directives. -/
def readHost (directives : Directives) (item : Tokens) : Except Fault Struct :=
  match parseItem item with
  | .error error => .error (.malformed error)
  | .ok found => do
    let decl ← hostStruct found
    let _ ← hostAccess decl directives
    return decl

/-- The access level of a declaration whose keys all name a field, without looking at what its members are. -/
def checkHost (directives : Directives) (found : Item) : Except Fault Access := do
  let decl ← hostStruct found
  let access ← hostAccess decl directives
  checkKeys decl.fieldNames directives
  return access

/-- Analyse a declaration under the arguments of its annotation. -/
def analyze (args item : Tokens) : Except Fault Analysis := do
  let directives ← Directives.resolve args
  let decl ← readHost directives item
  let host ← Host.ofStruct decl
  let members ← classify directives host.members
  checkKeys (host.members.map Member.name) directives
  return ⟨directives, host, members⟩

end Fieldwise
