/-!
# Files and folders

A tree of folders with files at its leaves. Places in it are lists of names. The entries of a folder have
different names and stand in no particular order.
-/

namespace Fieldwise

/-- A file or a folder. -/
inductive Node where
  | file (content : ByteArray)
  | folder (entries : List (String × Node))
  deriving Inhabited

namespace Node

/-- An empty folder. -/
def empty : Node := folder []

/-- The entry with a name. -/
def named? (name : String) : List (String × Node) → Option Node
  | [] => none
  | (other, node) :: rest => if other == name then some node else named? name rest

/-- The entry of a folder with a name. -/
def child? (node : Node) (name : String) : Option Node :=
  match node with
  | file _ => none
  | folder entries => named? name entries

/-- What is at a place. -/
def at? (node : Node) : List String → Option Node
  | [] => some node
  | name :: rest =>
    match node.child? name with
    | some child => child.at? rest
    | none => none

/-- Put an entry in the place of one with its name, or at the end. -/
def putEntry (name : String) (new : Node) : List (String × Node) → List (String × Node)
  | [] => [(name, new)]
  | (other, node) :: rest =>
    if other == name then (name, new) :: rest else (other, node) :: putEntry name new rest

/-- After an entry has been put, its name leads to it and every other name leads where it led. -/
theorem named?_putEntry (name other : String) (new : Node) (entries : List (String × Node)) :
    named? other (putEntry name new entries) =
      if name = other then some new else named? other entries := by
  induction entries with
  | nil => simp [putEntry, named?]
  | cons entry rest ih =>
    obtain ⟨first, node⟩ := entry
    by_cases h : first = name
    · subst h
      by_cases h' : first = other <;> simp [putEntry, named?, h']
    · by_cases h' : first = other
      · subst h'
        simp [putEntry, named?, h, Ne.symm h]
      · simp [putEntry, named?, h, h', ih]

/-- Put something at a place. Folders on the way are made if they are missing; a file on the way is kept, and
nothing changes. -/
def put (node : Node) (place : List String) (new : Node) : Node :=
  match place with
  | [] => new
  | name :: rest =>
    match node with
    | file content => file content
    | folder entries =>
      folder (putEntry name (put ((named? name entries).getD empty) rest new) entries)

/-- Take out what is at a place. -/
def erase (node : Node) (place : List String) : Node :=
  match place with
  | [] => node
  | [name] =>
    match node with
    | file content => file content
    | folder entries => folder (entries.filter fun entry => entry.1 != name)
  | name :: next :: rest =>
    match node.child? name with
    | none => node
    | some child =>
      match node with
      | file content => file content
      | folder entries => folder (putEntry name (child.erase (next :: rest)) entries)

end Node

end Fieldwise
