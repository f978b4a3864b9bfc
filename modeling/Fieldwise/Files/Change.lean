import Fieldwise.Files.Node

/-!
# Changes between two trees

The files that a tree has and an older one has not, or has with other bytes.
-/

namespace Fieldwise

namespace Node

/-- A file at its place. -/
structure Written where
  /-- The place. -/
  place : List String
  /-- The bytes. -/
  content : ByteArray

mutual

/-- The files of a tree at a place that differ from an older tree. -/
def changes (before : Option Node) (place : List String) : Node → List Written
  | file content =>
    match before with
    | some (file old) => if old.data == content.data then [] else [⟨place, content⟩]
    | _ => [⟨place, content⟩]
  | folder entries => changesEach before place entries

/-- The files of entries of a folder that differ from an older tree. -/
def changesEach (before : Option Node) (place : List String) :
    List (String × Node) → List Written
  | [] => []
  | (name, node) :: rest =>
    changes (before.bind fun old => old.child? name) (place ++ [name]) node ++
      changesEach before place rest

end

end Node

end Fieldwise
