import Fieldwise.Files.Disk

/-!
# Walking over source files

The source files at a path and below it. A folder is left in the order of names, whatever order it keeps its
entries in, and everything in an entry comes before the next entry. Build output is passed over.
-/

namespace Fieldwise

namespace Walk

/-- The name of the folder that build output is in. -/
def outputName : String := "target"

/-- The extension of source files. -/
def sourceExtension : String := "rs"

/-- Whether a path names a source file. -/
def isSource (path : Path) : Bool := path.extension? == some sourceExtension

/-- The path of an entry of a folder. -/
def entryPath (folder : Path) (name : String) : Path := folder.join ⟨.plain, [name]⟩

/-- Whether one entry comes before another. -/
def before {α : Type} (left right : String × α) : Bool := !(right.1 < left.1)

mutual

/-- The source files at a node and below it, which a path leads to. -/
def below (path : Path) : Node → List Path
  | .file _ => if isSource path then [path] else []
  | .folder entries => ((belowEach path entries).mergeSort before).flatMap Prod.snd

/-- The source files of each entry of a folder, under its name. -/
def belowEach (folder : Path) : List (String × Node) → List (String × List Path)
  | [] => []
  | (name, node) :: rest =>
    let found := if name == outputName then [] else below (entryPath folder name) node
    (name, found) :: belowEach folder rest

end

/-- The name that a path is known by: its last component, or else its text. -/
def nameOf (path : Path) : String := path.fileName?.getD path.text

/-- The source files at a path and below it. -/
def sources (disk : Disk) (path : Path) : Except FileFault (List Path) := do
  let node ← disk.node path
  if nameOf path == outputName then return [] else return below path node

end Walk

end Fieldwise
