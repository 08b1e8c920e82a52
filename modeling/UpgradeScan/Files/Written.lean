/-
`Files/Written.lean` -- the files that differ between two disks.

What was done on a disk is read off the disks before and after: the files of the later one whose
content is not that of the earlier one. Operations make and replace files and do not remove any.

So what a program leaves behind is a list of paths and contents, whatever it read on its way.
-/
import UpgradeScan.Files.Disk

set_option autoImplicit false

namespace UpgradeScan

namespace Node

mutual

/-- The files of a tree, with the names that lead to them. -/
def files (place : List String) : Node → List (List String × Bytes)
  | .file c => [(place, c)]
  | .folder es => entryFiles place es

/-- The files of the entries of a folder. -/
def entryFiles (place : List String) : List (String × Node) → List (List String × Bytes)
  | [] => []
  | (name, n) :: es => files (place ++ [name]) n ++ entryFiles place es

end

end Node

namespace Disk

/-- The disk has a file at a place, with this content. -/
def holds (d : Disk) (place : List String) (content : Bytes) : Bool :=
  match d.root.at? place with
  | some (.file c) => c == content
  | _ => false

/-- The files that were written between two disks. -/
def written (before after : Disk) : List (Path × Bytes) :=
  ((after.root.files []).filter fun (place, c) => !before.holds place c).map fun (place, c) =>
    (pathOf place, c)

end Disk

end UpgradeScan
