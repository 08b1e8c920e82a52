/-
`Configuration/File.lean` -- finding and loading a configuration file.

The nearest file counts: that of the folder itself, else that of the folder above, and so on. A
folder that is a repository ends the search, but its own file still counts.

Which file is found and whether it can be loaded are separate questions. The search asks only
whether a file is there, so a file that holds no configuration is found, and is then a failure; it
is not passed over for one further up. Among the names of one folder the first in the list is taken.

The name of the file decides the format in which it is read, and the content has no say in it.
-/
import UpgradeScan.Configuration.FromToml
import UpgradeScan.Configuration.FromYaml
import UpgradeScan.Error

set_option autoImplicit false

namespace UpgradeScan

namespace Configuration

/-- The names of a configuration file, the first found being taken. -/
def fileNames : List String := ["typo3scan.toml", "typo3scan.yaml", "typo3scan.yml"]

/-- The configuration file of a folder. -/
def fileIn? (d : Disk) (folder : Path) : Option Path :=
  (fileNames.map fun n => folder.join ⟨n⟩).find? d.isFile

/-- What a folder has that is a repository. -/
def repositoryMark : String := ".git"

/-- The folder is a repository. -/
def isRepository (d : Disk) (folder : Path) : Bool := d.has (folder.join ⟨repositoryMark⟩)

/-- The configuration file of the first of some folders that has one. No folder after a
repository is asked. -/
def nearest? (d : Disk) : List Path → Option Path
  | [] => none
  | folder :: above =>
    match fileIn? d folder with
    | some p => some p
    | none => if isRepository d folder then none else nearest? d above

/-- The configuration file for a folder. -/
def find? (d : Disk) (start : Path) : Option Path := nearest? d start.ancestors

/-- The file is an indented document; any other is a table of keys and values. -/
def isIndented (file : Path) : Bool :=
  file.extension? == some "yaml" || file.extension? == some "yml"

/-- The configuration that a text says. -/
def ofText? (indented : Bool) (s : String) : Option Configuration :=
  if indented then (YamlDocument.parse? s).bind ofDocument?
  else (Toml.parse? s).bind ofTable?

/-- The configuration in a file. -/
def load (d : Disk) (file : Path) : Except ScanError Configuration :=
  match d.readText file with
  | .error f => .error (.config file (.unreadable f))
  | .ok s =>
    match ofText? (isIndented file) s with
    | some c => .ok c
    | none => .error (.config file .invalid)

end Configuration

end UpgradeScan
