/-
`Report/Output.lean` -- where a rendered report goes.

A report file is made or replaced, in a folder that is there. The folder is asked for again when the
report is written, by the same rule as before the scan, because an engine ran in between and may
have changed the disk.
-/
import UpgradeScan.Error

set_option autoImplicit false

namespace UpgradeScan

/-- The folder that a report file has to be in: the one that the path names, else the current
one. -/
def reportFolder (file : Path) : Path :=
  match file.parent? with
  | some p => if p.text.isEmpty then ⟨"."⟩ else p
  | none => ⟨"."⟩

/-- The disk with the report in a file, whose folder has to exist. -/
def writeReport (d : Disk) (text : String) (file : Path) : Except ScanError Disk :=
  if d.isFolder (reportFolder file) then
    match d.write file (Text.Utf8.bytes text) with
    | .ok d => .ok d
    | .error e => .error (.io e)
  else .error (.reportFolderNotFound (reportFolder file))

end UpgradeScan
