/-
`Report/Basic.lean` -- what a scan found.

A report is a tree of three levels: the scanned directory, its files, and the findings of each file
in the order in which the engine gave them.

The order of files and findings is never changed, only what is in between may be left out. A finding
carries its own source, which need not be the file that it is listed under.
-/
import UpgradeScan.Change
import UpgradeScan.Path

set_option autoImplicit false

namespace UpgradeScan

/-- One use of a changed part of the core. -/
structure Finding where
  category : Category
  confidence : Confidence
  /-- The document that describes the change. -/
  rule : String
  source : Path
  /-- The line, counted from 1. -/
  line : Nat
  message : String
  deriving DecidableEq, Repr, Inhabited

/-- The findings in one file. -/
structure FileReport where
  path : Path
  findings : List Finding
  deriving DecidableEq, Repr, Inhabited

/-- The files with findings below one directory. -/
structure Report where
  path : Path
  files : List FileReport
  deriving DecidableEq, Repr, Inhabited

namespace Report

/-- Every finding, file after file. -/
def findings (r : Report) : List Finding := r.files.flatMap (·.findings)

/-- The number of findings. -/
def count (r : Report) : Nat := r.findings.length

end Report

end UpgradeScan
