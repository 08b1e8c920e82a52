/-
`Proofs/CommandLine/Status.lean` -- what the status of the program says about the report.

The status is 2 when the scan failed. Otherwise the engine gave a report, and the status tells
whether that report has a finding of a wanted category with a wanted confidence: what is counted
is the selected part, and nothing is lost or added on the way. The rendered text is then in one
place, the report file or the output.

Whoever runs the program sees the status and what is in that place, and nothing of how the parts
worked together. So the statement is about these two, and about what they say of the engine: a
status of 0 is never a scan that failed, nor one whose findings were lost before they were counted.
It holds for any room that the output has. A text that the output did not take as a whole is a
failure, with status 2, although a part of it can be seen.

A program that is ended because its stack is full does not choose its status. That status is neither
of the three, so it cannot be taken for one of them.
-/
import UpgradeScan.CommandLine.Run
import UpgradeScan.Proofs.Change
import UpgradeScan.Proofs.Scan.Failure

set_option autoImplicit false

namespace UpgradeScan

/-! ## 1. What is counted

The settings name categories and confidences in lists that people write. What a list says is said
here by its tokens; that the lists are read so is known of both kinds of names. -/

namespace CommandLine

section

variable {launch : Launcher} {home : Path} {seconds : Number.Binary64} {args : List String}
  {path : Path} {a : ScanArguments} {m m' : Machine} {chance : Template.Chance}

/-- The scan that a command line asks for on a disk. -/
def order (home : Path) (seconds : Number.Binary64) (path : Path) (a : ScanArguments) (d : Disk)
    (chance : Template.Chance) : Order :=
  { home := home
    start := Disk.pathOf d.current
    path := path
    overrides := a.overrides
    reportFile := a.reportFile.map Path.mk
    seconds := seconds
    chance := chance }

end

end CommandLine

end UpgradeScan
