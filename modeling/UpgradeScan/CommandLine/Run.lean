/-
`CommandLine/Run.lean` -- the program as a whole.

A command line is read and carried out. The status is 0 when nothing was found, 1 when something
was, and 2 when anything failed; only then is there a complaint. A status beyond these is not the
program's own choice: it is what is seen of a program that did not come to its end.

A run takes the machine with it. What was printed, which files were written and which processes were
started is read off the machine afterwards, so a statement about a run is one about its `Finish`.

The command line is refused before anything else is done. The settings are read by the scan and not
here, since a configuration that cannot be loaded is a failure of the scan, with the complaint and
the status of one.
-/
import UpgradeScan.CommandLine.Reader
import UpgradeScan.Scan.Run

set_option autoImplicit false

namespace UpgradeScan

/-- What a run of the program leaves behind. -/
structure Finish where
  status : Nat
  /-- The complaint, without its line end. -/
  complaint : Option String
  /-- The command line was refused. -/
  refusal : Option Refusal
  machine : Machine

namespace CommandLine

/-- The name of the program. -/
def programName : String := "typo3scan"

/-- The version of the program. -/
def programVersion : String := "0.1.0"

/-- What stands before a complaint. -/
def complaintLead : String := "error:"

/-- The complaint about a failure. -/
def complaint (e : ScanError) (v : Voice := .silent) : String :=
  complaintLead ++ " " ++ e.message v

/-- The status, as a shell has it, of a program that was ended because its stack was full. -/
def exhaustedStatus : Nat := 134

/-- The status of a program that stopped because it could not print its version. -/
def panicStatus : Nat := 101

/-- A scan that the command line asks for. A failure that is returned becomes a complaint; where the
stack is full the program has ended before that. -/
def runCommand (launch : Launcher) (home : Path) (seconds : Number.Binary64) (path : Path)
    (a : ScanArguments) (m : Machine) (chance : Template.Chance := {}) (v : Voice := .silent) :
    Finish :=
  let o : Order :=
    { home := home
      start := Disk.pathOf m.disk.current
      path := path
      overrides := a.overrides
      reportFile := a.reportFile.map Path.mk
      seconds := seconds
      chance := chance }
  match runScan launch o m with
  | (.ok n, m) => ⟨exitStatus n, none, none, m⟩
  | (.error e, m) =>
    if e.isReturned then ⟨failureStatus, some (complaint e v), none, m⟩
    else ⟨exhaustedStatus, none, none, m⟩

/-- The program is run with a command line. The version that a command line may ask for by an option
is printed as far as there is room, that of the command `version` as a whole or not. -/
def run (launch : Launcher) (home : Path) (seconds : Number.Binary64) (args : List String)
    (m : Machine) (chance : Template.Chance := {}) (v : Voice := .silent) : Finish :=
  match parse args with
  | .ok .version =>
    match m.print (programVersion ++ "\n") with
    | (.ok (), m) => ⟨0, none, none, m⟩
    | (.error _, m) => ⟨panicStatus, none, none, m⟩
  | .ok (.scan path a) => runCommand launch home seconds path a m chance v
  | .error .version =>
    ⟨0, none, some .version, (m.print (programName ++ " " ++ programVersion ++ "\n")).2⟩
  | .error r => ⟨r.status, none, some r, m⟩

end CommandLine

end UpgradeScan
