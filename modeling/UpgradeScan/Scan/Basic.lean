/-
`Scan/Basic.lean` -- one scan: the engine's report, selected and counted.

The engine is a parameter: it is asked once, for one directory with one ruleset, and may change a
state of its own. Everything after that is a function of its report.

The status of the program is decided by the number of findings in the selected report, not by what
the engine said. The two directories that a scan needs are looked for here: the one to scan has to
be there, and of the places where matchers may be configured one has to be.
-/
import UpgradeScan.Error
import UpgradeScan.Extension
import UpgradeScan.Matcher
import UpgradeScan.Report.Context
import UpgradeScan.Report.Selection

set_option autoImplicit false

namespace UpgradeScan

/-- Finds the uses of changed parts below a directory. -/
abbrev Engine (σ : Type) := Path → Ruleset → σ → Except EngineFault Report × σ

/-- What is to be scanned, and which findings are wanted. -/
structure Request where
  root : Path
  /-- The label of the target version. -/
  target : String
  categories : List Category
  confidences : List Confidence
  deriving DecidableEq, Repr

namespace Request

/-- The findings that are wanted. -/
def select (q : Request) (r : Report) : Report :=
  (r.keepCategories q.categories).keepConfidences q.confidences

/-- The context of a report on a request. -/
def context (q : Request) (r : Report) (seconds : Number.Binary64) : Context :=
  let chosen := q.select r
  let site := Site.ofPath q.root
  { title := site.key.getD q.root.text
    target := q.target
    total := chosen.count
    base := site.base
    statistics := chosen.tally.shares chosen.count
    report := chosen
    seconds := seconds }

end Request

/-- One scan with the matchers configured below `base`. -/
def scan {σ : Type} (engine : Engine σ) (base : Path) (q : Request) (seconds : Number.Binary64)
    (s : σ) : Except EngineFault Context × σ :=
  match engine q.root (Ruleset.select q.target base) s with
  | (.ok r, s) => (.ok (q.context r seconds), s)
  | (.error e, s) => (.error e, s)

/-- The status of a finished scan with that many findings: 0 for none, 1 for any. -/
def exitStatus (total : Nat) : Nat := if 0 < total then 1 else 0

/-- The status of a scan that failed. -/
def failureStatus : Nat := 2

/-- The directory to scan, from the root and without dots. -/
def scanRoot (d : Disk) (p : Path) : Except ScanError Path :=
  match d.canonical p with
  | .ok q => if d.isFolder q then .ok q else .error (.pathNotFound p)
  | .error _ => .error (.pathNotFound p)

/-- The first of some directories that exists. -/
def locateMatchers (d : Disk) (candidates : List Path) : Except ScanError Path :=
  match candidates.find? d.isFolder with
  | some p => .ok p
  | none => .error (.matchersNotFound candidates)

end UpgradeScan
