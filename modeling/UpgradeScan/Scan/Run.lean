/-
`Scan/Run.lean` -- a scan from the command line to the written report.

The steps follow one another and the first that fails ends the scan. What can be known to fail is
asked before the engine runs: the directory, the configuration, the matchers, the folder of the
report file, the templates, and the format. What comes after it can fail only by what the engine
reports, by a template that meets data it was not made for, or by a disk or a stream that does not
take the report.

Preparing looks at the disk and changes nothing. So the steps up to the engine are a function of the
disk as it is at the beginning, and those after it one of the disk as the engine left it. The engine
is started at most once, and only when everything before it went well.

A rendering that runs out of room is a failure of the scan like the others, although the program is
ended by it. That no one is told of it is decided where failures become complaints.
-/
import UpgradeScan.Engine.Program
import UpgradeScan.Report.Output
import UpgradeScan.Report.Renderer
import UpgradeScan.Settings

set_option autoImplicit false

namespace UpgradeScan

/-- What a scan is started with. -/
structure Order where
  /-- The folder of this program. -/
  home : Path
  /-- The folder from which the configuration is looked for. -/
  start : Path
  path : Path
  overrides : Overrides
  reportFile : Option Path
  /-- The time that the engine takes. -/
  seconds : Number.Binary64
  /-- What comes up while the report is rendered. -/
  chance : Template.Chance := {}
  deriving DecidableEq, Repr

/-- What is known before the engine runs. -/
structure Preparation where
  root : Path
  settings : Settings
  matchers : Path
  renderer : Renderer

/-- The folder that a report file names is there; a file without one is in the current
folder. -/
def checkFolder (d : Disk) (file : Option Path) : Except ScanError Unit :=
  match file.bind Path.parent? with
  | some folder =>
    if folder.text.isEmpty || d.isFolder folder then .ok ()
    else .error (.reportFolderNotFound folder)
  | none => .ok ()

/-- The format is one that can be rendered. -/
def checkFormat (r : Renderer) (format : String) : Except ScanError Unit :=
  if r.knows format then .ok () else .error (.unknownFormat format)

/-- All that is asked before the engine runs, in order. -/
def prepare (d : Disk) (o : Order) : Except ScanError Preparation := do
  let root ← scanRoot d o.path
  let settings ← Settings.resolve d o.home o.start o.overrides
  let matchers ← locateMatchers d settings.matchers
  checkFolder d o.reportFile
  let renderer ← Renderer.load d settings.templates
  checkFormat renderer settings.format
  return ⟨root, settings, matchers, renderer⟩

/-- What a preparation asks of the engine. -/
def Preparation.request (p : Preparation) : Request :=
  ⟨p.root, p.settings.target, Category.ofList p.settings.only,
    Confidence.ofList p.settings.indicators⟩

/-- The report of a context in the format of the settings. -/
def Preparation.render (p : Preparation) (d : Disk) (chance : Template.Chance) (c : Context) :
    Except ScanError String :=
  (p.renderer.render d (Changelog.fresh p.settings.changelog p.settings.links)
    p.settings.format c chance).1

/-- A report goes to its file, or is printed if there is none. -/
def deliver (text : String) (file : Option Path) (m : Machine) : Except ScanError Unit × Machine :=
  match file with
  | none =>
    match m.print text with
    | (.ok (), m) => (.ok (), m)
    | (.error f, m) => (.error (.io f), m)
  | some p =>
    match writeReport m.disk text p with
    | .ok d => (.ok (), { m with disk := d })
    | .error e => (.error e, m)

/-- A scan after its preparation: the number of findings that are reported. -/
def Preparation.run (launch : Launcher) (p : Preparation) (o : Order) (m : Machine) :
    Except ScanError Nat × Machine :=
  let engine := programEngine launch p.settings.program p.settings.arguments
  match scan engine p.matchers p.request o.seconds m with
  | (.error e, m) => (.error (.engine e), m)
  | (.ok c, m) =>
    match p.render m.disk o.chance c with
    | .error e => (.error e, m)
    | .ok text =>
      match deliver text o.reportFile m with
      | (.error e, m) => (.error e, m)
      | (.ok (), m) => (.ok c.total, m)

/-- A whole scan: the number of findings that are reported. -/
def runScan (launch : Launcher) (o : Order) (m : Machine) : Except ScanError Nat × Machine :=
  match prepare m.disk o with
  | .error e => (.error e, m)
  | .ok p => p.run launch o m

end UpgradeScan
