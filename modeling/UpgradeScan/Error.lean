/-
`Error.lean` -- every way in which a scan can fail, and its wording.

A fault of one part keeps its own type; here the parts come together. The wording is one
function, so that no other module decides about text.

Not all of a wording is the program's own. Where a template, a configuration or the document of the
engine is refused, the reader of that format adds in its own words what it met and where. These
texts are not decided here. They come from outside as a `Voice`, and what is said about messages is
said for every voice; the silent one adds nothing.

Paths are texts here, and every text can be written as JSON. So there is no failure of writing a
report as JSON: the one value that cannot be written is a path that is no text.
-/
import UpgradeScan.Engine.Defect
import UpgradeScan.Process.Basic
import UpgradeScan.Template.Fault

set_option autoImplicit false

namespace UpgradeScan

/-! ## 1. Failures

Most failures name what they are about, so that the wording needs nothing else. A template is the
exception that has to be looked into: what refused it is kept with the failure, and so is what ended
a rendering. -/

/-- Why the engine gave no report. -/
inductive EngineFault where
  | notStarted (program : String) (why : StartFault)
  | ended (program : String) (how : Ending) (complaint : String)
  | unreadable (d : Defect)
  /-- An engine that is no process says itself what happened. -/
  | reported (text : String)
  deriving DecidableEq, Repr

/-- Why a configuration was not loaded. -/
inductive ConfigFault where
  /-- The file cannot be read. -/
  | unreadable (f : Fault)
  /-- The text is no configuration. -/
  | invalid
  deriving DecidableEq, Repr

/-- Why a scan failed. -/
inductive ScanError where
  | pathNotFound (p : Path)
  | reportFolderNotFound (p : Path)
  | matchersNotFound (candidates : List Path)
  | config (file : Path) (why : ConfigFault)
  | unknownFormat (format : String)
  | engine (f : EngineFault)
  /-- A template of the template directory cannot be used. -/
  | template {f : Template.LoadFault}
  /-- The rendering was ended early. -/
  | render {i : Template.Interruption}
  | io (f : Fault)
  deriving DecidableEq, Repr

/-- The failure is told to whoever asked for the scan. A full stack is the only one that is not: the
program is ended on the spot, so that no error is returned and none is worded. -/
def ScanError.isReturned : ScanError → Bool
  | .render (i := .exhausted) => false
  | _ => true

/-! ## 2. Their wording

The wording of the program, with the place of every text that comes from outside. A fault of the
file system has the wording of the system, with its number where it has one. -/

/-- What the readers of the formats add to a message about what they refused: each text follows
what is worded here. -/
structure Voice where
  /-- About a template that cannot be used. -/
  template : Template.LoadFault → String := fun _ => ""
  /-- About a rendering that failed. -/
  render : Template.RenderFault → String := fun _ => ""
  /-- About a configuration file that holds none. -/
  configuration : Path → String := fun _ => ""
  /-- About a document of the engine: where the defect was found, and for one without a wording what
  it is. -/
  defect : Defect → String := fun _ => ""

/-- The voice that adds nothing. -/
def Voice.silent : Voice := {}

/-- The wording of a fault of the engine. -/
def EngineFault.message (f : EngineFault) (v : Voice := .silent) : String :=
  match f with
  | .notStarted p why => "cannot run " ++ p ++ ": " ++ why.message
  | .ended p how complaint => p ++ " exited with " ++ how.message ++ ": " ++ complaint
  | .unreadable d => d.message ++ v.defect d
  | .reported t => t

/-- What follows the name of a configuration file that was not loaded. -/
def ConfigFault.message (f : ConfigFault) (file : Path) (v : Voice := .silent) : String :=
  match f with
  | .unreadable f => ": " ++ f.message
  | .invalid => v.configuration file

namespace ScanError

/-- Texts with a comma and a blank between them. -/
def commaSeparated (ts : List String) : String := ", ".intercalate ts

/-- The wording of a failure. A failure that is not returned has none of its own. -/
def message (e : ScanError) (v : Voice := .silent) : String :=
  match e with
  | pathNotFound p => "Path does not exist: \"" ++ p.text ++ "\""
  | reportFolderNotFound p => "Reportfile path does not exist: \"" ++ p.text ++ "\""
  | matchersNotFound cs =>
    "Matcher configuration not found; looked in: " ++ commaSeparated (cs.map (·.text))
  | config p why => "Invalid configuration in " ++ p.text ++ why.message p v
  | unknownFormat f => "Unknown output format: " ++ f
  | engine f => "Scan engine failed: " ++ f.message v
  | template (f := f) => "Template error" ++ v.template f
  | render (i := .fault f) => "Render error" ++ v.render f
  | render (i := .exhausted) => ""
  | io f => "IO error: " ++ f.message

end ScanError

end UpgradeScan
