/-
`Settings.lean` -- the settings of a scan.

Each setting is the value of the command line if there is one, else that of the configuration file,
else a fixed one. Paths of the file are seen from the folder of the file; a path of the command line
stays as it is given.

Not every setting has all three sources. The command line says nothing about the changelog, the
links, the matchers and the engine, and the folder of templates has no fixed value: without one
there are only the built-in layouts. The folders of matchers are a list, in which that of the
configuration comes before the fixed ones, so that it is taken if it exists and passed over if it
does not.

A configuration file can be named on the command line. It then takes the place of the nearest one,
and it has to be there. A file that is found and cannot be loaded is a failure in both cases.
-/
import UpgradeScan.Configuration.File

set_option autoImplicit false

namespace UpgradeScan

/-- The values given on the command line. -/
structure Overrides where
  /-- The configuration file; the nearest one if it is not given. -/
  config : Option Path
  target : Option String
  only : Option String
  indicators : Option String
  format : Option String
  templates : Option Path
  deriving DecidableEq, Repr, Inhabited

/-- The values that a scan works with. -/
structure Settings where
  /-- The configuration file that was read. -/
  file : Option Path
  target : String
  only : String
  indicators : String
  format : String
  templates : Option Path
  changelog : Path
  links : Path
  /-- Where the matchers may be configured; the first folder that exists counts. -/
  matchers : List Path
  program : String
  arguments : List String
  deriving DecidableEq, Repr, Inhabited

namespace Settings

/-! ## 1. Fixed values

What holds where neither source says anything. The folders of the program are given relative to
where it is installed. -/

/-- The target version if none is given. -/
def standardTarget : String := "10"

/-- The wanted kinds of change if none are given. -/
def standardOnly : String := "breaking,deprecation,important,feature"

/-- The wanted indicators if none are given. -/
def standardIndicators : String := "strong,weak"

/-- The format if none is given. -/
def standardFormat : String := "plain"

/-- The engine if none is given. -/
def standardProgram : String := "typo3-scanner"

/-- The folder with the files that come with the program, which stands in `home`. -/
def resourceFolder (home : Path) : Path := home.join ⟨"Resources/Private"⟩

/-- Where the matchers may be configured if nothing is said. -/
def standardMatchers (home : Path) : List Path :=
  [home.join ⟨"vendor/typo3/cms-scanner/config/Matcher/"⟩,
    home.join ⟨"../../typo3/cms-scanner/config/Matcher/"⟩]

/-! ## 2. Merging

One definition for all settings, so that the order of the sources can be read side by side. Of the
configuration only the folder of its file is needed beside its values. -/

/-- The folder from which the paths of the configuration file are seen. -/
def folderOf (file : Option Path) (start : Path) : Path := (file.bind Path.parent?).getD start

/-- The settings that a command line and a configuration give, for a program in `home`. The
configuration was read from `file`, or is empty if there is none. -/
def merge (home start : Path) (o : Overrides) (file : Option Path) (c : Configuration) :
    Settings :=
  let folder := folderOf file start
  let seen (s : String) : Path := folder.join ⟨s⟩
  { file := file
    target := (o.target <|> c.target).getD standardTarget
    only := (o.only <|> c.only).getD standardOnly
    indicators := (o.indicators <|> c.indicators).getD standardIndicators
    format := (o.format <|> c.format).getD standardFormat
    templates := o.templates <|> c.templates.map seen
    changelog := ((c.resources.bind (·.changelog)).map seen).getD
      ((resourceFolder home).join ⟨"Changelog"⟩)
    links := ((c.resources.bind (·.links)).map seen).getD
      ((resourceFolder home).join ⟨"links.txt"⟩)
    matchers := ((c.matchers.bind (·.path)).map seen).toList ++ standardMatchers home
    program := (c.engine.bind (·.program)).getD standardProgram
    arguments := (c.engine.map (·.arguments)).getD [] }

/-- The configuration file: the one that is named, else the nearest one. -/
def fileFor (d : Disk) (start : Path) (o : Overrides) : Option Path :=
  o.config <|> Configuration.find? d start

/-- The settings of a scan that starts in a folder. -/
def resolve (d : Disk) (home start : Path) (o : Overrides) : Except ScanError Settings :=
  let file := fileFor d start o
  match file with
  | none => .ok (merge home start o none .empty)
  | some p => (Configuration.load d p).map (merge home start o file)

end Settings

end UpgradeScan
