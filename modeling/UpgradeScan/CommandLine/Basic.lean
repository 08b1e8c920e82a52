/-
`CommandLine/Basic.lean` -- what a command line asks for.

A command line asks for the version, for a scan, or is refused. A refusal has a kind, which decides
the status of the program; its wording is free.

The options of a scan are a type of their own, and everything that is particular to one of them is a
function of it: the names it goes by, its letter, and whether its value is a path. Reading a command
line goes through these functions alone, so a new option is a new case in them and no new case
anywhere else.

Arguments are values by option. An option that was not given has none, which is different from an
empty value.
-/
import UpgradeScan.Settings

set_option autoImplicit false

namespace UpgradeScan

/-- The options of a scan. Each takes one value. -/
inductive ScanOption where
  | target
  | only
  | indicators
  | format
  | reportFile
  | templates
  | config
  deriving DecidableEq, Repr

namespace ScanOption

/-- The long names of an option. -/
def names : ScanOption → List String
  | .target => ["target"]
  | .only => ["only"]
  | .indicators => ["indicators"]
  | .format => ["format"]
  | .reportFile => ["report-file", "reportFile"]
  | .templates => ["template-path", "templatePath"]
  | .config => ["config"]

/-- The letter of an option, if it has one. -/
def letter? : ScanOption → Option Char
  | .target => some 't'
  | .only => some 'o'
  | .indicators => some 'i'
  | .format => some 'f'
  | .reportFile => some 'r'
  | .templates => none
  | .config => none

/-- The value is a path, and so may not be empty. -/
def isPath : ScanOption → Bool
  | .reportFile | .templates | .config => true
  | _ => false

/-- All options. -/
def all : List ScanOption :=
  [.target, .only, .indicators, .format, .reportFile, .templates, .config]

/-- The option of a long name. -/
def ofName? (s : String) : Option ScanOption := all.find? fun o => o.names.contains s

/-- The option of a letter. -/
def ofLetter? (c : Char) : Option ScanOption := all.find? fun o => o.letter? == some c

end ScanOption

/-- The arguments of a scan. -/
structure ScanArguments where
  path : Option String
  target : Option String
  only : Option String
  indicators : Option String
  format : Option String
  reportFile : Option String
  templates : Option String
  config : Option String
  deriving DecidableEq, Repr, Inhabited

namespace ScanArguments

/-- No argument. -/
def none : ScanArguments := ⟨.none, .none, .none, .none, .none, .none, .none, .none⟩

/-- The value of an option. -/
def get? (a : ScanArguments) : ScanOption → Option String
  | .target => a.target
  | .only => a.only
  | .indicators => a.indicators
  | .format => a.format
  | .reportFile => a.reportFile
  | .templates => a.templates
  | .config => a.config

/-- The arguments with the value of an option. -/
def set (a : ScanArguments) (o : ScanOption) (v : String) : ScanArguments :=
  match o with
  | .target => { a with target := some v }
  | .only => { a with only := some v }
  | .indicators => { a with indicators := some v }
  | .format => { a with format := some v }
  | .reportFile => { a with reportFile := some v }
  | .templates => { a with templates := some v }
  | .config => { a with config := some v }

/-- What the arguments say in place of the configuration. -/
def overrides (a : ScanArguments) : Overrides :=
  ⟨a.config.map Path.mk, a.target, a.only, a.indicators, a.format, a.templates.map Path.mk⟩

/-- An option has the value that was set last. -/
@[simp] theorem get?_set_self (a : ScanArguments) (o : ScanOption) (v : String) :
    (a.set o v).get? o = some v := by
  cases o <;> rfl

theorem get?_set_of_ne (a : ScanArguments) {o p : ScanOption} (v : String) (h : p ≠ o) :
    (a.set o v).get? p = a.get? p := by
  revert h
  cases o <;> cases p <;> simp [set, get?]

end ScanArguments

/-- What a command line asks for. -/
inductive Command where
  | version
  | scan (path : Path) (arguments : ScanArguments)
  deriving DecidableEq, Repr

/-- Why a command line is no command. -/
inductive Refusal where
  /-- The path to scan is missing. -/
  | missingPath
  | unknownArgument
  | unknownCommand
  /-- A value is missing, or is an empty path. -/
  | badValue
  /-- An option is given twice. -/
  | repeated
  /-- A value is given to what takes none. -/
  | needlessValue
  /-- The help is asked for. -/
  | help
  /-- The version is asked for. -/
  | version
  /-- There is no command at all. -/
  | nothing
  deriving DecidableEq, Repr

/-- The status of the program for a refused command line. -/
def Refusal.status : Refusal → Nat
  | .help | .version => 0
  | _ => 2

end UpgradeScan
