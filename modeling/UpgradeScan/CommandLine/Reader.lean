/-
`CommandLine/Reader.lean` -- reading a command line.

Options and the path may stand in any order. A value is the next argument, or stands in the same
one: after `=` behind a long name, directly or after `=` behind a letter. An argument that begins
with a dash is never taken for the value of the option before it; after `--` every argument is one
without a dash. What was given last is checked only when something follows it or the line ends, so
an unknown argument behind it is refused first.

The line is read once, from its first argument to its last. What has been read is a state
(`Progress`): the arguments taken so far, the path if it was given, and what was given last and is
not checked yet. Every argument either leads to a new state or ends the reading with a refusal. A
second value for an option is a refusal, and so is a second path.

Which refusal a line gets matters for the status of the program, since asking for help or for the
version is a refusal here but no failure there.
-/
import UpgradeScan.CommandLine.Basic

set_option autoImplicit false

namespace UpgradeScan.CommandLine

/-! ## 1. Single arguments

The form of an argument is decided by its text alone, before anything is known about the options. -/

/-- The forms of an argument. -/
inductive Form where
  /-- The two dashes after which no options follow. -/
  | separator
  /-- A long name, perhaps with a value. -/
  | long (name : String) (value : Option String)
  /-- A letter and what follows it. -/
  | letter (c : Char) (rest : List Char)
  | plain (s : String)
  deriving DecidableEq, Repr

/-- A long name and its value. -/
def splitLong (s : List Char) : Form :=
  let n := s.takeWhile (· != '=')
  match s.drop n.length with
  | _ :: v => .long (String.ofList n) (some (String.ofList v))
  | [] => .long (String.ofList n) none

/-- The form of an argument. -/
def form (s : String) : Form :=
  match s.toList with
  | ['-', '-'] => .separator
  | '-' :: '-' :: r => splitLong r
  | '-' :: c :: r => .letter c r
  | _ => .plain s

/-- The value behind a letter. -/
def attached? : List Char → Option String
  | [] => none
  | '=' :: r => some (String.ofList r)
  | r => some (String.ofList r)

/-! ## 2. The arguments of a scan

One step for each form of argument. Each first settles what was given before, and then becomes what
is to be settled next. -/

/-- What was given last and is not yet checked. -/
inductive Pending where
  | nothing
  /-- An option whose value comes next. -/
  | awaiting (o : ScanOption)
  | given (o : ScanOption) (v : String)
  | path (s : String)
  deriving DecidableEq, Repr

/-- How far a line has been read. -/
structure Progress where
  arguments : ScanArguments
  pending : Pending
  /-- A path was given. -/
  hasPath : Bool
  deriving DecidableEq, Repr

/-- The value of an option is taken: it is the first one, and a path is not empty. -/
def take (o : ScanOption) (v : String) (a : ScanArguments) : Except Refusal ScanArguments :=
  if (a.get? o).isSome then .error .repeated
  else if o.isPath && v.isEmpty then .error .badValue
  else .ok (a.set o v)

/-- What was given last is taken. -/
def settle (p : Progress) : Except Refusal ScanArguments :=
  match p.pending with
  | .nothing => .ok p.arguments
  | .awaiting _ => .error .badValue
  | .given o v => take o v p.arguments
  | .path s => if s.isEmpty then .error .badValue else .ok { p.arguments with path := some s }

/-- An option, perhaps with its value in the same argument. -/
def option (o : ScanOption) (v : Option String) (p : Progress) : Except Refusal Progress :=
  match settle p with
  | .error e => .error e
  | .ok a =>
    match v with
    | none => .ok { p with arguments := a, pending := .awaiting o }
    | some v => (take o v a).map fun a => { p with arguments := a, pending := .nothing }

/-- The help, once what was given before is taken. -/
def askHelp (p : Progress) : Refusal :=
  match settle p with
  | .error e => e
  | .ok _ => .help

/-- An argument that is a path. -/
def positional (s : String) (p : Progress) : Except Refusal Progress :=
  if p.hasPath then .error .unknownArgument
  else
    (settle p).map fun a => { arguments := a, pending := .path s, hasPath := true }

/-- An argument without a dash: the value that an option waits for, or the path. -/
def plain (s : String) (p : Progress) : Except Refusal Progress :=
  match p.pending with
  | .awaiting o => .ok { p with pending := .given o s }
  | _ => positional s p

/-- One argument of a scan. -/
def argument (s : String) (p : Progress) : Except Refusal Progress :=
  match form s with
  | .separator => .ok p
  | .long n v =>
    if n = "help" then .error (if v.isSome then .needlessValue else askHelp p)
    else
      match ScanOption.ofName? n with
      | some o => option o v p
      | none => .error .unknownArgument
  | .letter c r =>
    if c = 'h' then .error (askHelp p)
    else
      match ScanOption.ofLetter? c with
      | some o => option o (attached? r) p
      | none => .error .unknownArgument
  | .plain s => plain s p

/-- The arguments after `--`. -/
def trailing : List String → Progress → Except Refusal Progress
  | [], p => .ok p
  | s :: rest, p =>
    match positional s p with
    | .error e => .error e
    | .ok p => trailing rest p

/-- The arguments of a scan. -/
def scanArguments : List String → Progress → Except Refusal Progress
  | [], p => .ok p
  | s :: rest, p =>
    if form s = .separator then trailing rest p
    else match argument s p with
      | .error e => .error e
      | .ok p => scanArguments rest p

/-- A scan: the path has to be given. -/
def scan (args : List String) : Except Refusal Command :=
  match scanArguments args ⟨.none, .nothing, false⟩ with
  | .error e => .error e
  | .ok p =>
    match settle p with
    | .error e => .error e
    | .ok a =>
      match a.path with
      | some s => .ok (.scan ⟨s⟩ a)
      | none => .error .missingPath

/-! ## 3. The other commands

What may stand where the name of a command does, and the commands other than a scan. None of them
takes an argument that means anything beside asking for help. -/

/-- The refusal of an argument that is neither option nor name. The version is known only where
`withVersion` says so. -/
def flag (withVersion : Bool) : Form → Refusal
  | .long n v =>
    if n = "help" ∨ (withVersion ∧ n = "version") then
      if v.isSome then .needlessValue else if n = "help" then .help else .version
    else .unknownArgument
  | .letter c _ =>
    if c = 'h' then .help
    else if withVersion ∧ c = 'V' then .version
    else .unknownArgument
  | _ => .unknownArgument

/-- The version takes no arguments. -/
def version : List String → Except Refusal Command
  | [] => .ok .version
  | s :: rest =>
    if form s = .separator then
      if rest = [] then .ok .version else .error .unknownArgument
    else .error (flag false (form s))

/-- The commands. -/
def commandNames : List String := ["version", "scan", "help"]

/-- The help on a command; no command has one below it. -/
def help : List String → Refusal
  | [] => .help
  | [c] => if commandNames.contains c then .help else .unknownCommand
  | _ => .unknownCommand

/-- What follows `--` before a command is none. -/
def afterSeparator : List String → Refusal
  | [] => .nothing
  | s :: _ => if commandNames.contains s then .unknownArgument else .unknownCommand

/-- The arguments after the name of the program. -/
def command : List String → Except Refusal Command
  | [] => .error .nothing
  | s :: rest =>
    if s = "version" then version rest
    else if s = "scan" then scan rest
    else if s = "help" then .error (help rest)
    else
      match form s with
      | .separator => .error (afterSeparator rest)
      | .plain _ => .error .unknownCommand
      | f => .error (flag true f)

/-- A whole command line, which begins with the name of the program. -/
def parse (args : List String) : Except Refusal Command := command args.tail

end UpgradeScan.CommandLine
