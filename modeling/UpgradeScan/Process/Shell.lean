/-
`Process/Shell.lean` -- carrying out scripts, and the launcher that knows them.

A shell goes through the pipelines of a script. It keeps the disk, what was printed and complained
about so far, the status of the last pipeline, and whether it has ended. The commands of a pipeline
run one after the other, each reading what the one before it printed. The launcher starts the tools,
and a shell with a script.

It is one of many launchers, for engines that are scripts, and nothing that is said about scans in
general depends on it. With it a run can be computed from the command line to the last byte.
-/
import UpgradeScan.Process.Script
import UpgradeScan.Process.Tool

set_option autoImplicit false

namespace UpgradeScan

/-- A shell that goes through a script. -/
structure Shell where
  /-- The name by which complaints begin. -/
  name : String
  arguments : List String
  bindings : List (String × String)
  disk : Disk
  output : Bytes
  complaints : Bytes
  /-- The status of the last pipeline. -/
  last : Nat
  ended : Option Ending

namespace Shell

open Script

/-! ## 1. Words

A word of the script becomes any number of words. What is unquoted in it is cut at blanks after its
parameters were filled in, and what is quoted is not. -/

/-- The number of the process. Nothing depends on which it is. -/
def processId : Nat := 1000

/-- A number in decimal digits. -/
def decimal (n : Nat) : String := String.ofList (Number.digits n)

/-- The value of a parameter, as one text. -/
def value (s : Shell) : Parameter → String
  | .position 0 => s.name
  | .position (n + 1) => (s.arguments[n]?).getD ""
  | .each => " ".intercalate s.arguments
  | .together => " ".intercalate s.arguments
  | .count => decimal s.arguments.length
  | .processId => decimal processId
  | .lastStatus => decimal s.last
  | .variable n =>
    if n = "PWD" then (Disk.pathOf s.disk.current).text else (s.bindings.lookup n).getD ""

/-- The character separates the words of an unquoted value. -/
def isSeparator (c : Char) : Bool := c == ' ' || c == '\t' || c == '\n'

/-- A word that is being made: the words before it, and what there is of it. -/
structure Made where
  before : List String
  current : Option (List Char)

/-- The word goes on. -/
def Made.extend (cs : List Char) (m : Made) : Made :=
  { m with current := some (m.current.getD [] ++ cs) }

/-- The word ends, if there is one. -/
def Made.close (m : Made) : Made :=
  match m.current with
  | some cs => ⟨m.before ++ [String.ofList cs], none⟩
  | none => m

/-- The values go on with the word, each but the last ending it. -/
def Made.extendEach (m : Made) : List String → Made
  | [] => m
  | [v] => m.extend v.toList
  | v :: vs => (m.extend v.toList).close.extendEach vs

/-- An unquoted value goes on with the word; its blanks separate words. -/
def Made.split (cs : List Char) (m : Made) : Made :=
  cs.foldl (fun m c => if isSeparator c then m.close else m.extend [c]) m

/-- A word with a piece more. -/
def addPiece (s : Shell) (m : Made) : Piece → Made
  | .text _ cs => m.extend cs
  | .parameter true .each => m.extendEach s.arguments
  | .parameter true p => m.extend (s.value p).toList
  | .parameter false .each | .parameter false .together =>
    s.arguments.foldl (fun m v => (m.split v.toList).close) m
  | .parameter false p => m.split (s.value p).toList

/-- A word of the script that is only `"$@"` gives no word when there are no arguments. -/
def isEachAlone : Word → Bool
  | [.text true [], .parameter true .each] => true
  | _ => false

/-- The words that a word of the script becomes. -/
def expand (s : Shell) (w : Word) : List String :=
  if isEachAlone w then s.arguments
  else (w.foldl s.addPiece ⟨[], none⟩).close.before

/-- The one text that a word of the script becomes. -/
def expandOne (s : Shell) (w : Word) : String := " ".intercalate (s.expand w)

/-! ## 2. Streams

A stream goes to what the shell prints, to its complaints, to the next command, to a file, or
nowhere. Redirections are carried out from the left, so a later one sees the effect of those before
it. -/

/-- Where a stream goes. -/
inductive Sink where
  | output
  | complaints
  /-- To the next command. -/
  | next
  | nowhere
  | file (p : Path)
  deriving DecidableEq

/-- Where the streams of a command come from and go to. -/
structure Streams where
  input : Bytes
  output : Sink
  complaints : Sink

/-- A stream by its number. -/
def Streams.sink (st : Streams) (n : Nat) : Sink :=
  if n = 1 then st.output else if n = 2 then st.complaints else .nowhere

/-- A stream set to go elsewhere. -/
def Streams.set (n : Nat) (k : Sink) (st : Streams) : Streams :=
  if n = 1 then { st with output := k }
  else if n = 2 then { st with complaints := k }
  else st

/-- The file that swallows everything. -/
def nullFile : String := "/dev/null"

/-- The content of a file, nothing if it cannot be read. -/
def contentOr (d : Disk) (p : Path) : Bytes :=
  match d.read p with
  | .ok b => b
  | .error _ => []

/-- A redirection carried out on the streams and the disk: a file is made or emptied at once. -/
def redirect (s : Shell) (st : Streams) : Redirection → Except String (Streams × Shell)
  | .toStream n k => .ok (st.set n (st.sink k), s)
  | .fromFile w =>
    let name := s.expandOne w
    if name = nullFile then .ok ({ st with input := [] }, s)
    else match s.disk.read ⟨name⟩ with
      | .ok b => .ok ({ st with input := b }, s)
      | .error .notFound | .error .notFolder =>
        .error ("cannot open " ++ name ++ ": No such file")
      | .error .isFolder => .ok ({ st with input := [] }, s)
      | .error f => .error ("cannot open " ++ name ++ ": " ++ f.reason)
  | .toFile n continued w =>
    let name := s.expandOne w
    if name = nullFile then .ok (st.set n .nowhere, s)
    else
      match s.disk.write ⟨name⟩ (if continued then contentOr s.disk ⟨name⟩ else []) with
      | .ok d => .ok (st.set n (.file ⟨name⟩), { s with disk := d })
      | .error .notFound | .error .notFolder =>
        .error ("cannot create " ++ name ++ ": Directory nonexistent")
      | .error f => .error ("cannot create " ++ name ++ ": " ++ f.reason)

/-- All redirections of a command, from the left. -/
def redirectAll (s : Shell) (st : Streams) : List Redirection → Except String (Streams × Shell)
  | [] => .ok (st, s)
  | r :: rs =>
    match s.redirect st r with
    | .ok (st, s) => s.redirectAll st rs
    | .error e => .error e

/-- Bytes go to a stream. What goes to the next command is handed over. -/
def emit (k : Sink) (b : Bytes) (s : Shell) : Shell × Bytes :=
  match k with
  | .output => ({ s with output := s.output ++ b }, [])
  | .complaints => ({ s with complaints := s.complaints ++ b }, [])
  | .next => (s, b)
  | .nowhere => (s, [])
  | .file p =>
    if b = [] then (s, [])
    else match s.disk.write p (contentOr s.disk p ++ b) with
      | .ok d => ({ s with disk := d }, [])
      | .error _ => (s, [])

/-- A line of complaint with the name of the shell and the line of the script. -/
def complaint (s : Shell) (line : Nat) (text : String) : Bytes :=
  Text.Utf8.bytes (s.name ++ ": " ++ decimal line ++ ": " ++ text ++ "\n")

/-! ## 3. Commands

A command is one of the shell's own, a tool, or unknown. Each leaves a status, and the last one of a
pipeline is that of the pipeline. -/

/-- The number of a signal by its number or name. -/
def signal? (name : String) : Option Nat :=
  match Number.ofDigits? 10 name.toList with
  | some n => if n < 32 then some n else none
  | none => (signalNames.findIdx? (· == name.toUpper)).map (· + 1)

/-- The signals that do not end a process: the empty one, and those for children, waking up,
urgent data and windows. -/
def harmless : List Nat := [0, 17, 18, 23, 28]

/-- The signal and the process that the arguments of `kill` name. -/
def killed? : List String → Option (Nat × String)
  | ["-s", sig, p] => (signal? sig).map (·, p)
  | [p] => some (15, p)
  | [sig, p] =>
    match sig.toList with
    | '-' :: r => (signal? (String.ofList r)).map (·, p)
    | _ => none
  | _ => none

/-- A command that acts on the shell itself: what it leaves, or none if there is no such
command. Its complaint has no name or line yet. -/
def own? (s : Shell) (name : String) (args : List String) : Option (Shell × Nat × Option String) :=
  if name = "exit" then
    match args with
    | [] => some ({ s with ended := some (.status s.last) }, s.last, none)
    | a :: _ =>
      match Number.ofDigits? 10 a.toList with
      | some n => some ({ s with ended := some (.status (n % 256)) }, n % 256, none)
      | none =>
        some ({ s with ended := some (.status 2) }, 2, some ("exit: Illegal number: " ++ a))
  else if name = "cd" then
    match args with
    | [] => some (s, 0, none)
    | a :: _ =>
      match s.disk.resolve ⟨a⟩ with
      | .ok place =>
        if s.disk.isFolder ⟨a⟩ then
          some ({ s with disk := { s.disk with current := place } }, 0, none)
        else some (s, 2, some ("cd: can\x27t cd to " ++ a))
      | .error _ => some (s, 2, some ("cd: can\x27t cd to " ++ a))
  else if name = "kill" then
    match killed? args with
    | none => some (s, 2, some "kill: Illegal option")
    | some (n, p) =>
      if p ≠ decimal processId then some (s, 1, some "kill: No such process")
      else if harmless.contains n then some (s, 0, none)
      else some ({ s with ended := some (.signal n) }, 128 + n, none)
  else none

/-- The name and the value that a word sets, if it sets a variable. -/
def assignment? (w : Word) : Option (String × Word) :=
  match w with
  | .text false cs :: r =>
    let n := cs.takeWhile isNameChar
    match cs.drop n.length with
    | '=' :: v =>
      if n = [] ∨ (n.head?.bind (Number.digit? 10)).isSome then none
      else some (String.ofList n, .text true v :: r)
    | _ => none
  | _ => none

/-- The variables that the words at the front of a command set, and the other words. -/
def assignments : List Word → List (String × Word) × List Word
  | [] => ([], [])
  | w :: ws =>
    match assignment? w with
    | some a =>
      let (as, rest) := assignments ws
      (a :: as, rest)
    | none => ([], w :: ws)

/-- What a command is, when it is not one that acts on the shell. -/
def tool (s : Shell) (name : String) : Except (Nat × String) Tool :=
  match (Tool.inScripts ++ Tool.programs).lookup (Tool.bareName name) with
  | some t => .ok t
  | none =>
    if name.toList.contains '/' && s.disk.has ⟨name⟩ then
      .error (126, name ++ ": Permission denied")
    else .error (127, name ++ ": not found")

/-- What a command prints goes to its streams: the shell, the status, and what the next command
reads. -/
def deliver (s : Shell) (st : Streams) (o : Outcome) : Shell × Bytes :=
  let (s, a) := s.emit st.output o.output
  let (s, b) := s.emit st.complaints o.complaints
  (s, a ++ b)

/-- A status, with the complaint that goes with it. -/
def failed (s : Shell) (line : Nat) (st : Streams) (status : Nat) (text : Option String) :
    Shell × Bytes :=
  let c := match text with
    | some t => s.complaint line t
    | none => []
  deliver { s with last := status } st ⟨.status status, [], c⟩

/-- A command whose words and streams are known. After `exec` the shell has ended. -/
def runWords (s : Shell) (line : Nat) (st : Streams) : List String → Shell × Bytes
  | [] => ({ s with last := 0 }, [])
  | "exec" :: name :: args =>
    let (s, b) := s.runWords line st (name :: args)
    ({ s with ended := some (s.ended.getD (.status s.last)) }, b)
  | name :: args =>
    match s.own? name args with
    | some (s, status, text) => s.failed line st status text
    | none =>
      match s.tool name with
      | .error (status, text) => s.failed line st status (some text)
      | .ok t =>
        let o := t s.disk args st.input
        let status := match o.ending with
          | .status n => n
          | .signal n => 128 + n
        deliver { s with last := status } st o

/-- A command: its redirections, then its words. -/
def runSimple (s : Shell) (line : Nat) (st : Streams) (c : Simple) : Shell × Bytes :=
  match s.redirectAll st c.redirections with
  | .error e => s.failed line st 2 (some e)
  | .ok (st, s) =>
    let (as, words) := assignments c.words
    let args := words.flatMap s.expand
    let s := as.foldl
      (fun s (n, w) => { s with bindings := (n, s.expandOne w) :: s.bindings }) s
    s.runWords line st args

/-- The commands of a pipeline, each of which reads what the one before it printed. -/
def runCommands (line : Nat) (input : Bytes) : List Simple → Shell → Shell
  | [], s => s
  | [c], s => (s.runSimple line ⟨input, .output, .complaints⟩ c).1
  | c :: cs, s =>
    let (t, b) := s.runSimple line ⟨input, .next, .complaints⟩ c
    runCommands line b cs { t with ended := s.ended, bindings := s.bindings }

/-- The pipeline is to run after a status. -/
def applies (c : Condition) (last : Nat) : Bool :=
  match c with
  | .always => true
  | .afterSuccess => last == 0
  | .afterFailure => last != 0

/-- The pipelines of a script, until the shell has ended. -/
def run (s : Shell) : List Pipeline → Shell
  | [] => s
  | p :: ps =>
    if s.ended.isSome then s
    else if applies p.condition s.last then (runCommands p.line [] p.commands s).run ps
    else s.run ps

/-- What came of a shell that has gone through its script. -/
def outcome (s : Shell) : Outcome :=
  ⟨s.ended.getD (.status s.last), s.output, s.complaints⟩

/-! ## 4. The launcher

A program is looked up by its name, with or without the folder it is in. What is not known cannot be
started. -/

/-- A script run with a name and arguments. The current directory of the disk is the shell's own
matter. -/
def runScript (script name : String) (args : List String) (d : Disk) : Outcome × Disk :=
  match parse? script with
  | none =>
    (.complained 2 (name ++ ": 1: Syntax error"), d)
  | some ps =>
    let s := run ⟨name, args, [], d, [], [], 0, none⟩ ps
    (s.outcome, { s.disk with current := d.current })

/-- A shell started with its arguments: a script after `-c`, or the file of one. -/
def program (name : String) (args : List String) (d : Disk) : Outcome × Disk :=
  match args with
  | ["-c"] => (.complained 2 (name ++ ": 0: -c requires an argument"), d)
  | "-c" :: script :: [] => runScript script name [] d
  | "-c" :: script :: zero :: rest => runScript script zero rest d
  | [] => (.quiet 0, d)
  | file :: rest =>
    if "-".toList.isPrefixOf file.toList then
      (.complained 2 (name ++ ": 0: Illegal option " ++ String.ofList (file.toList.take 2)), d)
    else match d.readText ⟨file⟩ with
      | .ok script => runScript script file rest d
      | .error f =>
        let why := match f with
          | .notFound | .notFolder => "No such file"
          | f => f.reason
        (.complained 2 (name ++ ": 0: cannot open " ++ file ++ ": " ++ why), d)

/-- The names of the shell. -/
def names : List String := ["sh", "dash"]

/-- Why a program that is not a tool cannot be started: files do not have the right to be run,
and neither has a folder. -/
def startFault (name : String) (d : Disk) : Fault :=
  if name = "." ∨ name = ".." then .denied
  else if name.toList.contains '/' then
    match d.resolve ⟨name⟩ with
    | .ok _ => .denied
    | .error e => e
  else .notFound

/-- Starts the tools and the shell, by name or from their folders. -/
def launch : Launcher := fun name args d =>
  let bare := Tool.bareName name
  if names.contains bare then
    let (o, d) := program name args d
    (.ok o, d)
  else match Tool.programs.lookup bare with
    | some t => (.ok (t d args []), d)
    | none => (.error (.fault (startFault name d)), d)

end Shell

end UpgradeScan
