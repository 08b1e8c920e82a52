/-
`Main.lean` -- the program on a real file system.

What a scan can look at is read into a disk, the scan is carried out on it, and what it wrote and
printed goes out again. Nothing is decided here.

Whether the output takes what is printed is known only when it goes out. If it does not, the scan is
carried out once more, with an output that has no room, to learn its status and its complaint. That
is possible because a scan changes nothing but its machine.
-/
import UpgradeScan.CommandLine.Run
import UpgradeScan.Files.Written
import UpgradeScan.Process.Shell

set_option autoImplicit false

namespace UpgradeScan.Main

/-! ## 1. Reading the disk

The paths that a command line can make the program look at are known from its arguments and from the
configuration that they lead to. Everything below them is read before the scan begins. -/

/-- A tree of the file system. Links are not followed, what cannot be read is left out, and of
a repository's own folder only that it is there is kept. -/
partial def load (entry : IO.FS.DirEntry) : IO (Option Node) := do
  try
    match (← entry.path.symlinkMetadata).type with
    | .dir =>
      if entry.fileName.endsWith Configuration.repositoryMark then return some (.folder [])
      let mut es : List (String × Node) := []
      for e in ← entry.path.readDir do
        if let some n ← load e then es := (e.fileName, n) :: es
      return some (.folder es.reverse)
    | .file => return some (.file (← IO.FS.readBinFile entry.path).toList)
    | _ => return none
  catch _ => return none

/-- The disk with the tree that a path names, where the file system has one. -/
def gather (d : Disk) (p : Path) : IO Disk := do
  if d.has p then return d
  let place := d.place p
  match ← load ⟨"/", "/".intercalate place⟩ with
  | some n => return { d with root := Node.setAt place n d.root }
  | none => return d

/-- The disk with several trees. -/
def gatherAll (d : Disk) (ps : List Path) : IO Disk := ps.foldlM gather d

/-- The paths that settings name. -/
def named (s : Settings) : List Path :=
  s.templates.toList ++ [s.changelog, s.links] ++ s.matchers

/-- The places where a configuration may be: the names of one in a folder and above it. -/
def configurationPaths (start : Path) : List Path :=
  start.ancestors.flatMap fun p =>
    (Configuration.fileNames ++ [Configuration.repositoryMark]).map fun n => p.join ⟨n⟩

/-- The paths that a command line names. -/
def argumentPaths (args : List String) : List Path :=
  match CommandLine.parse args with
  | .ok (.scan path a) => path :: (a.config.toList.map Path.mk ++ a.templates.toList.map Path.mk)
  | _ => []

/-- The settings of a command line, as far as the disk is known. -/
def settings? (d : Disk) (home : Path) (args : List String) : Option Settings :=
  match CommandLine.parse args with
  | .ok (.scan _ a) => (Settings.resolve d home (Disk.pathOf d.current) a.overrides).toOption
  | _ => none

/-- What a command line can make the program look at. -/
def snapshot (current home : Path) (args : List String) : IO Disk := do
  let d : Disk := ⟨.folder [], []⟩
  let d := d.putFolder current
  let d : Disk := { d with current := d.place current }
  let d ← match ← load ⟨"/", current.text⟩ with
    | some n => pure { d with root := Node.setAt d.current n d.root }
    | none => pure d
  let d ← gatherAll d (configurationPaths current ++ argumentPaths args)
  match settings? d home args with
  | some s => gatherAll d (named s)
  | none => return d

/-! ## 2. Running

The files that were written go out first, then what was printed, and the complaint last. -/

/-- The help that goes with a refused command line. -/
def usage : String :=
  "Usage: " ++ CommandLine.programName ++ " scan [options] <path>\n"
    ++ "       " ++ CommandLine.programName ++ " version\n"

/-- What kept a text from being printed. -/
def faultOf : IO.Error → Fault
  | .resourceVanished number _ => .other number.toNat "Broken pipe"
  | .resourceExhausted _ number _ => .other number.toNat "No space left on device"
  | e => .other 5 e.toString

/-- The files that a run has written go out. -/
def writeFiles (before : Disk) (f : Finish) : IO Unit := do
  for (p, c) in before.written f.machine.disk do
    IO.FS.writeBinFile p.text ⟨c.toArray⟩

/-- What a run has printed goes out. -/
def print (f : Finish) : IO (Except Fault Unit) := do
  try
    IO.print f.machine.printed
    (← IO.getStdout).flush
    return .ok ()
  catch e => return .error (faultOf e)

/-- The complaint of a run goes out, or the help for a command line that was refused. -/
def complain (f : Finish) : IO Unit := do
  match f.complaint with
  | some c => IO.eprintln c
  | none => pure ()
  match f.refusal with
  | some .version | none => pure ()
  | some .help => IO.print usage
  | some _ => IO.eprint usage

/-- Runs the program with its arguments. The time that it reports is what it took to read the
disk. -/
def run (args : List String) : IO UInt32 := do
  let began ← IO.monoNanosNow
  let current : Path := ⟨(← IO.currentDir).toString⟩
  let home : Path := (Path.parent? ⟨(← IO.appPath).toString⟩).getD ⟨"/"⟩
  let args := CommandLine.programName :: args
  let d ← snapshot current home args
  let seconds := Number.Binary64.ofRatio false ((← IO.monoNanosNow) - began) 1000000000
  let finish (room : Option (Nat × Fault)) : Finish :=
    CommandLine.run Shell.launch home seconds args (Machine.fresh d room)
  let f := finish none
  writeFiles d f
  let f := match ← print f with
    | .ok () => f
    | .error fault => finish (some (0, fault))
  complain f
  return UInt32.ofNat f.status

end UpgradeScan.Main

/-- The program. -/
def main (args : List String) : IO UInt32 := UpgradeScan.Main.run args
