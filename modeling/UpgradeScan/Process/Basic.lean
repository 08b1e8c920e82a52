/-
`Process/Basic.lean` -- starting a program and what comes of it.

A program gets arguments and nothing to read, and works in the current directory. It may change the
disk, writes to two streams, and ends by itself or by a signal. Which programs there are is not said
here: that is what a launcher knows.

The machine that a scan runs on is a disk and a stream to print to. The stream is not under control
of the scan: it may take everything, or a part of what is printed and then meet a fault.

Printing therefore has a result. What arrived can be seen whether or not there was room for the
rest, so a text is not all or nothing: a part of it may have been shown by a run that failed. The
programs that were started are kept in the machine too, because that an engine was started once, or
not at all, is something that is said about runs.
-/
import UpgradeScan.Files.Disk
import UpgradeScan.Number.Shortest

set_option autoImplicit false

namespace UpgradeScan

/-- How a process ended. -/
inductive Ending where
  /-- By itself, with a status. -/
  | status (n : Nat)
  /-- By a signal. -/
  | signal (n : Nat)
  deriving DecidableEq, Repr

/-- The names of the signals, the first of which has number 1. -/
def signalNames : List String :=
  ["HUP", "INT", "QUIT", "ILL", "TRAP", "ABRT", "BUS", "FPE", "KILL", "USR1", "SEGV", "USR2",
    "PIPE", "ALRM", "TERM", "STKFLT", "CHLD", "CONT", "STOP", "TSTP", "TTIN", "TTOU", "URG",
    "XCPU", "XFSZ", "VTALRM", "PROF", "WINCH", "IO", "PWR", "SYS"]

/-- The name of a signal that has one. -/
def signalName? (n : Nat) : Option String := if n = 0 then none else signalNames[n - 1]?

/-- The wording of an end. -/
def Ending.message : Ending → String
  | .status n => "exit status: " ++ String.ofList (Number.digits n)
  | .signal n =>
    "signal: " ++ String.ofList (Number.digits n) ++
      match signalName? n with
      | some s => " (SIG" ++ s ++ ")"
      | none => ""

/-- Why a process did not start. -/
inductive StartFault where
  | fault (f : Fault)
  /-- A name or an argument with the character U+0000. -/
  | nulInArgument
  deriving DecidableEq, Repr

/-- The wording of a failed start. -/
def StartFault.message : StartFault → String
  | .fault f => f.message
  | .nulInArgument => "nul byte found in provided data"

/-- What came of a program that was started. -/
structure Outcome where
  ending : Ending
  output : Bytes
  complaints : Bytes
  deriving DecidableEq, Repr

/-- The end of a program without complaint. -/
def Ending.isSuccess (e : Ending) : Bool := e == .status 0

/-- Starts programs: by name, with arguments, on a disk. -/
abbrev Launcher := String → List String → Disk → Except StartFault Outcome × Disk

/-- A stream that is printed to. What is written after the room is used up meets a fault: the other
end of a pipe is closed, say, or the disk that a file is on is full. -/
structure Output where
  /-- What has arrived so far. -/
  arrived : Bytes := []
  /-- How many more bytes arrive, and the fault after them; `none` where everything arrives. -/
  room : Option (Nat × Fault) := none
  deriving DecidableEq, Repr, Inhabited

namespace Output

/-- Bytes are written. Where there is no room for all of them, those that there is room for still
arrive. -/
def write (bytes : Bytes) (out : Output) : Except Fault Unit × Output :=
  match out.room with
  | none => (.ok (), { out with arrived := out.arrived ++ bytes })
  | some (n, f) =>
    if bytes.length ≤ n then
      (.ok (), ⟨out.arrived ++ bytes, some (n - bytes.length, f)⟩)
    else (.error f, ⟨out.arrived ++ bytes.take n, some (0, f)⟩)

end Output

/-- What a scan can act on: the disk, and what it prints to. The programs that it tried to start
are kept, the last first. -/
structure Machine where
  disk : Disk
  output : Output
  started : List (String × List String)
  deriving Inhabited

namespace Machine

/-- A machine on which nothing has happened. -/
def fresh (d : Disk) (room : Option (Nat × Fault) := none) : Machine :=
  ⟨d, { room := room }, []⟩

/-- A program is started. No text that a program gets may hold the character U+0000. -/
def start (launch : Launcher) (program : String) (args : List String) (m : Machine) :
    Except StartFault Outcome × Machine :=
  let m := { m with started := (program, args) :: m.started }
  if (program :: args).any (·.toList.contains '\x00') then (.error .nulInArgument, m)
  else
    let (r, d) := launch program args m.disk
    (r, { m with disk := d })

/-- A text is printed. -/
def print (s : String) (m : Machine) : Except Fault Unit × Machine :=
  let (r, out) := m.output.write (Text.Utf8.bytes s)
  (r, { m with output := out })

/-- What was printed, as text. -/
def printed (m : Machine) : String := Text.Utf8.lossy m.output.arrived

end Machine

end UpgradeScan
