/-
`Files/Excerpt.lean` -- lines of a source file, for the report.

A file has as many readable lines as come before the first line that is not UTF-8. A line is shown
without the blanks around it. An excerpt around a line is a window of fixed length: near the top of
the file it shows more of what follows. Line numbers and the sizes of windows are machine words: a
difference stops at zero and a sum at the largest word.

The window begins so many lines above the line, or at the top, and has its whole length from there.
At the end of the file it is cut off. A line number of zero and one beyond the end are no faults,
they show what there is. A file that cannot be read has no lines.
-/
import UpgradeScan.Files.Disk
import UpgradeScan.Text.Blank

set_option autoImplicit false

namespace UpgradeScan

/-- The lines of a content, each decoded; reading ends before the first that is not text. -/
def readableLines (c : Bytes) : List (List Char) :=
  ((Text.lines 0x0A 0x0D c).map Text.Utf8.decode?).takeWhile Option.isSome |>.filterMap id

namespace Disk

/-- The readable lines of a file, trimmed; none when it cannot be read. -/
def sourceLines (d : Disk) (p : Path) : List (List Char) :=
  match d.read p with
  | .ok c => (readableLines c).map Text.trim
  | .error _ => []

/-- The line with that number, counted from 1; empty when there is none. -/
def lineAt (d : Disk) (p : Path) (line : Nat) : String :=
  if line = 0 then "" else String.ofList (((d.sourceLines p)[line - 1]?).getD [])

/-- The largest machine word. -/
def maxWord : Nat := Nat.pow 2 64 - 1

/-- The sum of two words, or the largest word. -/
def addWords (a b : Nat) : Nat := min (a + b) maxWord

/-- The number of lines above the window: it starts `before` lines above a line, or at the top
of the file. -/
def linesAbove (line before : Nat) : Nat := line - 1 - before

/-- The number of lines that the window may show. -/
def windowSize (before after : Nat) : Nat := addWords (addWords before after) 1

/-- The lines of the window around a line. -/
def linesAround (d : Disk) (p : Path) (line before after : Nat) : String :=
  let window := ((d.sourceLines p).drop (linesAbove line before)).take (windowSize before after)
  String.ofList (Text.join ['\n'] window)

end Disk

end UpgradeScan
