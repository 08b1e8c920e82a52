/-
`Report/Function.lean` -- what templates can ask for besides the data.

Titles and addresses come from the changelog, excerpts from the scanned files. An argument is used
as text or as a count; a missing one counts as empty text or as no count.

No helper fails. What cannot be found is empty, so a report does not depend on the scanned files
being still there. Two of the helpers remember what they looked up; all others look at the disk and
at their arguments alone (`pureHelper`).
-/
import UpgradeScan.Files.Changelog
import UpgradeScan.Template.Render

set_option autoImplicit false

namespace UpgradeScan

open UpgradeScan.Template

namespace HelperArg

/-- The argument as text. -/
def text (args : List Json) (i : Nat) : String :=
  match args[i]? with
  | none => ""
  | some .null => ""
  | some (.string s) => s
  | some v => String.ofList v.compact

/-- The magnitude of an integer of 64 bits, with or without a sign, as it is written. -/
def magnitude? (s : List Char) : Option Nat :=
  let within (limit : Nat) (n : Option Nat) : Option Nat := n.filter (· ≤ limit)
  match s with
  | '+' :: ds => within (Nat.pow 2 64 - 1) (Number.natural? ds)
  | '-' :: ds => within (Nat.pow 2 63) (Number.natural? ds)
  | ds => within (Nat.pow 2 64 - 1) (Number.natural? ds)

/-- The argument as a count: the magnitude of an integer, given as a number or as text. -/
def count? (args : List Json) (i : Nat) : Option Nat :=
  match args[i]? with
  | some (.number (.natural n)) => some n
  | some (.number (.negative n)) => some n
  | some (.string s) => magnitude? (Text.trim s.toList)
  | _ => none

end HelperArg

/-- A path seen from a base. Where that is no path, or the empty one, the path stays. -/
def relativeText (path base : String) : String :=
  if base.isEmpty then path
  else match Path.relativeTo? ⟨path⟩ ⟨base⟩ with
    | some r => if r.text.isEmpty then path else r.text
    | none => path

/-- The text with a backslash before every dollar sign. -/
def escapeDollar (s : String) : String :=
  String.ofList (Text.replace ['$'] ['\\', '$'] s.toList)

/-- A helper that neither reads nor changes the state. -/
def pureHelper (f : List Json → String) : Helper Changelog := fun args => return f args

/-- The helpers of reports. -/
def reportHelper? (d : Disk) (name : String) : Option (Helper Changelog) :=
  if name = "change_title" then
    some fun args => modifyGet fun c => c.title d (HelperArg.text args 0)
  else if name = "online_document" then
    some fun args => modifyGet fun c => c.url d (HelperArg.text args 0)
  else if name = "line_from_file" then
    some (pureHelper fun args =>
      d.lineAt ⟨HelperArg.text args 0⟩ ((HelperArg.count? args 1).getD 0))
  else if name = "lines_from_file" then
    some (pureHelper fun args =>
      d.linesAround ⟨HelperArg.text args 0⟩ ((HelperArg.count? args 1).getD 0)
        ((HelperArg.count? args 2).getD 2) ((HelperArg.count? args 3).getD 2))
  else if name = "filename" then
    some (pureHelper fun args => (Path.fileStem? ⟨HelperArg.text args 0⟩).getD "")
  else if name = "escape_dollar" then
    some (pureHelper fun args => escapeDollar (HelperArg.text args 0))
  else if name = "relative_path" then
    some (pureHelper fun args => relativeText (HelperArg.text args 0) (HelperArg.text args 1))
  else none

end UpgradeScan
