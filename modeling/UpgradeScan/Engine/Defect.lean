/-
`Engine/Defect.lean` -- what can be wrong with the document that the engine prints.

A defect of content has a wording of its own. All defects of the JSON text itself are one: the
document is malformed, and no wording is given.

The content is wrong where a value does not fit its place, a name is outside its list, a member is
missing or given twice, or an array is too short for the entry that it is. Each defect carries what
its message says about it: what was expected and what was found, or the name of the member. So the
message is a function of the defect, and to know which defect is reported is to know the text.

What the defect does not carry is its position. The message goes on with it, in words that are not
the program's own, and they are added from outside.
-/
import UpgradeScan.Change
import UpgradeScan.Json.Printer
import UpgradeScan.Text.Quoted

set_option autoImplicit false

namespace UpgradeScan

/-- What a place in the document has to hold. -/
inductive Expected where
  | text
  | path
  | lineNumber
  | list
  | directory
  | file
  | finding
  deriving DecidableEq, Repr

/-- The wording of an expectation. -/
def Expected.name : Expected → String
  | .text => "a string"
  | .path => "path string"
  | .lineNumber => "usize"
  | .list => "a sequence"
  | .directory => "struct WireDirectory"
  | .file => "struct WireFile"
  | .finding => "struct WireMatch"

/-- The number of members of an entry. -/
def Expected.width : Expected → Nat
  | .finding => 6
  | _ => 2

/-- What stands there instead. -/
inductive Found where
  | null
  | bool (b : Bool)
  | number (n : JsonNumber)
  | string (s : String)
  | list
  | object
  deriving DecidableEq, Repr

/-- The wording of what was found. -/
def Found.name : Found → String
  | .null => "null"
  | .bool true => "boolean `true`"
  | .bool false => "boolean `false`"
  | .number n =>
    let kind := match n with
      | .real _ => "floating point"
      | _ => "integer"
    kind ++ " `" ++ String.ofList n.text ++ "`"
  | .string s => "string " ++ Text.quoted s
  | .list => "sequence"
  | .object => "map"

/-- The first thing that is wrong with a document. -/
inductive Defect where
  /-- The text is not JSON, or a used string stands for no text. -/
  | malformed
  /-- A value of the wrong kind. -/
  | wrongKind (found : Found) (expected : Expected)
  /-- A line number below zero. -/
  | negativeLine (n : Nat)
  /-- An entry given as an array without a member that it needs. -/
  | tooShort (position : Nat) (expected : Expected)
  /-- An entry without a member that it needs. -/
  | missing (member : String)
  /-- An entry with a member given twice. -/
  | duplicate (member : String)
  /-- A category or confidence outside its list. -/
  | unknownName (name : UnknownName)
  deriving DecidableEq, Repr

/-- The wording of a defect, if it has one. -/
def Defect.wording? : Defect → Option String
  | .malformed => none
  | .wrongKind f e => some ("invalid type: " ++ f.name ++ ", expected " ++ e.name)
  | .negativeLine n =>
    some ("invalid value: integer `-" ++ String.ofList (Number.digits n) ++ "`, expected usize")
  | .tooShort n e =>
    some ("invalid length " ++ String.ofList (Number.digits n) ++ ", expected " ++ e.name ++
      " with " ++ String.ofList (Number.digits e.width) ++ " elements")
  | .missing m => some ("missing field `" ++ m ++ "`")
  | .duplicate m => some ("duplicate field `" ++ m ++ "`")
  | .unknownName n => some n.message

/-- The message about a document with this defect, as far as it is known from the defect alone.
Where in the document it was found is said after it. -/
def Defect.message (d : Defect) : String :=
  match d.wording? with
  | none => "invalid scanner output"
  | some w => "invalid scanner output: " ++ w

end UpgradeScan
