/-
`Files/Document.lean` -- the documents that describe changes, and where they are found.

A finding only carries the name of its document. The title is taken from the file of that name
anywhere below the changelog directory, the address from the first entry of the links file that ends
with the page of that name. A missing source, a missing entry or an unreadable file gives the empty
answer.

Two documents of the oldest rules are in neither source, and their titles and addresses are fixed.

The functions of the first section work on what was read, those of the second one read it. Only the
second ones can meet a fault, and none of them passes it on: a report is worth having without
titles. What is read is used as far as it is text. A title is found up to the first line that is
not, while a links file that is not text as a whole has no entries.
-/
import UpgradeScan.Files.Excerpt

set_option autoImplicit false

namespace UpgradeScan

namespace Document

/-! ## 1. What the sources say

Titles, addresses and the index of documents, as functions of contents and trees. The index is in
the order of a walk in which the entries of each folder are sorted by name and an entry comes before
what is below it, so "the first of a name" does not depend on how the tree is written down. -/

/-- The address of the pages named in the links file. -/
def pagesUrl : String := "https://docs.typo3.org/typo3cms/extensions/core/"

/-- A document without an entry in the changelog. -/
structure Legacy where
  name : String
  title : String
  url : String

/-- The two documents of the oldest name rules. -/
def legacies : List Legacy :=
  [⟨"Deprecation-legacy-files.md", "Renamed TYPO3 core libraries",
      "https://gist.github.com/Tuurlijk/f857bf41e559ce3908290fb96d98b5e4"⟩,
    ⟨"Deprecation-non-namespaced.md", "Use of non-namespaced classes",
      "https://gist.github.com/Tuurlijk/79aba880880e6340ffd2720ff1c5b623"⟩]

/-- The legacy document of that name. -/
def legacy? (name : String) : Option Legacy := legacies.find? fun l => l.name == name

/-- A legacy document is found by its name. -/
theorem legacy?_of_mem {l : Legacy} (h : l ∈ legacies) : legacy? l.name = some l := by
  rw [legacies, List.mem_cons, List.mem_singleton] at h
  rcases h with rfl | rfl
  · rfl
  · rfl

/-- No other name is that of a legacy document. -/
theorem legacy?_eq_none {name : String} (h : ∀ l ∈ legacies, l.name ≠ name) :
    legacy? name = none := by
  rw [legacy?, List.find?_eq_none]
  intro l hl
  simpa using h l hl

/-- The name that a rule is looked up by: the last name of its path. -/
def nameOf (rule : String) : String := (Path.fileName? ⟨rule⟩).getD ""

/-- The first line after the first marker line that is not blank. A marker line begins with an
equals sign. `none` when a line before that is not text. -/
def titleIn : Bool → List (Option (List Char)) → Option (List Char)
  | _, [] => some []
  | _, none :: _ => none
  | true, some l :: ls => if Text.trim l = [] then titleIn true ls else some (Text.trim l)
  | false, some l :: ls => titleIn (l.head? == some '=') ls

/-- The title in the content of a document. -/
def titleOf (c : Bytes) : String :=
  String.ofList ((titleIn false ((Text.lines 0x0A 0x0D c).map Text.Utf8.decode?)).getD [])

/-- The entries of a links file: its lines without trailing blanks, except the empty ones. -/
def linksIn (text : List Char) : List (List Char) :=
  ((Text.lines '\n' '\r' text).map Text.trimRight).filter (· != [])

/-- The page of a document. -/
def pageOf (name : String) : List Char :=
  Text.replace ['.', 'r', 's', 't'] ['.', 'h', 't', 'm', 'l'] name.toList

/-- The address of a document among the entries of a links file. -/
def urlAmong (links : List (List Char)) (name : String) : String :=
  match links.find? (Text.endsWith (pageOf name)) with
  | some link => pagesUrl ++ String.ofList link
  | none => ""

/-- The name is that of a document. -/
def isDocument (name : String) : Bool := Text.endsWith ['.', 'r', 's', 't'] name.toList

mutual

/-- Every document below a node, with its path, in the order of a walk: entries by name, and
each entry before what is below it. -/
def documents : Node → Path → List (String × Path)
  | .file _, _ => []
  | .folder es, p =>
    ((documentsIn es p).mergeSort fun a b => Text.Utf8.bytes a.1 ≤ Text.Utf8.bytes b.1).flatMap
      (·.2)
termination_by structural n => n

/-- Beside the name of each entry, the documents that it is and has below it. -/
def documentsIn : List (String × Node) → Path → List (String × List (String × Path))
  | [], _ => []
  | (name, node) :: es, p =>
    let q := p.join ⟨name⟩
    (name, (if isDocument name then [(name, q)] else []) ++ documents node q) ::
      documentsIn es p
termination_by structural es => es

end

/-! ## 2. The sources on a disk

Each source, read from a disk as it is at that time. -/

/-- The documents below a directory; none when it is no directory. -/
def readIndex (d : Disk) (dir : Path) : List (String × Path) :=
  match d.node dir with
  | .ok n => documents n dir
  | .error _ => []

/-- The entries of a links file; none when it is missing or not text. -/
def readLinks (d : Disk) (file : Path) : List (List Char) :=
  match d.readText file with
  | .ok s => linksIn s.toList
  | .error _ => []

/-- The title of the document at a path; empty when it cannot be read. -/
def readTitle (d : Disk) (p : Path) : String :=
  match d.read p with
  | .ok c => titleOf c
  | .error _ => ""

end Document

end UpgradeScan
