/-
`Proofs/Engine/Spelling.lean` -- how the engine may write a report down.

The report of the engine is a document that some other program writes. What the reader accepts is
therefore an interface, and it is stated here without a reader: `Spelling b r` says which bytes `b`
spell the report `r`. That the reader accepts exactly these is proved in
`Proofs/Engine/Reading.lean`; everything else that is said about documents rests on it.

A directory, a file and a finding is each an object or an array. In an object every member that
counts is given once, or at most once where it has a default, anywhere among members of other names,
whose values may be anything that is a value. In an array the members stand in the order of
declaration, and only a tail that has defaults may be missing. The two forms can be mixed from level
to level.

The relations are built from the inside out, from single values to the document. Two things make
them less regular than they might be. A finding may leave its source open, and what the source is
then depends on the file around it, whose path may come later in the text; so a finding is read as a
draft (`DraftText`) and settled by its file. And a name is known in any case and with blanks around
it, so many texts spell one category.
-/
import UpgradeScan.Engine.Reader
import UpgradeScan.Proofs.Json.Grammar

set_option autoImplicit false

namespace UpgradeScan.EngineText

open UpgradeScan.JsonText

/-! ## 1. Members of an entry

The values that stand under a name, and how many of them there may be. -/

section Members

variable {α : Type}

/-- The values of the members of that name. -/
def valuesOf (k : String) (ms : List (String × Bytes)) : List Bytes :=
  (ms.filter fun m => m.1 == k).map (·.2)

/-- One value and what it spells. -/
def One (S : Bytes → α → Prop) (ts : List Bytes) (a : α) : Prop := ∃ t, ts = [t] ∧ S t a

/-- One value, or none for the default. -/
def AtMostOne (S : Bytes → α → Prop) (default : α) (ts : List Bytes) (a : α) : Prop :=
  ts = [] ∧ a = default ∨ One S ts a

end Members

/-! ## 2. Single values

What stands in the place of one value. Numbers are those of the machine, and nothing but the plain
decimal digits of one is a line. -/

/-- A path. -/
def PathText (t : Bytes) (p : Path) : Prop := Quoted t p.text

/-- A path, or `null` for none. -/
def OptionalPathText (t : Bytes) (o : Option Path) : Prop :=
  t = 0x6E :: restOfNull ∧ o = none ∨ ∃ p, PathText t p ∧ o = some p

/-- The name of a category, in any ASCII case and with blanks around it. -/
def CategoryText (t : Bytes) (c : Category) : Prop :=
  ∃ s, Quoted t s ∧ Text.sameLetters c.name (Text.trimmed s) = true

/-- The name of a confidence, in any ASCII case and with blanks around it. -/
def ConfidenceText (t : Bytes) (c : Confidence) : Prop :=
  ∃ s, Quoted t s ∧ Text.sameLetters c.name (Text.trimmed s) = true

/-- A line number: the decimal digits of a natural number of 64 bits. -/
def LineText (t : Bytes) (n : Nat) : Prop :=
  n < Nat.pow 2 64 ∧ t = Text.Utf8.encode (Number.digits n)

/-! ## 3. Findings

A finding has four members that it needs and two that have defaults: no source, which leaves the
file to decide, and the empty message. -/

/-- The members of a finding. -/
def findingNames : List String :=
  ["type", "indicator", "ruleFile", "sourceFile", "line", "message"]

/-- A finding. Its source may be left open. -/
inductive DraftText : Bytes → Draft → Prop
  | object {t : Bytes} {ms : List (String × Bytes)} {d : Draft} (h : ObjectText Quoted t ms)
      (hcategory : One CategoryText (valuesOf "type" ms) d.category)
      (hconfidence : One ConfidenceText (valuesOf "indicator" ms) d.confidence)
      (hrule : One Quoted (valuesOf "ruleFile" ms) d.rule)
      (hsource : AtMostOne OptionalPathText none (valuesOf "sourceFile" ms) d.source)
      (hline : One LineText (valuesOf "line" ms) d.line)
      (hmessage : AtMostOne Quoted "" (valuesOf "message" ms) d.message)
      (hother : ∀ m ∈ ms, m.1 ∉ findingNames → Value m.2) : DraftText t d
  | array {t category confidence rule source line : Bytes} {rest : List Bytes} {d : Draft}
      (h : ListText Eq t (category :: confidence :: rule :: source :: line :: rest))
      (hcategory : CategoryText category d.category)
      (hconfidence : ConfidenceText confidence d.confidence)
      (hrule : Quoted rule d.rule)
      (hsource : OptionalPathText source d.source)
      (hline : LineText line d.line)
      (hmessage : AtMostOne Quoted "" rest d.message) : DraftText t d

/-! ## 4. Files

A file has a path and findings, which are none if they are not given. -/

/-- The members of a file. -/
def fileNames : List String := ["path", "matches"]

/-- A file with its findings. A finding whose source was left open is in this file. -/
inductive FileText : Bytes → FileReport → Prop
  | object {t : Bytes} {ms : List (String × Bytes)} {path : Path} {drafts : List Draft}
      (h : ObjectText Quoted t ms)
      (hpath : One PathText (valuesOf "path" ms) path)
      (hfindings : AtMostOne (ListText DraftText) [] (valuesOf "matches" ms) drafts)
      (hother : ∀ m ∈ ms, m.1 ∉ fileNames → Value m.2) :
      FileText t ⟨path, drafts.map (Draft.settle path)⟩
  | array {t first : Bytes} {rest : List Bytes} {path : Path} {drafts : List Draft}
      (h : ListText Eq t (first :: rest))
      (hpath : PathText first path)
      (hfindings : AtMostOne (ListText DraftText) [] rest drafts) :
      FileText t ⟨path, drafts.map (Draft.settle path)⟩

/-! ## 5. The directory and the document

The directory has a path and files. A document is one directory and blanks. -/

/-- The members of the directory. -/
def directoryNames : List String := ["path", "files"]

/-- The directory with its files. -/
inductive DirectoryText : Bytes → Report → Prop
  | object {t : Bytes} {ms : List (String × Bytes)} {r : Report} (h : ObjectText Quoted t ms)
      (hpath : One PathText (valuesOf "path" ms) r.path)
      (hfiles : AtMostOne (ListText FileText) [] (valuesOf "files" ms) r.files)
      (hother : ∀ m ∈ ms, m.1 ∉ directoryNames → Value m.2) : DirectoryText t r
  | array {t first : Bytes} {rest : List Bytes} {r : Report} (h : ListText Eq t (first :: rest))
      (hpath : PathText first r.path)
      (hfiles : AtMostOne (ListText FileText) [] rest r.files) : DirectoryText t r

/-- One text of a directory, with nothing but blanks around it. -/
def Spelling (b : Bytes) (r : Report) : Prop :=
  ∃ w t w', Blanks w ∧ Blanks w' ∧ DirectoryText t r ∧ b = w ++ (t ++ w')

end UpgradeScan.EngineText
