/-
`Engine/Reader.lean` -- the report of the engine, read from its bytes.

The document is read once from left to right, and the first defect ends the reading: a bad value
where it stands, a repeated member at its name, a missing member at the end of its entry, in the
order of declaration. A directory, a file and a finding is each written as an object, with its
members in any order and any others passed over, or as an array in the order of declaration. A
finding without a source is in the file that it is listed under, which may be named after the
finding; findings are therefore drafts until their file is complete.

The three kinds of entry are read alike. Each has a record of the members read so far, one function
that takes a member into it, one that finishes it, and one for the form of an array. What they share
does not know which entry it is for: going through the members of an object and the items of an
array, a member given at most once, an item that has to be there. What differs is the names of the
members and how each value is read.

Nothing is built between the bytes and the report. A value that is not used is only passed over, so
it need not be one that could be used, while a value that is used has to fit its place exactly.
-/
import UpgradeScan.Engine.Defect
import UpgradeScan.Json.Cursor
import UpgradeScan.Report.Basic

set_option autoImplicit false

namespace UpgradeScan

namespace EngineText

open UpgradeScan.JsonText

/-! ## 1. Places that hold one value

The values at the leaves. A place knows what it expects, and when another value stands there, the
defect names both. -/

/-- What was read and what is left, or the first defect. -/
abbrev Reading (α : Type) := Except Defect (α × Bytes)

/-- A result of the token level, where nothing means malformed. -/
def orMalformed {α : Type} : Option α → Except Defect α
  | some a => .ok a
  | none => .error .malformed

/-- The defect of a place where a value stands that does not fit. -/
def misfit (e : Expected) (s : Bytes) : Defect :=
  let result : Option Found := match s with
    | [] => none
    | b :: r =>
      if b = 0x6E then (word? restOfNull r).map fun _ => .null
      else if b = 0x74 then (word? restOfTrue r).map fun _ => .bool true
      else if b = 0x66 then (word? restOfFalse r).map fun _ => .bool false
      else if b = 0x22 then (string r).map fun (v, _) => .string v
      else if b = 0x2D || isDigit b then (number (b :: r)).map fun (v, _) => .number v
      else if b = 0x5B then some .list
      else if b = 0x7B then some .object
      else none
  match result with
  | some f => .wrongKind f e
  | none => .malformed

/-- A string. -/
def readText (e : Expected) (s : Bytes) : Reading String :=
  match skipSpace s with
  | 0x22 :: r => orMalformed (string r)
  | t => .error (misfit e t)

/-- A path. -/
def readPath (s : Bytes) : Reading Path :=
  match readText .path s with
  | .ok (v, t) => .ok (⟨v⟩, t)
  | .error e => .error e

/-- A path, or `null` for none. -/
def readOptionalPath (s : Bytes) : Reading (Option Path) :=
  match skipSpace s with
  | 0x6E :: r =>
    match word? restOfNull r with
    | some t => .ok (none, t)
    | none => .error .malformed
  | t =>
    match readPath t with
    | .ok (p, u) => .ok (some p, u)
    | .error e => .error e

/-- A name of a closed list. -/
def readName {α : Type} (N : Names α) (s : Bytes) : Reading α :=
  match readText .text s with
  | .error e => .error e
  | .ok (v, t) =>
    match N.read v with
    | .ok c => .ok (c, t)
    | .error n => .error (.unknownName n)

/-- The name of a category. -/
def readCategory : Bytes → Reading Category := readName Category.names

/-- The name of a confidence. -/
def readConfidence : Bytes → Reading Confidence := readName Confidence.names

/-- A line number: a natural below 2^64. -/
def readLine (s : Bytes) : Reading Nat :=
  match skipSpace s with
  | [] => .error .malformed
  | b :: r =>
    if b = 0x2D || isDigit b then
      match number (b :: r) with
      | none => .error .malformed
      | some (.natural n, t) => .ok (n, t)
      | some (.negative n, _) => .error (.negativeLine n)
      | some (.real x, _) => .error (.wrongKind (.number (.real x)) .lineNumber)
    else .error (misfit .lineNumber (b :: r))

/-! ## 2. Arrays and objects

Both readers loop with a bound on the number of rounds. The bound is the number of bytes, of which
each round takes one at least. -/

/-- The next item of an array, or nothing at its end, which is left to be read. -/
def readItem {α : Type} (item : Bytes → Reading α) (first : Bool) (s : Bytes) :
    Reading (Option α) :=
  match skipSpace s with
  | [] => .error .malformed
  | b :: r =>
    if b = 0x5D then .ok (none, b :: r)
    else
      let place : Except Defect Bytes :=
        if first then .ok (b :: r) else if b = 0x2C then .ok r else .error .malformed
      match place with
      | .error e => .error e
      | .ok t =>
        match item t with
        | .ok (a, u) => .ok (some a, u)
        | .error e => .error e

/-- The end of an array. -/
def readEnd (s : Bytes) : Except Defect Bytes :=
  match skipSpace s with
  | 0x5D :: r => .ok r
  | _ => .error .malformed

/-- The items of an array, up to and with its end. `n` bounds their number. -/
def readItems {α : Type} (item : Bytes → Reading α) : Nat → Bool → Bytes → Reading (List α)
  | 0, _, _ => .error .malformed
  | n + 1, first, s =>
    match readItem item first s with
    | .error e => .error e
    | .ok (none, t) =>
      match readEnd t with
      | .ok u => .ok ([], u)
      | .error e => .error e
    | .ok (some a, t) =>
      match readItems item n false t with
      | .ok (as, u) => .ok (a :: as, u)
      | .error e => .error e

/-- An array. -/
def readList {α : Type} (item : Bytes → Reading α) (s : Bytes) : Reading (List α) :=
  match skipSpace s with
  | 0x5B :: r => readItems item (r.length + 1) true r
  | t => .error (misfit .list t)

/-- What follows a colon. -/
def afterColon (s : Bytes) : Except Defect Bytes :=
  match skipSpace s with
  | 0x3A :: r => .ok r
  | _ => .error .malformed

/-- The value of a member whose name was read. -/
def readMember {α : Type} (value : Bytes → Reading α) (s : Bytes) : Reading α :=
  match afterColon s with
  | .ok t => value t
  | .error e => .error e

/-- The value of a member that is given at most once. -/
def readOnce {α : Type} (name : String) (old : Option α) (value : Bytes → Reading α) (s : Bytes) :
    Reading α :=
  match old with
  | some _ => .error (.duplicate name)
  | none => readMember value s

/-- A member that is passed over. -/
def skipMember (s : Bytes) : Except Defect Bytes :=
  match afterColon s with
  | .ok t => orMalformed (skip t)
  | .error e => .error e

/-- The members of an object, up to and with its end. `member` takes the name of each and what
was read before it. `n` bounds their number. -/
def readMembers {σ : Type} (member : String → σ → Bytes → Reading σ) :
    Nat → Bool → σ → Bytes → Reading σ
  | 0, _, _, _ => .error .malformed
  | n + 1, first, st, s =>
    match skipSpace s with
    | [] => .error .malformed
    | b :: r =>
      if b = 0x7D then .ok (st, r)
      else
        let name? : Option Bytes :=
          if first then some (b :: r) else if b = 0x2C then some (skipSpace r) else none
        match name? with
        | some (0x22 :: t) =>
          match string t with
          | none => .error .malformed
          | some (k, u) =>
            match member k st u with
            | .ok (st, v) => readMembers member n false st v
            | .error e => .error e
        | _ => .error .malformed

/-! ## 3. Findings

A finding has six members. Its source may be left out or be `null`, and without a message it has the
empty one. -/

/-- A finding whose source may still be open. -/
structure Draft where
  category : Category
  confidence : Confidence
  rule : String
  source : Option Path
  line : Nat
  message : String

/-- The finding, listed under a file. -/
def Draft.settle (file : Path) (d : Draft) : Finding :=
  ⟨d.category, d.confidence, d.rule, d.source.getD file, d.line, d.message⟩

/-- The members of a finding that were read so far. -/
structure FindingMembers where
  category : Option Category := none
  confidence : Option Confidence := none
  rule : Option String := none
  source : Option (Option Path) := none
  line : Option Nat := none
  message : Option String := none

/-- Files a value that was read. -/
def store {α σ : Type} (put : α → σ) : Reading α → Reading σ
  | .ok (a, t) => .ok (put a, t)
  | .error e => .error e

/-- One member of a finding. -/
def findingMember (k : String) (m : FindingMembers) (s : Bytes) : Reading FindingMembers :=
  if k = "type" then
    store (fun v => { m with category := some v }) (readOnce k m.category readCategory s)
  else if k = "indicator" then
    store (fun v => { m with confidence := some v }) (readOnce k m.confidence readConfidence s)
  else if k = "ruleFile" then
    store (fun v => { m with rule := some v }) (readOnce k m.rule (readText .text) s)
  else if k = "sourceFile" then
    store (fun v => { m with source := some v }) (readOnce k m.source readOptionalPath s)
  else if k = "line" then
    store (fun v => { m with line := some v }) (readOnce k m.line readLine s)
  else if k = "message" then
    store (fun v => { m with message := some v }) (readOnce k m.message (readText .text) s)
  else
    match skipMember s with
    | .ok t => .ok (m, t)
    | .error e => .error e

/-- A complete finding, or the first member that is missing. -/
def FindingMembers.finish (m : FindingMembers) : Except Defect Draft :=
  match m.category with
  | none => .error (.missing "type")
  | some category =>
    match m.confidence with
    | none => .error (.missing "indicator")
    | some confidence =>
      match m.rule with
      | none => .error (.missing "ruleFile")
      | some rule =>
        match m.line with
        | none => .error (.missing "line")
        | some line =>
          .ok ⟨category, confidence, rule, m.source.getD none, line, m.message.getD ""⟩

/-- An item that an array has to have. -/
def needItem {α : Type} (e : Expected) (position : Nat) (item : Bytes → Reading α) (s : Bytes) :
    Reading α :=
  match readItem item (position == 0) s with
  | .ok (some a, t) => .ok (a, t)
  | .ok (none, _) => .error (.tooShort position e)
  | .error e => .error e

/-- A finding as an array, after its bracket. -/
def findingItems (s : Bytes) : Except Defect (Draft × Bytes) := do
  let (category, s) ← needItem .finding 0 readCategory s
  let (confidence, s) ← needItem .finding 1 readConfidence s
  let (rule, s) ← needItem .finding 2 (readText .text) s
  let (source, s) ← readItem readOptionalPath false s
  let (line, s) ← needItem .finding 4 readLine s
  let (message, s) ← readItem (readText .text) false s
  let s ← readEnd s
  return (⟨category, confidence, rule, source.getD none, line, message.getD ""⟩, s)

/-- A finding. -/
def readFinding (s : Bytes) : Reading Draft :=
  match skipSpace s with
  | 0x7B :: r =>
    match readMembers findingMember (r.length + 1) true {} r with
    | .error e => .error e
    | .ok (m, t) =>
      match m.finish with
      | .ok d => .ok (d, t)
      | .error e => .error e
  | 0x5B :: r => findingItems r
  | t => .error (misfit .finding t)

/-! ## 4. Files

A file has its path and its findings. The findings are settled when both are known. -/

/-- A file with the findings listed under it. -/
def fileOf (path : Path) (drafts : List Draft) : FileReport :=
  ⟨path, drafts.map (Draft.settle path)⟩

/-- The members of a file that were read so far. -/
structure FileMembers where
  path : Option Path := none
  findings : Option (List Draft) := none

/-- One member of a file. -/
def fileMember (k : String) (m : FileMembers) (s : Bytes) : Reading FileMembers :=
  if k = "path" then
    store (fun v => { m with path := some v }) (readOnce k m.path readPath s)
  else if k = "matches" then
    store (fun v => { m with findings := some v })
      (readOnce k m.findings (readList readFinding) s)
  else
    match skipMember s with
    | .ok t => .ok (m, t)
    | .error e => .error e

/-- A file as an array, after its bracket. -/
def fileItems (s : Bytes) : Except Defect (FileReport × Bytes) := do
  let (path, s) ← needItem .file 0 readPath s
  let (drafts, s) ← readItem (readList readFinding) false s
  let s ← readEnd s
  return (fileOf path (drafts.getD []), s)

/-- A file. -/
def readFile (s : Bytes) : Reading FileReport :=
  match skipSpace s with
  | 0x7B :: r =>
    match readMembers fileMember (r.length + 1) true {} r with
    | .error e => .error e
    | .ok (m, t) =>
      match m.path with
      | some path => .ok (fileOf path (m.findings.getD []), t)
      | none => .error (.missing "path")
  | 0x5B :: r => fileItems r
  | t => .error (misfit .file t)

/-! ## 5. The directory

The directory has its path and its files. The document is one directory with blanks around it. -/

/-- The members of the directory that were read so far. -/
structure DirectoryMembers where
  path : Option Path := none
  files : Option (List FileReport) := none

/-- One member of the directory. -/
def directoryMember (k : String) (m : DirectoryMembers) (s : Bytes) : Reading DirectoryMembers :=
  if k = "path" then
    store (fun v => { m with path := some v }) (readOnce k m.path readPath s)
  else if k = "files" then
    store (fun v => { m with files := some v }) (readOnce k m.files (readList readFile) s)
  else
    match skipMember s with
    | .ok t => .ok (m, t)
    | .error e => .error e

/-- The directory as an array, after its bracket. -/
def directoryItems (s : Bytes) : Except Defect (Report × Bytes) := do
  let (path, s) ← needItem .directory 0 readPath s
  let (files, s) ← readItem (readList readFile) false s
  let s ← readEnd s
  return (⟨path, files.getD []⟩, s)

/-- The directory. -/
def readDirectory (s : Bytes) : Reading Report :=
  match skipSpace s with
  | 0x7B :: r =>
    match readMembers directoryMember (r.length + 1) true {} r with
    | .error e => .error e
    | .ok (m, t) =>
      match m.path with
      | some path => .ok (⟨path, m.files.getD []⟩, t)
      | none => .error (.missing "path")
  | 0x5B :: r => directoryItems r
  | t => .error (misfit .directory t)

end EngineText

/-- The report that a document spells: nothing but blanks may follow it. -/
def Report.ofBytes (s : Bytes) : Except Defect Report :=
  match EngineText.readDirectory s with
  | .error e => .error e
  | .ok (r, t) => if JsonText.skipSpace t = [] then .ok r else .error .malformed

end UpgradeScan
