/-
`Toml/Reader.lean` -- documents of the settings format.

A document is a list of statements, one a line: a header that says which table the next keys belong
to, or a key with its value. Reading them and building the table are two steps. Lists and inline
tables may be nested eighty deep, may go over several lines and may end with a comma.

A text that is no document is refused as a whole. That can come out in both steps: a statement that
cannot be read, or one that may not add to the table that it names.
-/
import UpgradeScan.Text.Utf8
import UpgradeScan.Toml.Literal
import UpgradeScan.Toml.Quoted
import UpgradeScan.Toml.Table

set_option autoImplicit false

namespace UpgradeScan.TomlText

/-! ## 1. Blanks, comments and keys

Between statements blanks, line ends and comments are passed over, within one only blanks. -/

/-- What is left after blanks, line ends and comments. The flag says that a comment goes on. -/
def skipVoid : Bool → List Char → Option (List Char)
  | _, [] => some []
  | inComment, c :: r =>
    if c = '\n' then skipVoid false r
    else if c = '\r' then if r.head? = some '\n' then skipVoid false r else none
    else if inComment then if isControl c then none else skipVoid true r
    else if isSpace c then skipVoid false r
    else if c = '#' then skipVoid true r
    else some (c :: r)

/-- What is left after blanks within a line. -/
def skipSpace (s : List Char) : List Char := s.dropWhile isSpace

/-- What is left after the end of a statement: blanks, a comment and the line end. -/
def endLine (s : List Char) : Option (List Char) :=
  let s := skipSpace s
  let s := match s with
    | '#' :: r => r.dropWhile fun c => !isControl c
    | _ => s
  if s = [] then some [] else lineEnd? s

/-- A character of a key without quotes. -/
def isKeyChar (c : Char) : Bool := c.isAlphanum || c == '_' || c == '-'

/-- One part of a key. -/
def keyPart (s : List Char) : Option (String × List Char) :=
  let k := s.takeWhile isKeyChar
  if k ≠ [] then some (String.ofList k, s.drop k.length)
  else (quoted.short s).map fun (u, t) => (String.ofList u, t)

/-- The parts of a key with points between them. -/
def key : Nat → List Char → Option (List String × List Char)
  | 0, _ => none
  | n + 1, s =>
    match keyPart (skipSpace s) with
    | none => none
    | some (k, t) =>
      match skipSpace t with
      | '.' :: r => (key n r).map fun (ks, t) => (k :: ks, t)
      | t => some ([k], t)

/-! ## 2. Values

Lists and inline tables are read alike, as items between brackets. The values inside of them are
read by a function that is given, with one bracket less to go. -/

/-- A character at which an unquoted value ends. -/
def endsBare (c : Char) : Bool :=
  isSpace c || c == '\n' || c == '\r' || c == ',' || c == ']' || c == '}' || c == '#'

/-- An unquoted value. A blank continues it only between a date and a time. -/
def bareRun (s : List Char) : List Char :=
  let a := s.takeWhile fun c => !endsBare c
  match s.drop a.length with
  | ' ' :: r =>
    if isDate a && (r.head?.map Char.isDigit).getD false then
      a ++ ' ' :: r.takeWhile fun c => !endsBare c
    else a
  | _ => a

/-- Items with commas between them, after the opening bracket. -/
def items {α : Type} (item : List Char → Option (α × List Char)) (close : Char) :
    Nat → List Char → Option (List α × List Char)
  | 0, _ => none
  | n + 1, s =>
    match skipVoid false s with
    | none => none
    | some s =>
      if s.head? = some close then some ([], s.drop 1)
      else match item s with
        | none => none
        | some (x, t) =>
          match skipVoid false t with
          | some (',' :: r) => (items item close n r).map fun (xs, t) => (x :: xs, t)
          | some (c :: r) => if c = close then some ([x], r) else none
          | _ => none

/-- A key with its value. -/
def assignment (value : List Char → Option (Toml × List Char)) (s : List Char) :
    Option ((List String × Toml) × List Char) :=
  match key s.length s with
  | some (ks, '=' :: r) => (value (skipSpace r)).map fun (v, t) => ((ks, v), t)
  | _ => none

/-- The table of some assignments. -/
def tableOf : List (List String × Toml) → Entries → Option Entries
  | [], es => some es
  | (ks, v) :: rest, es =>
    match es.assign ks v with
    | some es => tableOf rest es
    | none => none

/-- A value that holds at most `n - 1` brackets within each other. -/
def value : Nat → List Char → Option (Toml × List Char)
  | 0, _ => none
  | n + 1, s =>
    match s with
    | '[' :: r => (items (value n) ']' (r.length + 1) r).map fun (xs, t) => (.list xs, t)
    | '{' :: r =>
      match items (assignment (value n)) '}' (r.length + 1) r with
      | some (as, t) => (tableOf as []).map fun es => (.table (doneEntries es), t)
      | none => none
    | _ =>
      if s.head? = some '"' ∨ s.head? = some '\'' then
        (quoted s).map fun (u, t) => (.text (String.ofList u), t)
      else
        let b := bareRun s
        (bare? b).map fun v => (v, s.drop b.length)

/-- How deep brackets may stand within each other. -/
def maxDepth : Nat := 80

/-! ## 3. Statements

A line, after which nothing but a comment may stand. -/

/-- One statement of a document. -/
inductive Statement where
  | assign (key : List String) (v : Toml)
  | table (key : List String)
  | item (key : List String)

/-- A header after its opening bracket. -/
def header (s : List Char) : Option (List String × List Char) :=
  match key s.length s with
  | some (ks, ']' :: r) => some (ks, r)
  | _ => none

/-- One statement, up to its end. -/
def statement : List Char → Option (Statement × List Char)
  | '[' :: '[' :: r =>
    match header r with
    | some (ks, ']' :: t) => some (.item ks, t)
    | _ => none
  | '[' :: r => (header r).map fun (ks, t) => (.table ks, t)
  | s => (assignment (value (maxDepth + 1)) s).map fun ((ks, v), t) => (.assign ks v, t)

/-- The statements of a document. -/
def statements : Nat → List Char → Option (List Statement)
  | 0, _ => none
  | n + 1, s =>
    match skipVoid false s with
    | none => none
    | some [] => some []
    | some s =>
      match statement s with
      | none => none
      | some (x, t) =>
        match endLine t with
        | none => none
        | some t => (statements n t).map (x :: ·)

/-! ## 4. Documents

The statements are carried out in order on a table that begins empty. -/

/-- The table after statements; the keys `place` name the table of the last header. -/
def build : List Statement → List String → Entries → Option Entries
  | [], _, es => some es
  | .assign ks v :: rest, place, es =>
    match es.within place (Entries.assign ks v) with
    | some es => build rest place es
    | none => none
  | .table ks :: rest, _, es =>
    match es.within ks.dropLast (Entries.openTable (ks.getLast?.getD "")) with
    | some es => build rest ks es
    | none => none
  | .item ks :: rest, _, es =>
    match es.within ks.dropLast (Entries.openItem (ks.getLast?.getD "")) with
    | some es => build rest ks es
    | none => none

end UpgradeScan.TomlText

namespace UpgradeScan

/-- The table of a document; `none` when the text is no document. -/
def Toml.parse? (s : String) : Option (List (String × Toml)) :=
  let cs := Text.dropMark s.toList
  match TomlText.statements (cs.length + 1) cs with
  | some xs => (TomlText.build xs [] []).map TomlText.doneEntries
  | none => none

end UpgradeScan
