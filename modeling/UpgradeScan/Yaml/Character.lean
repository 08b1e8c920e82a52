/-
`Yaml/Character.lean` -- the characters of the indented settings format.

A document may hold printable characters, tabs and line ends. The four spellings of a line end are
made one before anything is read; the two Unicode separators end a line too, but stay what they are.
An absent character counts as the end of the line and as a blank.

The format looks at columns, so the position of a character in its line is part of what it means.
-/

set_option autoImplicit false

namespace UpgradeScan.YamlText

/-! ## 1. What a document may hold

Documents with other characters are refused. -/

/-- A character that a document may hold. -/
def isAllowed (c : Char) : Bool :=
  let n := c.toNat
  n == 0x09 || n == 0x0A || n == 0x0D || (0x20 ≤ n && n ≤ 0x7E) || n == 0x85 ||
    (0xA0 ≤ n && n ≤ 0xFFFD) || 0x10000 ≤ n

/-- The text with one spelling of the line end. -/
def oneLineEnd : List Char → List Char
  | [] => []
  | c :: r =>
    if c = '\r' then if r.head? = some '\n' then oneLineEnd r else '\n' :: oneLineEnd r
    else if c = '\u0085' then '\n' :: oneLineEnd r
    else c :: oneLineEnd r

/-! ## 2. Classes

The classes by which texts and tokens are cut. Most of them are asked of the character that comes
next, which may be absent. -/

/-- The character ends a line. -/
def isBreak (c : Char) : Bool := c == '\n' || c == '\u2028' || c == '\u2029'

/-- The character is a blank within a line. -/
def isBlank (c : Char) : Bool := c == ' ' || c == '\t'

/-- The character separates words. -/
def isGap (c : Char) : Bool := isBlank c || isBreak c

/-- The character may stand in the name of an anchor or a tag handle. -/
def isWord (c : Char) : Bool := c.isAlphanum || c == '_' || c == '-'

/-- The text begins with a character that separates words, or is at its end. -/
def atGap (s : List Char) : Bool := (s.head?.map isGap).getD true

/-- The text begins with a line end, or is at its end. -/
def atBreak (s : List Char) : Bool := (s.head?.map isBreak).getD true

/-- The text begins with a mark of that character three times, as documents are separated. -/
def hasMark (c : Char) : List Char → Bool
  | a :: b :: d :: r => a == c && b == c && d == c && atGap r
  | _ => false

/-- The text begins with a mark that begins or ends a document. -/
def atMark (s : List Char) : Bool := hasMark '-' s || hasMark '.' s

/-! ## 3. Columns

How far to the right a place is. -/

/-- The column after some characters. -/
def columnAfter : Nat → List Char → Nat
  | n, [] => n
  | n, c :: r => columnAfter (if isBreak c then 0 else n + 1) r

end UpgradeScan.YamlText
