/-
`Toml/Quoted.lean` -- quoted text of the settings format.

There are four forms: with or without escapes, on one line or on several. Every function takes what
follows the opening quotes and gives the text and what follows the closing ones. No form may hold a
control character other than a tab; those on several lines may hold line ends, and drop one that
follows the opening quotes directly.

Text on several lines may hold quotes too, so its end is found by counting. Two quotes directly
before the three that close it are part of the text.
-/
import UpgradeScan.Number.Literal

set_option autoImplicit false

namespace UpgradeScan.TomlText

/-! ## 1. Characters

What may stand in a text of this format, and what a line end is. -/

/-- A character that may stand neither in text nor in a comment. -/
def isControl (c : Char) : Bool := (c.toNat < 0x20 && c != '\t') || c.toNat == 0x7F

/-- A blank within a line. -/
def isSpace (c : Char) : Bool := c == ' ' || c == '\t'

/-- What follows a line end, if the text begins with one. -/
def lineEnd? : List Char → Option (List Char)
  | '\n' :: r => some r
  | '\r' :: '\n' :: r => some r
  | _ => none

/-! ## 2. Escapes

An escape is a letter, or a letter and a fixed number of digits. -/

/-- The character that a number names; surrogates and numbers beyond the last name none. -/
def scalar? (n : Nat) : Option Char := if n.isValidChar then some (Char.ofNat n) else none

/-- The character that the first `k` hexadecimal digits name. -/
def hexadecimal? (k : Nat) (s : List Char) : Option (Char × Nat) :=
  if s.length < k then none
  else
    match Number.ofDigits? 16 (s.take k) with
    | some n => (scalar? n).map (·, k + 1)
    | none => none

/-- An escape after its backslash: the character it stands for, and its length. -/
def escape? : List Char → Option (Char × Nat)
  | 'b' :: _ => some ('\x08', 1)
  | 't' :: _ => some ('\t', 1)
  | 'n' :: _ => some ('\n', 1)
  | 'f' :: _ => some ('\x0C', 1)
  | 'r' :: _ => some ('\r', 1)
  | 'e' :: _ => some ('\x1B', 1)
  | '"' :: _ => some ('"', 1)
  | '\\' :: _ => some ('\\', 1)
  | 'x' :: r => hexadecimal? 2 r
  | 'u' :: r => hexadecimal? 4 r
  | 'U' :: r => hexadecimal? 8 r
  | _ => none

/-! ## 3. Text on one line

Both forms end at the next quote that is not escaped. -/

/-- Text with escapes. The first argument counts the characters of an escape that are still to
be passed over. -/
def basic : Nat → List Char → Option (List Char × List Char)
  | _, [] => none
  | n + 1, _ :: r => basic n r
  | 0, c :: r =>
    if c = '"' then some ([], r)
    else if c = '\\' then
      match escape? r with
      | some (e, k) => (basic k r).map fun (u, t) => (e :: u, t)
      | none => none
    else if isControl c then none
    else (basic 0 r).map fun (u, t) => (c :: u, t)

/-- Text without escapes. -/
def literal : List Char → Option (List Char × List Char)
  | [] => none
  | c :: r =>
    if c = '\'' then some ([], r)
    else if isControl c then none
    else (literal r).map fun (u, t) => (c :: u, t)

/-! ## 4. Text on several lines

With escapes, a backslash at the end of a line takes the line end and the blanks after it out of the
text. -/

/-- The number of leading quotes. -/
def quoteRun (q : Char) (s : List Char) : Nat := (s.takeWhile (· == q)).length

/-- The end of a text whose next quotes are a run of at least three: up to two of them are
still text, and three close it. -/
def closing (q : Char) (s : List Char) : List Char × List Char :=
  let extra := min (quoteRun q s - 3) 2
  (List.replicate extra q, s.drop (extra + 3))

/-- The line ends within blanks: a backslash before it takes it out of the text. -/
def endsLine (s : List Char) : Bool := (lineEnd? (s.dropWhile isSpace)).isSome

/-- A blank or a line end, as they are dropped after a backslash at the end of a line. -/
def isGap (c : Char) (r : List Char) : Bool :=
  isSpace c || c == '\n' || (c == '\r' && r.head? == some '\n')

/-- Text with escapes on several lines. The flag says that blanks and line ends are dropped. -/
def longBasic : Nat → Bool → List Char → Option (List Char × List Char)
  | _, _, [] => none
  | n + 1, gap, _ :: r => longBasic n gap r
  | 0, gap, c :: r =>
    if gap && isGap c r then longBasic 0 true r
    else if c = '"' then
      if 3 ≤ quoteRun '"' (c :: r) then some (closing '"' (c :: r))
      else (longBasic 0 false r).map fun (u, t) => (c :: u, t)
    else if c = '\\' then
      match escape? r with
      | some (e, k) => (longBasic k false r).map fun (u, t) => (e :: u, t)
      | none => if endsLine r then longBasic 0 true r else none
    else if isControl c && !isGap c r then none
    else (longBasic 0 false r).map fun (u, t) => (c :: u, t)

/-- Text without escapes on several lines. -/
def longLiteral : List Char → Option (List Char × List Char)
  | [] => none
  | c :: r =>
    if c = '\'' ∧ 3 ≤ quoteRun '\'' (c :: r) then some (closing '\'' (c :: r))
    else if isControl c && !isGap c r then none
    else (longLiteral r).map fun (u, t) => (c :: u, t)

/-! ## 5. All forms

How many quotes there are decides the form, and which quote whether there are escapes. -/

/-- The text without a line end at its front. -/
def dropLineEnd (s : List Char) : List Char := (lineEnd? s).getD s

/-- A quoted text of any form, with its quotes. -/
def quoted : List Char → Option (List Char × List Char)
  | '"' :: '"' :: '"' :: r => longBasic 0 false (dropLineEnd r)
  | '\'' :: '\'' :: '\'' :: r => longLiteral (dropLineEnd r)
  | s => short s
where
  /-- A quoted text on one line. -/
  short : List Char → Option (List Char × List Char)
    | '"' :: r => basic 0 r
    | '\'' :: r => literal r
    | _ => none

end UpgradeScan.TomlText
