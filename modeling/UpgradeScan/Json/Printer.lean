/-
`Json/Printer.lean` -- the two text forms of a JSON value.

`compact` has no blank; `pretty` puts every item and member on its own line, two spaces deeper than
its container, and an empty container on no line of its own. A string escapes the quote, the
backslash and the control characters below U+0020, and nothing else.

Both go down the value by structural recursion, with one function each for the items and the members
that come after the first. Members are printed as they stand in the list, also if a name repeats.

The long form is what a report is written in. The short one is what a helper of a template sees of
an argument that is no text.
-/
import UpgradeScan.Json.Basic

set_option autoImplicit false

namespace UpgradeScan

/-- The text of a number. -/
def JsonNumber.text : JsonNumber → List Char
  | .natural n => Number.digits n
  | .negative n => '-' :: Number.digits n
  | .real x => x.text

namespace Json

/-! ## 1. Strings

A control character has a short escape where there is one, else four hexadecimal digits. -/

/-- A lower-case hexadecimal digit. -/
def hexDigit (n : Nat) : Char := Nat.digitChar (n % 16)

/-- One character inside quotes. -/
def escapeChar (c : Char) : List Char :=
  if c = '"' then ['\\', '"']
  else if c = '\\' then ['\\', '\\']
  else if c = '\x08' then ['\\', 'b']
  else if c = '\x0C' then ['\\', 'f']
  else if c = '\n' then ['\\', 'n']
  else if c = '\r' then ['\\', 'r']
  else if c = '\t' then ['\\', 't']
  else if c.toNat < 0x20 then
    ['\\', 'u', '0', '0', hexDigit (c.toNat / 16), hexDigit c.toNat]
  else [c]

/-- A string between quotes. -/
def quote (s : List Char) : List Char := '"' :: (s.flatMap escapeChar ++ ['"'])

/-! ## 2. One line

The form in one line. -/

mutual

/-- The text without blanks. -/
def compact : Json → List Char
  | .null => ['n', 'u', 'l', 'l']
  | .bool true => ['t', 'r', 'u', 'e']
  | .bool false => ['f', 'a', 'l', 's', 'e']
  | .number n => n.text
  | .string s => quote s.toList
  | .array [] => ['[', ']']
  | .array (x :: xs) => '[' :: (x.compact ++ compactItems xs)
  | .object [] => ['{', '}']
  | .object ((k, v) :: ms) => '{' :: (quote k.toList ++ ':' :: (v.compact ++ compactMembers ms))
termination_by structural x => x

/-- The items after the first, and the closing bracket. -/
def compactItems : List Json → List Char
  | [] => [']']
  | x :: xs => ',' :: (x.compact ++ compactItems xs)
termination_by structural x => x

/-- The members after the first, and the closing brace. -/
def compactMembers : List (String × Json) → List Char
  | [] => ['}']
  | (k, v) :: ms => ',' :: (quote k.toList ++ ':' :: (v.compact ++ compactMembers ms))
termination_by structural x => x

end

/-! ## 3. Many lines

The depth is an argument and only matters where a line begins. -/

/-- A line end and the indentation of the next line. -/
def newLine (depth : Nat) : List Char := '\n' :: List.replicate (2 * depth) ' '

mutual

/-- The text over many lines, at a depth. -/
def pretty (depth : Nat) : Json → List Char
  | .null => ['n', 'u', 'l', 'l']
  | .bool true => ['t', 'r', 'u', 'e']
  | .bool false => ['f', 'a', 'l', 's', 'e']
  | .number n => n.text
  | .string s => quote s.toList
  | .array [] => ['[', ']']
  | .array (x :: xs) =>
    '[' :: (newLine (depth + 1) ++ (x.pretty (depth + 1) ++ prettyItems depth xs))
  | .object [] => ['{', '}']
  | .object ((k, v) :: ms) =>
    '{' :: (newLine (depth + 1) ++ (quote k.toList ++ ':' :: ' ' ::
      (v.pretty (depth + 1) ++ prettyMembers depth ms)))
termination_by structural x => x

/-- The items after the first, and the closing bracket. -/
def prettyItems (depth : Nat) : List Json → List Char
  | [] => newLine depth ++ [']']
  | x :: xs => ',' :: (newLine (depth + 1) ++ (x.pretty (depth + 1) ++ prettyItems depth xs))
termination_by structural x => x

/-- The members after the first, and the closing brace. -/
def prettyMembers (depth : Nat) : List (String × Json) → List Char
  | [] => newLine depth ++ ['}']
  | (k, v) :: ms =>
    ',' :: (newLine (depth + 1) ++ (quote k.toList ++ ':' :: ' ' ::
      (v.pretty (depth + 1) ++ prettyMembers depth ms)))
termination_by structural x => x

end

end Json

end UpgradeScan
