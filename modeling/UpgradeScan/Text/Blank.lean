/-
`Text/Blank.lean` -- blank characters and the two-sided cut.

A character is blank when Unicode gives it the property `White_Space`: 25 characters in ten runs.
Names, version labels and source lines are cut at blanks, so the table decides what counts as an
empty token. Everything here is stated on `List Char`; the `String` forms at the end only wrap it.

Case is compared for ASCII letters alone, so that two names are the same or not whatever language
they are in.
-/

set_option autoImplicit false

namespace UpgradeScan.Text

/-! ## 1. The class

The table, run by run. -/

/-- The characters with the property `White_Space`. -/
def isBlank (c : Char) : Bool :=
  let n := c.toNat
  (0x09 ≤ n && n ≤ 0x0D) || n == 0x20 || n == 0x85 || n == 0xA0 || n == 0x1680 ||
    (0x2000 ≤ n && n ≤ 0x200A) || n == 0x2028 || n == 0x2029 || n == 0x202F ||
    n == 0x205F || n == 0x3000

/-! ## 2. Cutting

Blanks inside a text stay. Only those at its ends go. -/

/-- The text without its leading blanks. -/
def trimLeft (s : List Char) : List Char := s.dropWhile isBlank

/-- The text without its trailing blanks. -/
def trimRight (s : List Char) : List Char := (s.reverse.dropWhile isBlank).reverse

/-- The text without the blanks at its two ends. -/
def trim (s : List Char) : List Char := trimRight (trimLeft s)

/-- `trim` of a string. -/
def trimmed (s : String) : String := String.ofList (trim s.toList)

/-! ## 3. ASCII case

Lower case for letters of ASCII, and texts that are the same up to it. -/

/-- The ASCII letters in lower case; every other character is kept. -/
def lower (s : List Char) : List Char := s.map Char.toLower

/-- `lower` of a string. -/
def lowered (s : String) : String := String.ofList (lower s.toList)

/-- Equality up to the case of ASCII letters. -/
def sameLetters (s t : String) : Bool := lower s.toList == lower t.toList

/-- Nothing is left of nothing. -/
@[simp] theorem trimRight_nil : trimRight [] = [] := rfl

end UpgradeScan.Text
