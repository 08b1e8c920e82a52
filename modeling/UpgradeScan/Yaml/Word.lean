/-
`Yaml/Word.lean` -- what a plain text means when nothing else is said.

Some words stand for nothing, for a truth value or for a number. Every other plain text is just
text; so are digits after a needless zero, and a decimal number too large for the 64-bit format.

These are questions that a reader of settings may ask of a text. A text is kept as it was written in
any case.
-/
import UpgradeScan.Number.Literal

set_option autoImplicit false

namespace UpgradeScan.YamlText

open UpgradeScan.Number

/-- The word stands for nothing. -/
def isNull (s : String) : Bool := ["null", "Null", "NULL", "~"].contains s

/-- The word is a truth value. -/
def isTruth (s : String) : Bool :=
  ["true", "True", "TRUE", "false", "False", "FALSE"].contains s

/-! ## 1. Integers

A sign, and digits of one of four bases. -/

/-- Digits that are no number: more than one, and the first a zero. -/
def isPadded (s : List Char) : Bool :=
  let r := match s with
    | '-' :: r => r
    | '+' :: r => r
    | r => r
  2 ≤ r.length && r.head? == some '0' && r.all Char.isDigit

/-- Digits after the letter of a base. -/
def based? : List Char → Option Nat
  | '0' :: 'x' :: r => ofDigits? 16 r
  | '0' :: 'o' :: r => ofDigits? 8 r
  | '0' :: 'b' :: r => ofDigits? 2 r
  | _ => none

/-- The magnitude of a number without its sign. -/
def magnitude? (s : List Char) : Option Nat :=
  match based? s with
  | some n => some n
  | none => if isPadded s then none else ofDigits? 10 s

/-- An integer that 128 bits can hold. -/
def integer? (s : List Char) : Option Int :=
  let n : Option Int := match s with
    | '-' :: r => (magnitude? r).map fun n => -(n : Int)
    | '+' :: r => (magnitude? r).map fun n => (n : Int)
    | r => (magnitude? r).map fun n => (n : Int)
  n.filter fun n => -(Nat.pow 2 127 : Int) ≤ n && n < (Nat.pow 2 128 : Int)

/-! ## 2. Real numbers

Only whether a word is one of these is asked, and its value is not needed. -/

/-- The power of ten after its letter. -/
def power? (s : List Char) : Option Int :=
  match s with
  | '-' :: r => (ofDigits? 10 r).map fun n => -(n : Int)
  | '+' :: r => (ofDigits? 10 r).map fun n => (n : Int)
  | r => (ofDigits? 10 r).map fun n => (n : Int)

/-- A decimal number without its sign is within the 64-bit format. Digits may be missing on one
side of the point. -/
def isDecimal (s : List Char) : Bool :=
  let m := s.takeWhile fun c => c != 'e' && c != 'E'
  let w := m.takeWhile (· != '.')
  let f := (m.drop w.length).drop 1
  let e := match s.drop m.length with
    | [] => some 0
    | _ :: p => power? p
  match digitValues? 10 w, digitValues? 10 f, e with
  | some w, some f, some e =>
    !(w == [] && f == []) && (Binary64.ofPoint? false (w ++ f) (w.length + e)).isSome
  | _, _, _ => false

/-- The word is a real number, one of the infinities, or the word for what is no number. -/
def isReal (s : List Char) : Bool :=
  let r := match s with
    | '-' :: r => r
    | '+' :: r => r
    | r => r
  [".inf", ".Inf", ".INF"].contains (String.ofList r) ||
    [".nan", ".NaN", ".NAN"].contains (String.ofList s) ||
    (!isPadded s && isDecimal r)

end UpgradeScan.YamlText
