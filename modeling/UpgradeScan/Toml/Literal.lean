/-
`Toml/Literal.lean` -- values written without quotes: numbers, truth values, dates and times.

Each is recognised from its whole text. Underscores may stand between two digits and count for
nothing; a decimal number has no leading zero; a date has to exist in the calendar. An integer needs
at most 128 bits and a real number has to be within the 64-bit format.

Where a text ends is decided before, so a function here sees all of it and says what it is, or that
it is nothing. The forms do not overlap, and they are tried in turn.
-/
import UpgradeScan.Text.Split
import UpgradeScan.Toml.Basic

set_option autoImplicit false

namespace UpgradeScan.TomlText

open UpgradeScan.Number

/-! ## 1. Digits

Digits with their underscores, for numbers of any base. -/

/-- Groups of digits with underscores between them. -/
def grouped? (base : Nat) (s : List Char) : Option (List Nat) :=
  let groups := Text.fields '_' s
  if groups.any (· == []) then none else digitValues? base groups.flatten

/-- The digits of a whole number in decimal: no zero leads. -/
def whole? (s : List Char) : Option (List Nat) :=
  match grouped? 10 s with
  | some (0 :: _ :: _) => none
  | r => r

/-- A leading sign, and the rest. -/
def signed : List Char → Bool × List Char
  | '-' :: r => (true, r)
  | '+' :: r => (false, r)
  | r => (false, r)

/-! ## 2. Integers

A sign and digits, or a base and digits without a sign. -/

/-- An integer that 128 bits can hold. -/
def bounded? (n : Int) : Option Toml :=
  if -(Nat.pow 2 127 : Int) ≤ n ∧ n < (Nat.pow 2 128 : Int) then some (.integer n) else none

/-- A whole number in a base that its letter names. -/
def based? (base : Nat) (s : List Char) : Option Toml :=
  match grouped? base s with
  | some vs => bounded? (ofValues base vs)
  | none => none

/-- An integer of any base. Only a decimal one has a sign. -/
def integer? : List Char → Option Toml
  | '0' :: 'x' :: r => based? 16 r
  | '0' :: 'o' :: r => based? 8 r
  | '0' :: 'b' :: r => based? 2 r
  | s =>
    let (negative, r) := signed s
    match whole? r with
    | some vs =>
      let n : Int := ofValues 10 vs
      bounded? (if negative then -n else n)
    | none => none

/-! ## 3. Real numbers

A fraction, a power of ten, or both, after a whole number. There are also words for the infinities
and for what is no number. -/

/-- The power of ten after its letter. -/
def power? (s : List Char) : Option Int :=
  let (negative, r) := signed s
  match grouped? 10 r with
  | some vs => some (if negative then -(ofValues 10 vs : Int) else ofValues 10 vs)
  | none => none

/-- The digits before and after the point. -/
def mantissa? (s : List Char) : Option (List Nat × List Nat) :=
  match Text.fields '.' s with
  | [w] => (whole? w).map (·, [])
  | [w, f] =>
    match whole? w, grouped? 10 f with
    | some w, some f => some (w, f)
    | _, _ => none
  | _ => none

/-- A real number that the format can hold. -/
def real? (s : List Char) : Option Toml :=
  let (negative, r) := signed s
  if r = ['i', 'n', 'f'] then some (.real (.infinite negative))
  else if r = ['n', 'a', 'n'] then some (.real .undefined)
  else
    let m := r.takeWhile fun c => c != 'e' && c != 'E'
    let e := match r.drop m.length with
      | [] => some 0
      | _ :: p => power? p
    match mantissa? m, e with
    | some (w, f), some e =>
      if f = [] ∧ m.length = r.length then none
      else
        (Binary64.ofPoint? negative (w ++ f) (w.length + e)).map fun x => .real (.finite x)
    | _, _ => none

/-! ## 4. Dates and times

The parts of a date and of a time have a fixed number of digits and a range. -/

/-- The number that exactly `k` digits spell. -/
def exactly? (k : Nat) (s : List Char) : Option Nat :=
  if s.length = k then ofDigits? 10 s else none

/-- The days of a month. -/
def daysIn (year month : Nat) : Nat :=
  if month = 2 then
    if year % 4 = 0 ∧ (year % 100 ≠ 0 ∨ year % 400 = 0) then 29 else 28
  else if month = 4 ∨ month = 6 ∨ month = 9 ∨ month = 11 then 30
  else 31

/-- A day of the calendar. -/
def isDate (s : List Char) : Bool :=
  match Text.fields '-' s with
  | [y, m, d] =>
    match exactly? 4 y, exactly? 2 m, exactly? 2 d with
    | some y, some m, some d => 1 ≤ m && m ≤ 12 && 1 ≤ d && d ≤ daysIn y m
    | _, _, _ => false
  | _ => false

/-- Two digits up to a bound. -/
def isUpTo (bound : Nat) (s : List Char) : Bool :=
  match exactly? 2 s with
  | some n => n ≤ bound
  | none => false

/-- The seconds of a time, with or without a fraction. -/
def isSeconds (s : List Char) : Bool :=
  match Text.fields '.' s with
  | [w] => isUpTo 60 w
  | [w, f] => isUpTo 60 w && (ofDigits? 10 f).isSome
  | _ => false

/-- A time of day; the seconds may be left out. -/
def isTime (s : List Char) : Bool :=
  match Text.fields ':' s with
  | [h, m] => isUpTo 23 h && isUpTo 59 m
  | [h, m, x] => isUpTo 23 h && isUpTo 59 m && isSeconds x
  | _ => false

/-- A time of day and its distance from universal time, if it says one. -/
def isZonedTime (s : List Char) : Bool :=
  let t := s.takeWhile fun c => c != 'Z' && c != 'z' && c != '+' && c != '-'
  isTime t &&
    match s.drop t.length with
    | [] => true
    | c :: zone =>
      if c = 'Z' ∨ c = 'z' then zone == []
      else match Text.fields ':' zone with
        | [h, m] => isUpTo 23 h && isUpTo 59 m
        | _ => false

/-- A date, a time, or a date and a time with a letter or a blank between them. -/
def isMoment (s : List Char) : Bool :=
  isDate s || isTime s ||
    (isDate (s.take 10) &&
      match s.drop 10 with
      | c :: t => (c == 'T' || c == 't' || c == ' ') && isZonedTime t
      | [] => false)

/-! ## 5. All of them

The forms in turn. -/

/-- The value of an unquoted text. -/
def bare? (s : List Char) : Option Toml :=
  if s = "true".toList then some (.flag true)
  else if s = "false".toList then some (.flag false)
  else if isMoment s then some .moment
  else
    match integer? s with
    | some v => some v
    | none => real? s

end UpgradeScan.TomlText
