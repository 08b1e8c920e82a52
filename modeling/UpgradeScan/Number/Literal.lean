/-
`Number/Literal.lean` -- numbers written as digits.

Digits of any base up to 36 are read into a natural number of any size. A decimal literal with a
fraction and a power of ten is rounded once, and whether the format can hold it is answered without
computing a power of ten that the digits do not need.

Several formats write numbers, each with its own signs, separators and prefixes. What is left when
these are taken away is digits, and that is where this module begins.
-/
import UpgradeScan.Number.Binary64

set_option autoImplicit false

namespace UpgradeScan.Number

/-! ## 1. Naturals

A text of digits is read from the front, and one that has a character which is no digit of the base
is none. -/

/-- The value of a digit; letters of either case follow the nine. -/
def digit? (base : Nat) (c : Char) : Option Nat :=
  let v :=
    if '0' ≤ c ∧ c ≤ '9' then c.toNat - '0'.toNat
    else if 'a' ≤ c ∧ c ≤ 'z' then c.toNat - 'a'.toNat + 10
    else if 'A' ≤ c ∧ c ≤ 'Z' then c.toNat - 'A'.toNat + 10
    else base
  if v < base then some v else none

/-- The values of a text of digits, the most significant first. -/
def digitValues? (base : Nat) : List Char → Option (List Nat)
  | [] => some []
  | c :: r =>
    match digit? base c, digitValues? base r with
    | some v, some vs => some (v :: vs)
    | _, _ => none

/-- The number that digits spell. -/
def ofValues (base : Nat) (vs : List Nat) : Nat := vs.foldl (fun n v => n * base + v) 0

/-- The number that a text of at least one digit spells. -/
def ofDigits? (base : Nat) (s : List Char) : Option Nat :=
  if s = [] then none else (digitValues? base s).map (ofValues base)

/-! ## 2. Decimal literals

The digits are given without the point, and its place as a number. -/

/-- `0.digits * 10 ^ point`, rounded once; `none` when the format cannot hold it. The digits
decide the magnitude up to one power of ten, so that a value far outside the range of the
format needs no arithmetic. -/
def Binary64.ofPoint? (negative : Bool) (vs : List Nat) (point : Int) : Option Binary64 :=
  let lead := vs.takeWhile (· == 0)
  let vs := vs.drop lead.length
  let point := point - lead.length
  if vs = [] ∨ point < -330 then some ⟨negative, 0, Binary64.minExponent⟩
  else if 310 < point then none
  else
    let x := Binary64.ofDecimal negative (ofValues 10 vs) (point - vs.length)
    if x.isFinite then some x else none

end UpgradeScan.Number
