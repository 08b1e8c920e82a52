/-
`Number/Binary64.lean` -- finite numbers of the 64-bit binary format, in exact arithmetic.

A value is a sign and `significand * 2 ^ exponent`. Every operation computes the exact ratio and
rounds it once, to the nearest value, a tie to the even significand; so the error of each step is
visible to a proof. The exponent has no upper bound here: `isFinite` says whether the format can
hold the value. Powers are written `Nat.pow`, which means the same whatever other power operations
are in scope.

Nothing rests on the machine's own floats. All arithmetic is that of naturals, so that a value can
be computed in a proof and a statement about it reads as one about fractions. There is one function
that rounds (`ofRatio`), and all operations go through it.
-/

set_option autoImplicit false

namespace UpgradeScan.Number

/-! ## 1. Rounding a quotient

An integer is rounded to in two ways. The operations of the format take the even one of two; a value
that is shown is rounded away from zero. -/

/-- The integer nearest to `n / d`, a tie to the even one. -/
def roundHalfEven (n d : Nat) : Nat :=
  let q := n / d
  let r := n % d
  if 2 * r < d then q else if d < 2 * r then q + 1 else q + q % 2

/-- The integer nearest to `n / d`, a tie to the greater one. -/
def roundHalfUp (n d : Nat) : Nat := (2 * n + d) / (2 * d)

/-! ## 2. Values

The exponent is chosen so that the significand has 53 bits, or as many as are left at the lower end
of the format. -/

/-- A sign, a significand below 2^53 and a power of two. -/
structure Binary64 where
  negative : Bool
  significand : Nat
  exponent : Int
  deriving DecidableEq, Repr, Inhabited

namespace Binary64

/-- The least exponent of the format. -/
def minExponent : Int := -1074

/-- The power of two of a value near `n / d`: a significand of 53 bits, fewer below the least
normal value. -/
def exponentFor (n d : Nat) : Int :=
  let e : Int := (n.log2 : Int) - (d.log2 : Int) - 52
  let e := if n * Nat.pow 2 (-e).toNat < d * Nat.pow 2 e.toNat * Nat.pow 2 52 then e - 1 else e
  max minExponent e

/-- The value nearest to `n / d`. -/
def ofRatio (negative : Bool) (n d : Nat) : Binary64 :=
  if n = 0 then ⟨negative, 0, minExponent⟩
  else
    let e := exponentFor n d
    let m := roundHalfEven (n * Nat.pow 2 (-e).toNat) (d * Nat.pow 2 e.toNat)
    if m = Nat.pow 2 53 then ⟨negative, Nat.pow 2 52, e + 1⟩ else ⟨negative, m, e⟩

/-- The value nearest to a natural number. -/
def ofNat (n : Nat) : Binary64 := ofRatio false n 1

/-- Numerator of the magnitude. -/
def num (x : Binary64) : Nat := x.significand * Nat.pow 2 x.exponent.toNat

/-- Denominator of the magnitude. -/
def den (x : Binary64) : Nat := Nat.pow 2 (-x.exponent).toNat

/-- The rounded product. -/
def mul (x y : Binary64) : Binary64 :=
  ofRatio (x.negative != y.negative) (x.num * y.num) (x.den * y.den)

/-- The rounded quotient; the divisor is not zero. -/
def div (x y : Binary64) : Binary64 :=
  ofRatio (x.negative != y.negative) (x.num * y.den) (x.den * y.num)

/-- The format can hold the value. -/
def isFinite (x : Binary64) : Bool := x.exponent ≤ 971

/-- A zero of either sign. -/
def isZero (x : Binary64) : Bool := x.significand == 0

/-- Not zero and not below the least normal magnitude. -/
def isNormal (x : Binary64) : Bool := Nat.pow 2 52 ≤ x.significand

/-- The nearest integer to the magnitude, a half away from zero. -/
def roundAway (x : Binary64) : Nat := roundHalfUp x.num x.den

/-- The order of the represented numbers; the two zeros are equal. -/
def compare (x y : Binary64) : Ordering :=
  let a : Int := if x.negative then -(x.num * y.den : Nat) else (x.num * y.den : Nat)
  let b : Int := if y.negative then -(y.num * x.den : Nat) else (y.num * x.den : Nat)
  if a < b then .lt else if b < a then .gt else .eq

/-! ## 3. Decimal literals

A literal becomes a value in one of two ways. Where its digits and its power of ten are taken
together, it is rounded once. The other way rounds the digits and the powers of ten each by itself
and then their product, as many as it takes. -/

/-- `m * 10 ^ e`, rounded once. -/
def ofDecimal (negative : Bool) (m : Nat) (e : Int) : Binary64 :=
  ofRatio negative (m * Nat.pow 10 e.toNat) (Nat.pow 10 (-e).toNat)

/-- The power of ten `10 ^ k`, rounded. -/
def tenTo (k : Nat) : Binary64 := ofRatio false (Nat.pow 10 k) 1

/-- The value of a scanned literal `m * 10 ^ e` whose digits fit 64 bits: the digits are
rounded, then multiplied or divided by a rounded power of ten, in steps of at most `10 ^ 308`.
`none` when the value is beyond the format. -/
def ofScanned (negative : Bool) (m : Nat) (e : Int) : Option Binary64 :=
  let f := ofRatio negative m 1
  if m = 0 then some f
  else if 0 ≤ e then
    if e ≤ 308 then
      let r := f.mul (tenTo e.toNat)
      if r.isFinite then some r else none
    else none
  else
    some (shrink (-e).toNat 3 f)
where
  /-- Division by `10 ^ k` in steps. Three steps leave no digit of a 64-bit significand. -/
  shrink (k : Nat) : Nat → Binary64 → Binary64
    | 0, f => ⟨f.negative, 0, minExponent⟩
    | steps + 1, f =>
      if f.isZero then f
      else if k ≤ 308 then f.div (tenTo k)
      else shrink (k - 308) steps (f.div (tenTo 308))

end Binary64

end UpgradeScan.Number
