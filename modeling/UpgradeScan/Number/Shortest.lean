/-
`Number/Shortest.lean` -- the fewest digits that read back.

The reals that round to a value form an interval, closed when the significand is even. The digits of
a value are those of the coarsest decimal grid with a point in that interval, and of two such points
the nearer one; both are neighbours of the value on the grid. How the digits are laid out is a
separate decision, made by each text form at the end.

All comparisons are between naturals: both sides are brought to one denominator, in which the ends
of the interval are quarters of a unit. The search is a recursion on the number of grids that are
left to look at, and seventeen digits after the first are enough for every value of the format.
-/
import UpgradeScan.Number.Binary64

set_option autoImplicit false

namespace UpgradeScan.Number

/-! ## 1. Decimal digits of naturals

The digits of a natural number, in both directions. -/

/-- The decimal digits of a natural number. -/
def digits (n : Nat) : List Char := Nat.toDigits 10 n

/-- The value of a decimal digit. -/
def digitValue (c : Char) : Nat := c.toNat - '0'.toNat

/-- The value of a digit string; the characters are taken to be digits. -/
def ofDigits (s : List Char) : Nat := s.foldl (fun n c => n * 10 + digitValue c) 0

/-- Reads a non-empty string of ASCII digits. -/
def natural? (s : List Char) : Option Nat :=
  if s ≠ [] ∧ s.all Char.isDigit then some (ofDigits s) else none

/-! ## 2. The digits of a value

The interval of a value, the test whether a grid point lies in it, and the search. -/

namespace Binary64

/-- `c * 10 ^ p` compared with `n / d` after both are brought to one denominator. -/
def gridLe (c : Nat) (p : Int) (n d : Nat) : Bool :=
  c * Nat.pow 10 p.toNat * d ≤ n * Nat.pow 10 (-p).toNat

/-- The interval of reals that round to the value, as numerators over `4 * den`: both ends. -/
def interval (x : Binary64) : Nat × Nat :=
  let below := if x.significand = Nat.pow 2 52 ∧ minExponent < x.exponent then 1 else 2
  ((4 * x.significand - below) * Nat.pow 2 x.exponent.toNat,
    (4 * x.significand + 2) * Nat.pow 2 x.exponent.toNat)

/-- The grid point `c * 10 ^ p` rounds to the value. -/
def readsBack (x : Binary64) (c : Nat) (p : Int) : Bool :=
  let (lo, hi) := x.interval
  let l := c * Nat.pow 10 p.toNat * (4 * x.den)
  let lo := lo * Nat.pow 10 (-p).toNat
  let hi := hi * Nat.pow 10 (-p).toNat
  if x.significand % 2 = 0 then lo ≤ l && l ≤ hi else lo < l && l < hi

/-- The decimal exponent of the leading digit. -/
def leading (x : Binary64) : Int :=
  let e : Int := ((digits x.num).length : Int) - ((digits x.den).length : Int)
  if gridLe 1 e x.num x.den then e else e - 1

/-- The first of the grids `p, p - 1, …` with a point that reads back. Seventeen digits
always read back, so the count that `shortest` passes is never used up. -/
def search (x : Binary64) : Nat → Int → Nat × Int
  | 0, p => (0, p)
  | n + 1, p =>
    let a := x.num * Nat.pow 10 (-p).toNat
    let b := x.den * Nat.pow 10 p.toNat
    let c := a / b
    let up := x.readsBack (c + 1) p
    if x.readsBack c p then
      if up && (b < 2 * (a % b) || (b == 2 * (a % b) && c % 2 == 1)) then (c + 1, p) else (c, p)
    else if up then (c + 1, p)
    else search x n (p - 1)

/-- Digits without trailing zeros. -/
def stripZeros : Nat → Nat → Int → Nat × Int
  | 0, c, p => (c, p)
  | n + 1, c, p => if c % 10 = 0 ∧ c ≠ 0 then stripZeros n (c / 10) (p + 1) else (c, p)

/-- Digits `c` and power `p` with `c * 10 ^ p` the shortest decimal that reads back. -/
def shortest (x : Binary64) : Nat × Int :=
  if x.isZero then (0, 0)
  else
    let (c, p) := search x 18 x.leading
    stripZeros 18 c p

/-! ## 3. Text

Two ways to show a value. One shows all digits that are needed to read it back, the other one
exactly one digit after the point. -/

/-- The text of a value: positional from 1e-5 up to below 1e16, with at least one digit after
the point; outside, one leading digit and a signed exponent. -/
def text (x : Binary64) : List Char :=
  let sign := if x.negative then ['-'] else []
  if x.isZero then sign ++ ['0', '.', '0']
  else
    let (c, p) := x.shortest
    let ds := digits c
    let e : Int := p + ds.length - 1
    let zeros (n : Nat) : List Char := List.replicate n '0'
    let body :=
      if -5 ≤ e ∧ e < 16 then
        if 0 ≤ p then ds ++ zeros p.toNat ++ ['.', '0']
        else if 0 ≤ e then ds.take (e.toNat + 1) ++ ['.'] ++ ds.drop (e.toNat + 1)
        else ['0', '.'] ++ zeros (-e - 1).toNat ++ ds
      else
        let mantissa := match ds with
          | [] => []
          | [d] => [d]
          | d :: r => d :: '.' :: r
        let power := if e < 0 then '-' :: digits (-e).toNat else '+' :: digits e.toNat
        mantissa ++ ['e'] ++ power
    sign ++ body

/-- The value with one digit after the point. -/
def oneDecimal (x : Binary64) : List Char :=
  let t := roundHalfEven (x.num * 10) x.den
  digits (t / 10) ++ ['.'] ++ digits (t % 10)

end Binary64

end UpgradeScan.Number
