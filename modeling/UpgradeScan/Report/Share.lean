/-
`Report/Share.lean` -- counts as parts of a hundred.

A share is the percentage with one digit after the point, then the count in parentheses. The
percentage is computed in 64-bit floats, one rounding per step; without any finding at all every
share is the number zero.

The steps are part of the definition. Another order of multiplying and dividing would round
differently, and a share that falls on a half could then be shown with another digit.
-/
import UpgradeScan.Json.Basic
import UpgradeScan.Report.Tally

set_option autoImplicit false

namespace UpgradeScan

open UpgradeScan.Number

/-- Names with the values shown beside them, in order. -/
abbrev Statistics := List (String × Json)

namespace Tally

/-- `100 * count / total`, rounded to tenths, a half away from zero. -/
def percent (count total : Nat) : Binary64 :=
  let raw := ((Binary64.ofNat 100).mul (Binary64.ofNat count)).div (Binary64.ofNat total)
  let tenths := (raw.mul (Binary64.ofNat 10)).roundAway
  (Binary64.ofNat tenths).div (Binary64.ofNat 10)

/-- The text of a share, for a total above zero. -/
def shareText (count total : Nat) : String :=
  String.ofList ((percent count total).oneDecimal ++ ['%', ' ', '('] ++ digits count ++ [')'])

/-- What is shown beside a count. -/
def share (count total : Nat) : Json :=
  if total = 0 then Json.ofNat 0 else .string (shareText count total)

/-- The shares of a tally, in its order. -/
def shares (t : Tally) (total : Nat) : Statistics :=
  t.map fun e => (e.1.name, share e.2 total)

end Tally

end UpgradeScan
