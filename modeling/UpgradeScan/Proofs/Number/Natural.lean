/-
`Proofs/Number/Natural.lean` -- the digits of a natural number read back as it.

Counts and lines are shown in decimal digits, in shares, in reports and in templates, and are read
from digits by one function. That the two are inverse to each other is what makes a count in a text
the count itself. Every text of digits is read, also one with zeros in front, so the converse does
not hold.
-/
import UpgradeScan.Number.Shortest

set_option autoImplicit false

namespace UpgradeScan.Number

theorem isDigit_of_mem_digits {n : Nat} {c : Char} (h : c ∈ digits n) : c.isDigit = true :=
  Nat.isDigit_of_mem_toDigits (by decide) (by decide) h

/-- The digits of a number are worth that number. -/
theorem ofDigits_digits (n : Nat) : ofDigits (digits n) = n := by
  have hstep : (fun (m : Nat) (c : Char) => m * 10 + digitValue c) =
      fun m c => 10 * m + (c.toNat - '0'.toNat) := by
    funext m c
    rw [digitValue, Nat.mul_comm]
  rw [ofDigits, hstep, ← Nat.ofDigitChars_eq_foldl]
  exact Nat.ofDigitChars_ten_toDigits

theorem natural?_digits (n : Nat) : natural? (digits n) = some n := by
  have hall : digits n ≠ [] ∧ (digits n).all Char.isDigit = true :=
    ⟨Nat.toDigits_ne_nil, List.all_eq_true.mpr fun _ => isDigit_of_mem_digits⟩
  rw [natural?, if_pos hall, ofDigits_digits]

end UpgradeScan.Number
