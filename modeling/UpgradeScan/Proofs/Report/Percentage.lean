/-
`Proofs/Report/Percentage.lean` -- the percentage in a share is correctly rounded.

A percentage is computed in 64-bit floats: the count is multiplied by a hundred, divided by the
total and, to be shown with one decimal, multiplied by ten and rounded to an integer. Rounding three
times is not rounding once, and a value close to a half of a tenth could be pushed over it by the
roundings before. What is shown should be what exact arithmetic gives, a half rounded up.

For totals below `2 ^ 32` it is. The product by a hundred is exact, since it stays below `2 ^ 53`.
That leaves two roundings, of the quotient and of its product by ten, and together they move the
number of tenths by at most `2 ^ -42` (`error_tenths_le`). On the other side stands a margin: the
exact number of tenths is a fraction with the total as its denominator, so where it is not a tie it
is at least `2 ^ -33` away from one (`margin_of_no_tie`), which is more than the roundings can move
it. A tie is a fraction that the format can hold exactly, so there both roundings do nothing and the
half is still seen as one (`magnitude_tenths_of_tie`).

The bound on the total is what both inequalities use. The number of findings of a report is a
length, and nothing in the program keeps it below `2 ^ 32`; above it nothing is claimed.
-/
import UpgradeScan.Report.Share
import UpgradeScan.Proofs.Number.Rounding

set_option autoImplicit false

namespace UpgradeScan

open UpgradeScan.Number
open UpgradeScan.Number.Binary64

namespace Number.Binary64

/-- A natural number below `2 ^ 53` is held exactly. -/
theorem magnitude_ofNat {n : Nat} (h : n < 2 ^ 53) : (ofNat n).magnitude = n := by
  obtain ⟨e, m, hround⟩ := exists_rounding_ofNat n
  exact hround.magnitude_of_natural rfl h

/-- A positive number does not become zero. -/
theorem num_ofNat_pos {n : Nat} (hpos : 0 < n) (h : n < 2 ^ 53) : 0 < (ofNat n).num := by
  have hmag := magnitude_ofNat h
  by_contra hzero
  rw [magnitude, Nat.eq_zero_of_not_pos hzero, Nat.cast_zero, zero_div] at hmag
  have : (0 : Nat) = n := by exact_mod_cast hmag
  omega

/-- Rounding to an integer, a half to the greater one. -/
theorem roundAway_eq_iff {x : Binary64} {c : Nat} :
    x.roundAway = c ↔ (c : ℚ) - 1 / 2 ≤ x.magnitude ∧ x.magnitude < c + 1 / 2 :=
  roundHalfUp_eq_iff x.den_pos

/-- A value near to `t` tenths is shown as these. -/
theorem oneDecimal_of_near {x : Binary64} {t : Nat} (h : |(t : ℚ) - x.magnitude * 10| < 1 / 2) :
    x.oneDecimal = digits (t / 10) ++ ['.'] ++ digits (t % 10) := by
  have hratio : ((x.num * 10 : Nat) : ℚ) / x.den = x.magnitude * 10 := by
    rw [magnitude]
    push_cast
    ring
  have ht : roundHalfEven (x.num * 10) x.den = t := by
    refine eq_of_near (abs_roundHalfEven_sub_le x.den_pos) ?_
    rwa [hratio]
  rw [oneDecimal, ht]

end Number.Binary64

namespace Tally

variable {count total : Nat}

/-- The quotient of a percentage is rounded once; the product before it is exact. -/
theorem exists_rounding_quotient (htotal : 0 < total) (hlt : total < 2 ^ 32)
    (hle : count ≤ total) : ∃ e m, Rounding (100 * count / total)
      (((ofNat 100).mul (ofNat count)).div (ofNat total)) e m := by
  obtain ⟨e, m, hround⟩ := exists_rounding_mul (ofNat 100) (ofNat count)
  rw [magnitude_ofNat (by omega), magnitude_ofNat (by omega)] at hround
  have hproduct := hround.magnitude_of_natural (c := 100 * count) (by push_cast; rfl) (by omega)
  obtain ⟨e', m', hquotient⟩ := exists_rounding_div ((ofNat 100).mul (ofNat count))
    (num_ofNat_pos htotal (by omega))
  rw [hproduct, magnitude_ofNat (by omega), Nat.cast_mul, Nat.cast_ofNat] at hquotient
  exact ⟨e', m', hquotient⟩

/-- A quotient that is no tie keeps its distance from one. -/
theorem margin_of_no_tie {n d t : Nat} (hd : 0 < d) (hlt : d < 2 ^ 32) (ht : roundHalfUp n d = t)
    (htie : 2 * n + d ≠ 2 * (t * d)) :
    (t : ℚ) - 1 / 2 + 1 / 2 ^ 33 ≤ n / d ∧ (n : ℚ) / d ≤ t + 1 / 2 - 1 / 2 ^ 33 := by
  have hd' : (0 : ℚ) < d := by exact_mod_cast hd
  have hlt' : (d : ℚ) < 2 ^ 32 := by exact_mod_cast hlt
  rw [roundHalfUp, Nat.div_eq_iff (by omega)] at ht
  have hhalf : t * (2 * d) = 2 * (t * d) := Nat.mul_left_comm t 2 d
  obtain ⟨hlow, hhigh⟩ := ht
  have hlow' : (2 * (t * d) + 1 : ℚ) ≤ 2 * n + d := by
    exact_mod_cast (by omega : 2 * (t * d) + 1 ≤ 2 * n + d)
  have hhigh' : (2 * n + d + 1 : ℚ) ≤ 2 * (t * d) + 2 * d := by
    exact_mod_cast (by omega : 2 * n + d + 1 ≤ 2 * (t * d) + 2 * d)
  rw [le_div_iff₀ hd', div_le_iff₀ hd']
  constructor <;> linarith

section Roundings

variable {x y : Binary64} {e e' : Int} {m m' : Nat}

/-- Both roundings together move the number of tenths by very little. -/
theorem error_tenths_le (htotal : 0 < total) (hle : count ≤ total)
    (hquotient : Rounding (100 * count / total) x e m)
    (hproduct : Rounding (x.magnitude * 10) y e' m') :
    |y.magnitude - 1000 * count / total| ≤ 1 / 2 ^ 42 := by
  have htotal' : (0 : ℚ) < total := by exact_mod_cast htotal
  have hle' : (count : ℚ) ≤ total := by exact_mod_cast hle
  have hhundred : (100 * count / total : ℚ) ≤ 100 := by
    rw [div_le_iff₀ htotal']
    linarith
  have htenths : (1000 * count / total : ℚ) = 100 * count / total * 10 := by ring
  have herror := hquotient.error_le_of_lt (k := 7) (by decide) (by norm_num; linarith)
  obtain ⟨h1, h2⟩ := abs_le.mp herror
  have hthousand : x.magnitude * 10 < 2 ^ (10 : Int) := by
    norm_num at h2 ⊢
    linarith
  obtain ⟨h3, h4⟩ := abs_le.mp (hproduct.error_le_of_lt (by decide) hthousand)
  rw [abs_le, htenths]
  norm_num at h1 h2 h3 h4 ⊢
  constructor <;> linarith

/-- A tie comes out exact. -/
theorem magnitude_tenths_of_tie {t : Nat} (htotal : 0 < total) (hle : count ≤ total)
    (htie : 2000 * count + total = 2 * (t * total))
    (hquotient : Rounding (100 * count / total) x e m)
    (hproduct : Rounding (x.magnitude * 10) y e' m') : y.magnitude = t - 1 / 2 := by
  have htotal' : (0 : ℚ) < total := by exact_mod_cast htotal
  have hpos : 0 < t := by
    by_contra hzero
    rw [Nat.eq_zero_of_not_pos hzero, Nat.zero_mul] at htie
    omega
  have hbound : t ≤ 1001 := by
    by_contra hgt
    have : 1002 * total ≤ t * total := Nat.mul_le_mul_right total (by omega)
    omega
  have hodd : ((2 * t - 1 : Nat) : ℚ) = 2 * t - 1 := by
    rw [Nat.cast_sub (by omega)]
    push_cast
    ring
  have hquot : (100 * count / total : ℚ) = (2 * t - 1 : Nat) / 20 := by
    have htie' : (2000 * count + total : ℚ) = 2 * (t * total) := by exact_mod_cast htie
    rw [hodd, div_eq_div_iff htotal'.ne' (by norm_num)]
    linarith
  rw [hquot] at hquotient
  rw [hquotient.magnitude_of_ten_mul (by omega) (by omega) hproduct, hodd]
  ring

end Roundings

/-- The two roundings do not change the number of tenths. -/
theorem roundAway_tenths (htotal : 0 < total) (hlt : total < 2 ^ 32) (hle : count ≤ total) :
    ((((ofNat 100).mul (ofNat count)).div (ofNat total)).mul (ofNat 10)).roundAway =
      (2000 * count + total) / (2 * total) := by
  obtain ⟨e, m, hquotient⟩ := exists_rounding_quotient htotal hlt hle
  generalize ((ofNat 100).mul (ofNat count)).div (ofNat total) = x at *
  obtain ⟨e', m', hproduct⟩ := exists_rounding_mul x (ofNat 10)
  rw [magnitude_ofNat (by omega), Nat.cast_ofNat] at hproduct
  generalize x.mul (ofNat 10) = y at *
  have hwanted : roundHalfUp (1000 * count) total = (2000 * count + total) / (2 * total) := by
    rw [roundHalfUp, ← Nat.mul_assoc]
  generalize (2000 * count + total) / (2 * total) = t at *
  rw [roundAway_eq_iff]
  by_cases htie : 2000 * count + total = 2 * (t * total)
  · rw [magnitude_tenths_of_tie htotal hle htie hquotient hproduct]
    constructor <;> linarith
  · -- everything else is too far from a tie for the error of both roundings
    obtain ⟨hlow, hhigh⟩ := margin_of_no_tie htotal hlt hwanted (by omega)
    obtain ⟨h1, h2⟩ := abs_le.mp (error_tenths_le htotal hle hquotient hproduct)
    push_cast at hlow hhigh
    norm_num at h1 h2 hlow hhigh ⊢
    constructor <;> linarith

/-- The number of tenths is never more than a thousand. -/
theorem tenths_le (htotal : 0 < total) (hle : count ≤ total) :
    (2000 * count + total) / (2 * total) ≤ 1000 := by
  rw [← Nat.lt_succ_iff, Nat.div_lt_iff_lt_mul (by omega)]
  omega

/-- The percentage as it is shown, a digit after the point: the tenths of exact arithmetic. -/
theorem oneDecimal_percent (htotal : 0 < total) (hlt : total < 2 ^ 32) (hle : count ≤ total) :
    (percent count total).oneDecimal =
      digits ((2000 * count + total) / (2 * total) / 10) ++ ['.'] ++
        digits ((2000 * count + total) / (2 * total) % 10) := by
  have hthousand := tenths_le htotal hle
  rw [percent]
  simp only [roundAway_tenths htotal hlt hle]
  generalize (2000 * count + total) / (2 * total) = t at *
  apply oneDecimal_of_near
  have hten : 0 < (ofNat 10).num := num_ofNat_pos (by omega) (by omega)
  obtain ⟨e, m, hround⟩ := exists_rounding_div (ofNat t) hten
  rw [magnitude_ofNat (by omega), magnitude_ofNat (by omega), Nat.cast_ofNat] at hround
  have ht : (t : ℚ) ≤ 1000 := by exact_mod_cast hthousand
  obtain ⟨h1, h2⟩ := abs_le.mp (hround.error_le_of_lt (k := 7) (by decide) (by norm_num; linarith))
  rw [abs_lt]
  norm_num at h1 h2 ⊢
  constructor <;> linarith

end Tally

/-- A share of so many tenths of a percent, and the count. -/
def shareOfTenths (tenths count : Nat) : String := s!"{tenths / 10}.{tenths % 10}% ({count})"

/-- The text of a share, with the percentage that exact arithmetic gives. -/
theorem Tally.shareText_eq {count total : Nat} (htotal : 0 < total) (hlt : total < 2 ^ 32)
    (hle : count ≤ total) :
    shareText count total = shareOfTenths ((2000 * count + total) / (2 * total)) count := by
  have htext : ∀ n : Nat, digits n = (toString n).toList := by
    intro n
    rw [digits, show toString n = String.ofList (Nat.toDigits 10 n) from rfl, String.toList_ofList]
  have hself : ∀ s : String, toString s = s := fun _ => rfl
  rw [shareText, oneDecimal_percent htotal hlt hle, ← String.toList_inj]
  simp [shareOfTenths, htext, hself]

/-- **Correct rounding.** The share of a count in a total below `2 ^ 32` is the percentage with the
tenth that is nearest to it, a half rounded up, and the count. Without any finding every share is
the number zero. -/
theorem Tally.shares_nearest (t : Tally) (total : Nat) :
    t.shares 0 = t.map (fun e => (e.1.name, Json.ofNat 0)) ∧
    (0 < total → total < 2 ^ 32 → (∀ e ∈ t, e.2 ≤ total) →
      t.shares total = t.map fun e =>
        (e.1.name, .string (shareOfTenths ((2000 * e.2 + total) / (2 * total)) e.2))) := by
  constructor
  · rfl
  · intro hpos hlt hle
    refine List.map_congr_left fun e he => ?_
    rw [share, if_neg (Nat.ne_of_gt hpos), shareText_eq hpos hlt (hle e he)]

/-- One sixteenth is a tie that has no exact tenth part: 6.25 is shown as 6.3, and 93.75 as 93.8. -/
theorem Tally.shares_nearest_of_sixteen :
    let t : Tally := [(.confidence .strong, 1), (.confidence .weak, 15)]
    0 < 16 ∧ 16 < 2 ^ 32 ∧ (∀ e ∈ t, e.2 ≤ 16) ∧
      t.shares 16 = [("STRONG", .string "6.3% (1)"), ("WEAK", .string "93.8% (15)")] := by
  intro t
  have hle : ∀ e ∈ t, e.2 ≤ 16 := by decide
  refine ⟨by decide, by decide, hle, ?_⟩
  rw [(shares_nearest t 16).2 (by decide) (by decide) hle]
  rfl

end UpgradeScan
