/-
`Proofs/Number/Shortest.lean` -- the search for the fewest digits finds some.

The eighteenth grid that the search looks at is the last one. Its step is below a quarter of the
value's own step, since `4 * 2 ^ 53 < 10 ^ 17`, so the grid point just below the value reads back
there at the latest. No grid is coarser than the leading digit, so the point is never zero. Both
facts come from one inequality between powers of ten (`scale_le`), which is stated for naturals: a
power `10 ^ p` of an integer `p` is the ratio of `10 ^ p.toNat` and `10 ^ (-p).toNat`.

A number is printed with the fewest digits that read back as it. The search goes from coarse grids
to fine ones and stops at the first that has such a point, so it needs a bound, and the bound is a
number of grids in the definition. What has to be shown is that the bound is never what ends it:
that a search of eighteen grids finds digits for every value of the format (`shortest_ne_zero`).
Without that, a number other than zero could be printed as zero, and reading it again would give a
different one.

Nothing is said here about the digits being fewest. It is not needed for reading back, where any
digits will do that lie in the interval of the value.
-/
import UpgradeScan.Number.Shortest

set_option autoImplicit false

namespace UpgradeScan.Number

/-! ## 1. Powers

Both facts about grids compare products of powers of ten, with one exponent positive and the other
negative. They are brought to one form here. -/

/-- `Nat.pow_add` for powers that are written `Nat.pow`, where a rewrite does not find it. -/
theorem pow_mul_pow (b m n : Nat) : Nat.pow b m * Nat.pow b n = Nat.pow b (m + n) :=
  (Nat.pow_add b m n).symm

/-- `10 ^ (p + k) ≤ 10 ^ q`, without negative powers. -/
theorem scale_le {p q : Int} {k : Nat} (h : p + k ≤ q) :
    Nat.pow 10 p.toNat * Nat.pow 10 k * Nat.pow 10 (-q).toNat ≤
      Nat.pow 10 q.toNat * Nat.pow 10 (-p).toNat := by
  rw [pow_mul_pow, pow_mul_pow, pow_mul_pow]
  exact Nat.pow_le_pow_right (by decide) (by omega)

/-! ## 2. The leading digit

A number in decimal lies between two powers of ten, given by how many digits it has. For a value of
the format, which is a ratio, this gives a power of ten that is not above it. -/

theorem digits_length_pos (n : Nat) : 0 < (digits n).length := Nat.length_toDigits_pos

/-- A number is below the power of ten that has one digit more. -/
theorem lt_pow_length_digits (n : Nat) : n < Nat.pow 10 (digits n).length :=
  (Nat.length_toDigits_le_iff (by decide) (digits_length_pos n)).mp (Nat.le_refl _)

/-- A number is at least the power of ten with as many digits. -/
theorem pow_length_digits_le {n : Nat} (h : 0 < n) : Nat.pow 10 ((digits n).length - 1) ≤ n := by
  rcases Nat.lt_or_ge n (Nat.pow 10 ((digits n).length - 1)) with hlt | hge
  · have hpos := digits_length_pos n
    rcases Nat.eq_zero_or_pos ((digits n).length - 1) with h0 | h1
    · rw [h0] at hlt
      have : Nat.pow 10 0 = 1 := rfl
      omega
    · have hle := (Nat.length_toDigits_le_iff (b := 10) (by decide) h1).mpr hlt
      have heq : (Nat.toDigits 10 n).length = (digits n).length := rfl
      omega
  · exact hge

namespace Binary64

theorem num_pos {x : Binary64} (h : 0 < x.significand) : 0 < x.num :=
  Nat.mul_pos h (Nat.pow_pos (by decide))

theorem den_pos (x : Binary64) : 0 < x.den := Nat.pow_pos (by decide)

/-- The leading digit is not above the value. -/
theorem pow_leading_le {x : Binary64} (h : 0 < x.significand) :
    Nat.pow 10 x.leading.toNat * x.den ≤ x.num * Nat.pow 10 (-x.leading).toNat := by
  rw [leading]
  split
  · next hle =>
    simp only [gridLe, decide_eq_true_eq, Nat.one_mul] at hle
    exact hle
  -- by the numbers of digits alone, when the first guess was too high
  · have hnum := pow_length_digits_le (num_pos h)
    have hden := lt_pow_length_digits x.den
    have hn := digits_length_pos x.num
    generalize (digits x.num).length = a at hnum hn
    generalize (digits x.den).length = b at hden
    calc Nat.pow 10 ((a : Int) - b - 1).toNat * x.den
        ≤ Nat.pow 10 ((a : Int) - b - 1).toNat * Nat.pow 10 b :=
          Nat.mul_le_mul_left _ (Nat.le_of_lt hden)
      _ ≤ Nat.pow 10 (a - 1) * Nat.pow 10 (-((a : Int) - b - 1)).toNat := by
          rw [pow_mul_pow, pow_mul_pow]
          exact Nat.pow_le_pow_right (by decide) (by omega)
      _ ≤ x.num * Nat.pow 10 (-((a : Int) - b - 1)).toNat := Nat.mul_le_mul_right _ hnum

/-! ## 3. The search

The search is a recursion on the number of grids left, so the statement about it has the place of
the grid and that number in it. They add up to what the last grid needs. -/

/-- A grid that is no coarser than the leading digit has a point between zero and the value. -/
theorem grid_le {x : Binary64} (h : 0 < x.significand) {p : Int} (hp : p ≤ x.leading) :
    x.den * Nat.pow 10 p.toNat ≤ x.num * Nat.pow 10 (-p).toNat := by
  have hlead := pow_leading_le h
  have hscale := scale_le (k := 0) (show p + (0 : Nat) ≤ x.leading by omega)
  have hone : Nat.pow 10 0 = 1 := rfl
  rw [hone, Nat.mul_one] at hscale
  have hpos : 0 < Nat.pow 10 (-x.leading).toNat := Nat.pow_pos (by decide)
  refine Nat.le_of_mul_le_mul_right ?_ hpos
  calc x.den * Nat.pow 10 p.toNat * Nat.pow 10 (-x.leading).toNat
      = x.den * (Nat.pow 10 p.toNat * Nat.pow 10 (-x.leading).toNat) := Nat.mul_assoc _ _ _
    _ ≤ x.den * (Nat.pow 10 x.leading.toNat * Nat.pow 10 (-p).toNat) :=
        Nat.mul_le_mul_left _ hscale
    _ = Nat.pow 10 x.leading.toNat * x.den * Nat.pow 10 (-p).toNat := by
        rw [← Nat.mul_assoc, Nat.mul_comm x.den]
    _ ≤ x.num * Nat.pow 10 (-x.leading).toNat * Nat.pow 10 (-p).toNat :=
        Nat.mul_le_mul_right _ hlead
    _ = x.num * Nat.pow 10 (-p).toNat * Nat.pow 10 (-x.leading).toNat := by
        rw [Nat.mul_assoc, Nat.mul_assoc, Nat.mul_comm (Nat.pow 10 (-x.leading).toNat)]

/-- Seventeen places after the leading digit, four steps of the grid are no more than one step
of the value. -/
theorem four_steps_le {x : Binary64} (h : 0 < x.significand)
    (hlt : x.significand < Nat.pow 2 53) {p : Int} (hp : p + 17 ≤ x.leading) :
    4 * (x.den * Nat.pow 10 p.toNat) ≤
      Nat.pow 2 x.exponent.toNat * Nat.pow 10 (-p).toNat := by
  have hlead := pow_leading_le h
  have hscale := scale_le (k := 17) (show p + (17 : Nat) ≤ x.leading by omega)
  unfold num at hlead
  have hpos : 0 < Nat.pow 10 17 * Nat.pow 10 (-x.leading).toNat :=
    Nat.mul_pos (Nat.pow_pos (by decide)) (Nat.pow_pos (by decide))
  have hsig : 4 * x.significand ≤ Nat.pow 10 17 := by
    have : 4 * Nat.pow 2 53 ≤ Nat.pow 10 17 := by decide
    omega
  -- names for the factors, so that the chain is about products only
  generalize Nat.pow 10 p.toNat = A at *
  generalize Nat.pow 10 (-p).toNat = B at *
  generalize Nat.pow 10 x.leading.toNat = C at *
  generalize Nat.pow 10 (-x.leading).toNat = D at *
  generalize Nat.pow 2 x.exponent.toNat = P at *
  generalize Nat.pow 10 17 = T at *
  generalize x.den = Q at *
  refine Nat.le_of_mul_le_mul_right ?_ hpos
  calc 4 * (Q * A) * (T * D) = 4 * Q * (A * T * D) := by ac_rfl
    _ ≤ 4 * Q * (C * B) := Nat.mul_le_mul_left _ hscale
    _ = 4 * (C * Q) * B := by ac_rfl
    _ ≤ 4 * (x.significand * P * D) * B :=
        Nat.mul_le_mul_right _ (Nat.mul_le_mul_left _ hlead)
    _ = 4 * x.significand * (P * B * D) := by ac_rfl
    _ ≤ T * (P * B * D) := Nat.mul_le_mul_right _ hsig
    _ = P * B * (T * D) := by ac_rfl

/-- On such a grid the point just below the value reads back. -/
theorem readsBack_below {x : Binary64} (h : 0 < x.significand)
    (hlt : x.significand < Nat.pow 2 53) {p : Int} (hp : p + 17 ≤ x.leading) :
    x.readsBack (x.num * Nat.pow 10 (-p).toNat / (x.den * Nat.pow 10 p.toNat)) p = true := by
  have hsteps := four_steps_le h hlt hp
  have hb : 0 < x.den * Nat.pow 10 p.toNat := Nat.mul_pos x.den_pos (Nat.pow_pos (by decide))
  have hdiv := Nat.div_add_mod (x.num * Nat.pow 10 (-p).toNat) (x.den * Nat.pow 10 p.toNat)
  have hmod := Nat.mod_lt (x.num * Nat.pow 10 (-p).toNat) hb
  have hunit : 0 < Nat.pow 2 x.exponent.toNat * Nat.pow 10 (-p).toNat :=
    Nat.mul_pos (Nat.pow_pos (by decide)) (Nat.pow_pos (by decide))
  have hnum : x.num * Nat.pow 10 (-p).toNat =
      x.significand * (Nat.pow 2 x.exponent.toNat * Nat.pow 10 (-p).toNat) := Nat.mul_assoc _ _ _
  rw [hnum] at hdiv hmod ⊢
  generalize x.significand * (Nat.pow 2 x.exponent.toNat * Nat.pow 10 (-p).toNat) /
    (x.den * Nat.pow 10 p.toNat) = c at *
  -- both ends of the interval on the grid, in quarters of the unit
  have hpoint : c * Nat.pow 10 p.toNat * (4 * x.den) = 4 * (x.den * Nat.pow 10 p.toNat * c) := by
    ac_rfl
  have hlow : ∀ below, 1 ≤ below → below ≤ 2 →
      (4 * x.significand - below) * Nat.pow 2 x.exponent.toNat * Nat.pow 10 (-p).toNat <
        c * Nat.pow 10 p.toNat * (4 * x.den) := by
    intro below h1 h2
    have hend : (4 * x.significand - below) * Nat.pow 2 x.exponent.toNat * Nat.pow 10 (-p).toNat =
        4 * (x.significand * (Nat.pow 2 x.exponent.toNat * Nat.pow 10 (-p).toNat)) -
          below * (Nat.pow 2 x.exponent.toNat * Nat.pow 10 (-p).toNat) := by
      rw [Nat.mul_assoc, Nat.sub_mul, Nat.mul_assoc 4]
    rw [hpoint, hend]
    generalize Nat.pow 2 x.exponent.toNat * Nat.pow 10 (-p).toNat = unit at *
    have hone := Nat.mul_le_mul_right unit h1
    have htwo := Nat.mul_le_mul_right unit h2
    have hsig : unit ≤ x.significand * unit := Nat.le_mul_of_pos_left unit h
    omega
  have hhigh : c * Nat.pow 10 p.toNat * (4 * x.den) <
      (4 * x.significand + 2) * Nat.pow 2 x.exponent.toNat * Nat.pow 10 (-p).toNat := by
    have hend : (4 * x.significand + 2) * Nat.pow 2 x.exponent.toNat * Nat.pow 10 (-p).toNat =
        4 * (x.significand * (Nat.pow 2 x.exponent.toNat * Nat.pow 10 (-p).toNat)) +
          2 * (Nat.pow 2 x.exponent.toNat * Nat.pow 10 (-p).toNat) := by
      rw [Nat.mul_assoc, Nat.add_mul, Nat.mul_assoc 4]
    rw [hpoint, hend]
    omega
  -- the lower end is nearer where the step of the value changes, and both ends may be inside
  rw [readsBack, interval]
  dsimp only
  have hbelow : 1 ≤ (if x.significand = Nat.pow 2 52 ∧ minExponent < x.exponent then 1 else 2) ∧
      (if x.significand = Nat.pow 2 52 ∧ minExponent < x.exponent then 1 else 2) ≤ 2 := by
    split <;> decide
  have hlo := hlow _ hbelow.1 hbelow.2
  split
  · simp only [Bool.and_eq_true, decide_eq_true_eq]
    exact ⟨Nat.le_of_lt hlo, Nat.le_of_lt hhigh⟩
  · simp only [Bool.and_eq_true, decide_eq_true_eq]
    exact ⟨hlo, hhigh⟩

/-- The digits that the search gives are not zero, when the last grid is fine enough. -/
theorem search_ne_zero {x : Binary64} (h : 0 < x.significand)
    (hlt : x.significand < Nat.pow 2 53) {n : Nat} {p : Int} (hp : p ≤ x.leading)
    (hleft : x.leading < p + 18) (hn : p + 18 ≤ x.leading + n) : (x.search n p).1 ≠ 0 := by
  induction n generalizing p with
  | zero => omega
  | succ n ih =>
    have hb : 0 < x.den * Nat.pow 10 p.toNat := Nat.mul_pos x.den_pos (Nat.pow_pos (by decide))
    have hc : 0 < x.num * Nat.pow 10 (-p).toNat / (x.den * Nat.pow 10 p.toNat) :=
      Nat.div_pos (grid_le h hp) hb
    rw [search]
    split
    · split
      · exact Nat.succ_ne_zero _
      · exact Nat.ne_of_gt hc
    · next hback =>
      split
      · exact Nat.succ_ne_zero _
      · -- the grid was too coarse, so there is a finer one to look at
        rcases Int.lt_or_le x.leading (p + 17) with hcoarse | hfine
        · exact ih (by omega) (by omega) (by omega)
        · exact absurd (readsBack_below h hlt hfine) hback

/-- Leaving out zeros at the end does not make a number zero. -/
theorem stripZeros_ne_zero {n c : Nat} {p : Int} (h : c ≠ 0) : (stripZeros n c p).1 ≠ 0 := by
  induction n generalizing c p with
  | zero => exact h
  | succ n ih =>
    unfold stripZeros
    split
    · next h10 => exact ih (by omega)
    · exact h

/-- **The shortest digits.** A value of the format that is not zero has digits that are not. -/
theorem shortest_ne_zero {x : Binary64} (h : x.isZero = false)
    (hlt : x.significand < Nat.pow 2 53) : x.shortest.1 ≠ 0 := by
  have hpos : 0 < x.significand := by
    rw [isZero, beq_eq_false_iff_ne] at h
    omega
  rw [shortest, if_neg (by rw [h]; decide)]
  have hsearch := search_ne_zero hpos hlt (n := 18) (Int.le_refl x.leading) (by omega) (by omega)
  generalize x.search 18 x.leading = found at hsearch
  obtain ⟨c, p⟩ := found
  exact stripZeros_ne_zero hsearch

end Binary64

end UpgradeScan.Number
