/-
`Proofs/Number/Rounding.lean` -- what one rounding does to a quotient.

`Rounding q x e m` says that `x` is the rational `q` rounded once: `m` units of `2 ^ e`, as near to
`q` as any number of units, the even one of two. Every operation of the format gives such a value,
for the exact result of the operation; everything else here follows from that alone. A result below
`2 ^ k` is off by at most half of `2 ^ (k - 53)`, and a natural number of 53 bits is exact.

A half between two integers needs more than an error bound. A tenth of it has no finite binary form;
but in units it is a whole number of fifths, so its rounding is off by two fifths at most, not by a
half. Ten times that stays within half a unit of the half that one started from
(`Rounding.magnitude_of_ten_mul`).

The format is computed with naturals only: a value is a significand and an exponent, and an
operation compares products and shifts them. The statements are about rationals, where the
operations are what they are on paper. Each section takes one piece across. Rounding a ratio to an
integer is a nearest integer; a power of two with an integer exponent is a ratio of two naturals;
the unit that the bit lengths of the two numbers pick is the one the size of the quotient asks for.
After `exists_rounding_ofRatio` no shift and no bit length is looked at any more.

Percentages are the use of it: a share is two roundings of a small quotient, and what is printed of
it depends on which side of a half it falls.
-/
import UpgradeScan.Proofs.Number.Shortest
import Mathlib.Data.Rat.Cast.Order
import Mathlib.Algebra.Order.Field.Power
import Mathlib.Tactic.FieldSimp
import Mathlib.Tactic.Linarith
import Mathlib.Tactic.NormNum
import Mathlib.Tactic.Positivity
import Mathlib.Tactic.Ring

set_option autoImplicit false

namespace UpgradeScan.Number

/-! ## 1. Rounding to an integer

Two ways to an integer: the nearest one, with ties to the even one, and the one that a half is
rounded up by. Each is characterised by its distance to the quotient, which is all that is used
later. -/

/-- That an integer is within a half of a ratio, with naturals alone. -/
theorem abs_sub_div_le_half_iff {n d : Nat} (hd : 0 < d) (c : Nat) :
    |(c : ℚ) - n / d| ≤ 1 / 2 ↔ 2 * (c * d) ≤ 2 * n + d ∧ 2 * n ≤ 2 * (c * d) + d := by
  have hd' : (0 : ℚ) < d := by exact_mod_cast hd
  have hsub : (c : ℚ) - n / d = (c * d - n) / d := by field_simp
  rw [hsub, abs_div, abs_of_pos hd', div_le_iff₀ hd', abs_le]
  constructor
  · rintro ⟨h1, h2⟩
    have h1' : (2 * n : ℚ) ≤ 2 * (c * d) + d := by linarith
    have h2' : (2 * (c * d) : ℚ) ≤ 2 * n + d := by linarith
    exact ⟨by exact_mod_cast h2', by exact_mod_cast h1'⟩
  · rintro ⟨h1, h2⟩
    have h1' : (2 * (c * d) : ℚ) ≤ 2 * n + d := by exact_mod_cast h1
    have h2' : (2 * n : ℚ) ≤ 2 * (c * d) + d := by exact_mod_cast h2
    constructor <;> linarith

/-- Different integers are not closer to one another than one. -/
theorem eq_of_abs_sub_lt_one {a b : Nat} (h : |(a : ℚ) - b| < 1) : a = b := by
  rw [abs_lt] at h
  have h1 : (a : ℚ) < b + 1 := by linarith
  have h2 : (b : ℚ) < a + 1 := by linarith
  have h1' : a < b + 1 := by exact_mod_cast h1
  have h2' : b < a + 1 := by exact_mod_cast h2
  omega

/-- A number of fifths is no half, so that an integer near to it is within two fifths. -/
theorem abs_sub_fifths_le {m n : Nat} (h : |(m : ℚ) - n / 5| ≤ 1 / 2) :
    |(m : ℚ) - n / 5| ≤ 2 / 5 := by
  have hscaled : |(m : ℚ) - n / 5| = |((5 * m - n : Int) : ℚ)| / 5 := by
    rw [show ((5 * m - n : Int) : ℚ) = (m - n / 5) * 5 by push_cast; ring, abs_mul,
      abs_of_pos (by norm_num : (0 : ℚ) < 5), mul_div_cancel_right₀ _ (by norm_num)]
  rw [hscaled] at h ⊢
  have hlt : |((5 * m - n : Int) : ℚ)| < 3 := by linarith
  have hint : |(5 * m - n : Int)| < 3 := by exact_mod_cast hlt
  have hint' : |(5 * m - n : Int)| ≤ 2 := Int.le_of_lt_add_one hint
  have hle : |((5 * m - n : Int) : ℚ)| ≤ 2 := by exact_mod_cast hint'
  linarith

/-- Of two integers near to `q`, one by less than a half, there is only one. -/
theorem eq_of_near {q : ℚ} {a b : Nat} (ha : |(a : ℚ) - q| ≤ 1 / 2) (hb : |(b : ℚ) - q| < 1 / 2) :
    a = b := by
  apply eq_of_abs_sub_lt_one
  have htriangle := abs_sub_le (a : ℚ) q b
  rw [abs_sub_comm q] at htriangle
  linarith

/-- An even number that is nearest is the result, also when the next one is as near. -/
theorem roundHalfEven_eq_of_even {n d c : Nat} (hd : 0 < d) (hc : c % 2 = 0)
    (h : |(c : ℚ) - n / d| ≤ 1 / 2) : roundHalfEven n d = c := by
  rw [abs_sub_div_le_half_iff hd] at h
  obtain ⟨hlow, hhigh⟩ := h
  have hdiv := Nat.div_add_mod n d
  have hmod := Nat.mod_lt n hd
  rw [roundHalfEven]
  generalize n / d = q at *
  generalize n % d = r at *
  -- the candidate is one of the two integers around the quotient
  have hle : q ≤ c := by
    by_contra hlt
    have : (c + 1) * d ≤ q * d := Nat.mul_le_mul_right d (by omega)
    rw [Nat.add_mul, Nat.one_mul, Nat.mul_comm q d] at this
    omega
  have hge : c ≤ q + 1 := by
    by_contra hlt
    have : (q + 2) * d ≤ c * d := Nat.mul_le_mul_right d (by omega)
    rw [Nat.add_mul, Nat.mul_comm q d] at this
    omega
  rcases Nat.lt_or_eq_of_le hge with hlt | heq
  · have : c = q := by omega
    subst this
    rw [Nat.mul_comm c d] at hlow hhigh
    split
    · rfl
    · split
      · omega
      · omega
  · subst heq
    rw [Nat.add_mul, Nat.one_mul, Nat.mul_comm q d] at hlow hhigh
    split
    · omega
    · split
      · rfl
      · omega

/-- The result is nearest. -/
theorem abs_roundHalfEven_sub_le {n d : Nat} (hd : 0 < d) :
    |(roundHalfEven n d : ℚ) - n / d| ≤ 1 / 2 := by
  rw [abs_sub_div_le_half_iff hd]
  have hdiv := Nat.div_add_mod n d
  have hmod := Nat.mod_lt n hd
  have hsucc : (n / d + 1) * d = d * (n / d) + d := by
    rw [Nat.add_mul, Nat.one_mul, Nat.mul_comm]
  have hself : n / d * d = d * (n / d) := Nat.mul_comm _ _
  rw [roundHalfEven]
  split
  · rw [hself]
    omega
  · split
    · rw [hsucc]
      omega
    · rcases Nat.mod_two_eq_zero_or_one (n / d) with h | h
      · rw [h, Nat.add_zero, hself]
        omega
      · rw [h, hsucc]
        omega

/-- The integer below a half above the quotient. -/
theorem roundHalfUp_eq_iff {n d c : Nat} (hd : 0 < d) :
    roundHalfUp n d = c ↔ (c : ℚ) - 1 / 2 ≤ n / d ∧ (n : ℚ) / d < c + 1 / 2 := by
  have hd' : (0 : ℚ) < d := by exact_mod_cast hd
  have hnat : roundHalfUp n d = c ↔ 2 * d * c ≤ 2 * n + d ∧ 2 * n + d < 2 * d * (c + 1) := by
    rw [roundHalfUp, Nat.div_eq_iff (by omega), Nat.mul_comm c, Nat.mul_add, Nat.mul_one]
    omega
  rw [hnat, le_div_iff₀ hd', div_lt_iff₀ hd']
  constructor
  · rintro ⟨h1, h2⟩
    have h1' : (2 * d * c : ℚ) ≤ 2 * n + d := by exact_mod_cast h1
    have h2' : (2 * n + d : ℚ) < 2 * d * (c + 1) := by exact_mod_cast h2
    constructor <;> linarith
  · rintro ⟨h1, h2⟩
    have h1' : (2 * d * c : ℚ) ≤ 2 * n + d := by linarith
    have h2' : (2 * n + d : ℚ) < 2 * d * (c + 1) := by linarith
    exact ⟨by exact_mod_cast h1', by exact_mod_cast h2'⟩

/-! ## 2. Magnitudes

Powers of two with an integer exponent, and the number that a value of the format stands for. The
sign is left out, since none of the operations here looks at it. -/

/-- `2 ^ e` as the ratio of two naturals. -/
theorem two_zpow (e : Int) :
    (2 : ℚ) ^ e = (Nat.pow 2 e.toNat : Nat) / (Nat.pow 2 (-e).toNat : Nat) := by
  have hpow : ∀ k : Nat, ((Nat.pow 2 k : Nat) : ℚ) = 2 ^ (k : Int) := by
    intro k
    rw [show Nat.pow 2 k = 2 ^ k from rfl, zpow_natCast]
    push_cast
    rfl
  rw [hpow, hpow, ← zpow_sub₀ (by norm_num)]
  congr 1
  omega

theorem two_zpow_pos (e : Int) : (0 : ℚ) < 2 ^ e := zpow_pos (by norm_num) e

theorem two_zpow_mul (a b : Int) : (2 : ℚ) ^ a * 2 ^ b = 2 ^ (a + b) :=
  (zpow_add₀ (by norm_num) a b).symm

theorem two_zpow_le {a b : Int} (h : a ≤ b) : (2 : ℚ) ^ a ≤ 2 ^ b :=
  zpow_le_zpow_right₀ (by norm_num) h

theorem lt_of_two_zpow_lt {a b : Int} (h : (2 : ℚ) ^ a < 2 ^ b) : a < b :=
  (zpow_lt_zpow_iff_right₀ (by norm_num)).mp h

/-- A natural number is a natural number of fractional units. -/
theorem natural_div_two_zpow (c : Nat) {e : Int} (he : e ≤ 0) :
    (c : ℚ) / 2 ^ e = (c * 2 ^ (-e).toNat : Nat) := by
  rw [div_eq_mul_inv, ← zpow_neg, Nat.cast_mul, Nat.cast_pow, ← zpow_natCast,
    Int.toNat_of_nonneg (by omega)]
  rfl

namespace Binary64

/-- The number that a value stands for, without its sign. -/
def magnitude (x : Binary64) : ℚ := x.num / x.den

/-- The number is the significand in units. -/
theorem magnitude_eq (x : Binary64) : x.magnitude = x.significand * 2 ^ x.exponent := by
  rw [magnitude, two_zpow, num, den]
  push_cast
  ring

/-! ## 3. The unit of a quotient

The unit is found from the bit lengths of numerator and denominator, which leaves two candidates,
and one comparison decides between them. `exponentFor_bounds` says what came of it in terms of the
quotient. -/

theorem two_zpow_log2_le {n : Nat} (hn : n ≠ 0) : (2 : ℚ) ^ (n.log2 : Int) ≤ n := by
  rw [zpow_natCast]
  exact_mod_cast Nat.log2_self_le hn

theorem lt_two_zpow_log2 (n : Nat) : (n : ℚ) < 2 ^ ((n.log2 : Int) + 1) := by
  have h : n < 2 ^ (n.log2 + 1) := Nat.lt_log2_self
  have h' : (n : ℚ) < 2 ^ (n.log2 + 1) := by exact_mod_cast h
  rwa [← zpow_natCast, Nat.cast_add, Nat.cast_one] at h'

section Quotients

variable {n d : Nat}

/-- From the bits of both numbers alone, a quotient is known up to a factor of four. -/
theorem two_zpow_le_quotient (hn : 0 < n) (hd : 0 < d) :
    (2 : ℚ) ^ ((n.log2 : Int) - d.log2 - 1) ≤ n / d := by
  rw [le_div_iff₀ (by exact_mod_cast hd)]
  calc (2 : ℚ) ^ ((n.log2 : Int) - d.log2 - 1) * d
      ≤ 2 ^ ((n.log2 : Int) - d.log2 - 1) * 2 ^ ((d.log2 : Int) + 1) :=
        mul_le_mul_of_nonneg_left (lt_two_zpow_log2 d).le (two_zpow_pos _).le
    _ = 2 ^ (n.log2 : Int) := by
        rw [two_zpow_mul]
        congr 1
        omega
    _ ≤ n := two_zpow_log2_le (by omega)

/-- The other end of these bounds. -/
theorem quotient_lt_two_zpow (hd : 0 < d) :
    (n : ℚ) / d < 2 ^ ((n.log2 : Int) - d.log2 + 1) := by
  rw [div_lt_iff₀ (by exact_mod_cast hd)]
  calc (n : ℚ) < 2 ^ ((n.log2 : Int) + 1) := lt_two_zpow_log2 n
    _ = 2 ^ ((n.log2 : Int) - d.log2 + 1) * 2 ^ (d.log2 : Int) := by
        rw [two_zpow_mul]
        congr 1
        omega
    _ ≤ 2 ^ ((n.log2 : Int) - d.log2 + 1) * d :=
        mul_le_mul_of_nonneg_left (two_zpow_log2_le (by omega)) (two_zpow_pos _).le

/-- The comparison of naturals that decides between two units. -/
theorem units_lt_iff (hd : 0 < d) (e : Int) :
    n * Nat.pow 2 (-e).toNat < d * Nat.pow 2 e.toNat * Nat.pow 2 52 ↔
      (n : ℚ) / d < 2 ^ (e + 52) := by
  have hd' : (0 : ℚ) < d := by exact_mod_cast hd
  have hpos : (0 : ℚ) < (Nat.pow 2 (-e).toNat : Nat) := by
    exact_mod_cast Nat.pow_pos (by decide : 0 < 2)
  have h52 : (2 : ℚ) ^ (52 : Int) = (Nat.pow 2 52 : Nat) := by norm_num
  rw [← two_zpow_mul, two_zpow e, h52, div_lt_iff₀ hd', div_mul_eq_mul_div, div_mul_eq_mul_div,
    lt_div_iff₀ hpos]
  have hcomm : d * Nat.pow 2 e.toNat * Nat.pow 2 52 = Nat.pow 2 e.toNat * Nat.pow 2 52 * d := by
    rw [Nat.mul_assoc, Nat.mul_comm]
  rw [hcomm]
  exact_mod_cast Iff.rfl

/-- A quotient has at most 53 bits before its unit, and exactly 53 unless the unit is the
least of the format. -/
theorem exponentFor_bounds (hn : 0 < n) (hd : 0 < d) :
    (n : ℚ) / d < 2 ^ (exponentFor n d + 53) ∧
      (minExponent < exponentFor n d → (2 : ℚ) ^ (exponentFor n d + 52) ≤ n / d) := by
  have hlow := two_zpow_le_quotient hn hd
  have hup := quotient_lt_two_zpow (n := n) hd
  rw [exponentFor]
  simp only [units_lt_iff hd]
  -- The guess from the two lengths is right or one too large; the test tells which.
  generalize hguess : (n.log2 : Int) - d.log2 - 52 = e
  rw [show (n.log2 : Int) - d.log2 - 1 = e - 1 + 52 by omega] at hlow
  rw [show (n.log2 : Int) - d.log2 + 1 = e + 53 by omega] at hup
  split
  · next h =>
    constructor
    · exact h.trans_le (two_zpow_le (by omega))
    · intro hmin
      rw [max_eq_right (by omega)]
      exact hlow
  · next h =>
    constructor
    · exact hup.trans_le (two_zpow_le (by omega))
    · intro hmin
      rw [max_eq_right (by omega)]
      exact not_lt.mp h

end Quotients

/-! ## 4. One rounding

The relation, and what follows from it: bounds of the error by the size of the quotient, results
that are exact, and the one place where two roundings cancel. -/

/-- `x` is the quotient `q` rounded once: the multiple of the unit `2 ^ e` that is nearest, the
even one of two. -/
structure Rounding (q : ℚ) (x : Binary64) (e : Int) (m : Nat) : Prop where
  unit_min : minExponent ≤ e
  lt : q < 2 ^ (e + 53)
  le : minExponent < e → (2 : ℚ) ^ (e + 52) ≤ q
  magnitude_eq : x.magnitude = m * 2 ^ e
  near : |(m : ℚ) - q / 2 ^ e| ≤ 1 / 2
  even : ∀ c : Nat, c % 2 = 0 → |(c : ℚ) - q / 2 ^ e| ≤ 1 / 2 → m = c

/-- Every quotient is rounded. -/
theorem exists_rounding_ofRatio (negative : Bool) (n : Nat) {d : Nat} (hd : 0 < d) :
    ∃ e m, Rounding (n / d) (ofRatio negative n d) e m := by
  -- Zero has no first bit and therefore no exponent of its own; it is rounded by hand.
  by_cases hn : n = 0
  · subst hn
    refine ⟨minExponent, 0, le_refl _, ?_, fun h => absurd h (lt_irrefl _), ?_, ?_, ?_⟩
    · rw [Nat.cast_zero, zero_div]
      exact two_zpow_pos _
    · rw [ofRatio, if_pos rfl, Binary64.magnitude_eq]
    · norm_num
    · intro c _ hc
      rw [Nat.cast_zero, zero_div, zero_div, sub_zero, Nat.abs_cast] at hc
      have hlt : (c : ℚ) < 1 := by linarith
      have : c < 1 := by exact_mod_cast hlt
      omega
  · obtain ⟨hlt, hle⟩ := exponentFor_bounds (Nat.pos_of_ne_zero hn) hd
    have hmin : minExponent ≤ exponentFor n d := le_max_left _ _
    generalize he : exponentFor n d = e at *
    have hD : 0 < d * Nat.pow 2 e.toNat := Nat.mul_pos hd (Nat.pow_pos (by decide))
    -- At most one of the two powers is not one, according to the sign of the exponent.
    have hquot : ((n * Nat.pow 2 (-e).toNat : Nat) : ℚ) / (d * Nat.pow 2 e.toNat : Nat) =
        n / d / 2 ^ e := by
      have h1 : ((Nat.pow 2 e.toNat : Nat) : ℚ) ≠ 0 := by
        exact_mod_cast (Nat.pow_pos (by decide : 0 < 2)).ne'
      have h2 : ((Nat.pow 2 (-e).toNat : Nat) : ℚ) ≠ 0 := by
        exact_mod_cast (Nat.pow_pos (by decide : 0 < 2)).ne'
      rw [two_zpow]
      push_cast
      field_simp
    refine ⟨e, roundHalfEven (n * Nat.pow 2 (-e).toNat) (d * Nat.pow 2 e.toNat), hmin, hlt, hle,
      ?_, ?_, ?_⟩
    · rw [ofRatio, if_neg hn, he]
      dsimp only
      split
      · next h =>
        rw [h, Binary64.magnitude_eq, ← two_zpow_mul]
        norm_num
        ring
      · rw [Binary64.magnitude_eq]
    · rw [← hquot]
      exact abs_roundHalfEven_sub_le hD
    · intro c hc hnear
      rw [← hquot] at hnear
      exact roundHalfEven_eq_of_even hD hc hnear

/-- A natural number is rounded once. -/
theorem exists_rounding_ofNat (n : Nat) : ∃ e m, Rounding n (ofNat n) e m := by
  have h := exists_rounding_ofRatio false n Nat.one_pos
  rwa [Nat.cast_one, div_one] at h

/-- A product is rounded once. -/
theorem exists_rounding_mul (x y : Binary64) :
    ∃ e m, Rounding (x.magnitude * y.magnitude) (x.mul y) e m := by
  have h := exists_rounding_ofRatio (x.negative != y.negative) (x.num * y.num)
    (Nat.mul_pos x.den_pos y.den_pos)
  have hq : ((x.num * y.num : Nat) : ℚ) / (x.den * y.den : Nat) = x.magnitude * y.magnitude := by
    rw [magnitude, magnitude, div_mul_div_comm]
    push_cast
    rfl
  rwa [hq] at h

/-- A quotient of two values is rounded once. -/
theorem exists_rounding_div (x : Binary64) {y : Binary64} (hy : 0 < y.num) :
    ∃ e m, Rounding (x.magnitude / y.magnitude) (x.div y) e m := by
  have h := exists_rounding_ofRatio (x.negative != y.negative) (x.num * y.den)
    (Nat.mul_pos x.den_pos hy)
  have hq : ((x.num * y.den : Nat) : ℚ) / (x.den * y.num : Nat) = x.magnitude / y.magnitude := by
    rw [magnitude, magnitude, div_div_div_eq]
    push_cast
    rfl
  rwa [hq] at h

namespace Rounding

variable {q : ℚ} {x : Binary64} {e : Int} {m : Nat}

/-- The error in units. -/
theorem error_eq (h : Rounding q x e m) : |x.magnitude - q| = |(m : ℚ) - q / 2 ^ e| * 2 ^ e := by
  have hpos := two_zpow_pos e
  rw [h.magnitude_eq, ← abs_of_pos hpos, ← abs_mul, abs_of_pos hpos, sub_mul,
    div_mul_cancel₀ _ hpos.ne']

/-- The error is at most half a unit. -/
theorem error_le (h : Rounding q x e m) : |x.magnitude - q| ≤ 1 / 2 * 2 ^ e := by
  rw [h.error_eq]
  exact mul_le_mul_of_nonneg_right h.near (two_zpow_pos e).le

/-- A quotient below `2 ^ k` has a unit of at most `2 ^ (k - 53)`. -/
theorem unit_le (h : Rounding q x e m) {k : Int} (hk : -1021 ≤ k) (hq : q < 2 ^ k) :
    e ≤ k - 53 := by
  rcases lt_or_eq_of_le h.unit_min with hlt | heq
  · have := lt_of_two_zpow_lt ((h.le hlt).trans_lt hq)
    omega
  · rw [← heq, minExponent]
    omega

/-- A quotient from `2 ^ k` on has a unit above `2 ^ (k - 53)`. -/
theorem lt_unit (h : Rounding q x e m) {k : Int} (hq : (2 : ℚ) ^ k ≤ q) : k - 53 < e := by
  have := lt_of_two_zpow_lt (hq.trans_lt h.lt)
  omega

theorem error_le_of_lt (h : Rounding q x e m) {k : Int} (hk : -1021 ≤ k) (hq : q < 2 ^ k) :
    |x.magnitude - q| ≤ 1 / 2 * 2 ^ (k - 53) :=
  h.error_le.trans
    (mul_le_mul_of_nonneg_left (two_zpow_le (h.unit_le hk hq)) (by norm_num))

/-- A natural number of at most 53 bits is not changed. -/
theorem magnitude_of_natural (h : Rounding q x e m) {c : Nat} (hq : q = c) (hc : c < 2 ^ 53) :
    x.magnitude = c := by
  have hlt : q < 2 ^ (53 : Int) := by
    rw [hq]
    exact_mod_cast hc
  have he := h.unit_le (by decide) hlt
  -- the number is a multiple of the unit
  have hunits : q / 2 ^ e = (c * 2 ^ (-e).toNat : Nat) := by
    rw [hq]
    exact natural_div_two_zpow c (by omega)
  have hm : m = c * 2 ^ (-e).toNat := by
    apply eq_of_near h.near
    rw [hunits, sub_self, abs_zero]
    norm_num
  rw [h.magnitude_eq, hm, ← hunits, div_mul_cancel₀ _ (two_zpow_pos e).ne', hq]

/-- Above the least unit the result has all its bits. -/
theorem le_magnitude (h : Rounding q x e m) (he : minExponent < e) :
    (2 : ℚ) ^ (e + 52) ≤ x.magnitude := by
  have hpos := two_zpow_pos e
  have hq : (2 : ℚ) ^ (52 : Int) ≤ q / 2 ^ e := by
    rw [le_div_iff₀ hpos, two_zpow_mul, Int.add_comm]
    exact h.le he
  have hm : (2 ^ 52 : ℚ) - 1 < m := by
    have hnear := abs_le.mp h.near
    have : (2 : ℚ) ^ (52 : Int) = 2 ^ 52 := by norm_num
    linarith
  have hm' : 2 ^ 52 ≤ m := by
    have : (2 ^ 52 : ℚ) < m + 1 := by linarith
    have : 2 ^ 52 < m + 1 := by exact_mod_cast this
    omega
  rw [h.magnitude_eq, Int.add_comm, ← two_zpow_mul]
  refine mul_le_mul_of_nonneg_right ?_ hpos.le
  exact_mod_cast hm'

/-- A fifth of a number of units is rounded by at most two fifths. -/
theorem error_le_of_fifth (h : Rounding q x e m) {n : Nat} (hq : q / 2 ^ e = n / 5) :
    |x.magnitude - q| ≤ 2 / 5 * 2 ^ e := by
  have hnear := h.near
  rw [hq] at hnear
  rw [h.error_eq, hq]
  exact mul_le_mul_of_nonneg_right (abs_sub_fifths_le hnear) (two_zpow_pos e).le

/-- The unit of a twentieth of a natural number below `2 ^ 40` is not the least one, and is at most
`2 ^ -13`. -/
theorem unit_of_twentieth {c : Nat} (h : Rounding (c / 20) x e m) (hpos : 0 < c)
    (hc : c < 2 ^ 40) : minExponent < e ∧ e ≤ -13 := by
  have hone : (1 : ℚ) ≤ c := by exact_mod_cast hpos
  have hc' : (c : ℚ) < 2 ^ 40 := by exact_mod_cast hc
  constructor
  · have hunit := h.lt_unit (k := -5) (by norm_num; linarith)
    rw [minExponent]
    omega
  · have hunit := h.unit_le (k := 40) (by decide) (by norm_num; linarith)
    omega

/-- Ten times a value with all its bits has a unit that is at least eight times as great. -/
theorem unit_le_of_ten_mul (hx : Rounding q x e m) (hmin : minExponent < e) {y : Binary64}
    {e' : Int} {m' : Nat} (hy : Rounding (x.magnitude * 10) y e' m') : e + 3 ≤ e' := by
  have hlow : (2 : ℚ) ^ (e + 52 + 3) ≤ x.magnitude * 10 := by
    rw [← two_zpow_mul]
    have hfull := hx.le_magnitude hmin
    have hpos := two_zpow_pos (e + 52)
    norm_num
    linarith
  have hunit := hy.lt_unit hlow
  omega

/-- **Ten times a tenth.** A twentieth of a natural number, rounded and then multiplied by ten,
is half that number: the second rounding undoes the first. -/
theorem magnitude_of_ten_mul {c : Nat} (hx : Rounding (c / 20) x e m) (hpos : 0 < c)
    (hc : c < 2 ^ 40) {y : Binary64} {e' : Int} {m' : Nat}
    (hy : Rounding (x.magnitude * 10) y e' m') : y.magnitude = c / 2 := by
  have hc' : (c : ℚ) < 2 ^ 40 := by exact_mod_cast hc
  obtain ⟨hmin, hunit⟩ := hx.unit_of_twentieth hpos hc
  have hfifth : (c : ℚ) / 20 / 2 ^ e = (c * 2 ^ (-(e + 2)).toNat : Nat) / 5 := by
    rw [← natural_div_two_zpow c (by omega), ← two_zpow_mul, div_div, div_div]
    norm_num
    ring
  have herror := hx.error_le_of_fifth hfifth
  have hunit' := hx.unit_le_of_ten_mul hmin hy
  have hupper : e' ≤ -2 := by
    have hlt : x.magnitude * 10 < 2 ^ (50 : Int) := by
      have herr := (abs_le.mp (hx.error_le_of_lt (k := 40) (by decide) (by norm_num; linarith))).2
      norm_num at herr ⊢
      linarith
    have hle := hy.unit_le (by decide) hlt
    omega
  -- so half the number is an even number of second units, at most half a unit away
  have hpos' := two_zpow_pos e'
  have hhalf : ((c * 2 ^ (-(e' + 1)).toNat : Nat) : ℚ) * 2 ^ e' = c / 2 := by
    rw [← natural_div_two_zpow c (by omega), ← two_zpow_mul]
    field_simp
  have heven : c * 2 ^ (-(e' + 1)).toNat % 2 = 0 := by
    obtain ⟨k, hk⟩ : ∃ k, (-(e' + 1)).toNat = k + 1 := ⟨(-(e' + 2)).toNat, by omega⟩
    rw [hk, Nat.pow_succ, ← Nat.mul_assoc, Nat.mul_mod_left]
  have hnear : |((c * 2 ^ (-(e' + 1)).toNat : Nat) : ℚ) - x.magnitude * 10 / 2 ^ e'| ≤ 1 / 2 := by
    have hdiff : ((c * 2 ^ (-(e' + 1)).toNat : Nat) : ℚ) - x.magnitude * 10 / 2 ^ e' =
        (c / 20 - x.magnitude) * 10 / 2 ^ e' := by
      rw [← mul_right_cancel_iff_of_pos hpos', sub_mul, hhalf, div_mul_cancel₀ _ hpos'.ne',
        div_mul_cancel₀ _ hpos'.ne']
      ring
    rw [hdiff, abs_div, abs_of_pos hpos', div_le_iff₀ hpos', abs_mul, abs_sub_comm,
      abs_of_pos (by norm_num : (0 : ℚ) < 10)]
    have h8 : (2 : ℚ) ^ e * 8 ≤ 2 ^ e' := by
      refine le_trans (le_of_eq ?_) (two_zpow_le hunit')
      rw [← two_zpow_mul]
      norm_num
    linarith
  rw [hy.magnitude_eq, hy.even _ heven hnear, hhalf]

end Rounding

end Binary64

end UpgradeScan.Number
