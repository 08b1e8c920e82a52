/-
`Proofs/Json/Number.lean` -- numbers are cut and valued as the grammar says.

A number has no closing bracket, so where it ends is decided by what comes after it. The reader cuts
it greedily: it takes digits as long as there are any, a fraction if a point follows, a power of ten
if its letter does. So a number is read back from a document when what follows cannot go on with it,
and that is what `Ends` is for (`numeral_complete`). The parts are proved one after the other, each
with the condition on what follows that it needs itself.

Then there is the question which numbers are naturals. Line numbers and counts have to be, and a
number counts as one only by its spelling: no sign, no point, no power of ten, and a value of 64
bits (`value?_eq_natural_iff`). `1.0` and `1e0` are floats, and so is a natural that is too large.
That makes the spelling of a natural unique, since digits without a leading zero are the digits of
their value (`eq_decimal`), and it is what makes the last two theorems an exact description of the
texts that are read as lines.

A value that is too large is found while it is built up digit by digit. Digits are left over then
(`absorb`), which is how the reader tells, and what is shown of it is when that happens.
-/
import UpgradeScan.Proofs.Json.Token
import Mathlib.Data.List.Induction
import Mathlib.Data.List.Basic

set_option autoImplicit false

namespace UpgradeScan.JsonText

open UpgradeScan.Text

/-! ## 1. The digits of a natural number

The decimal digits of a number, as a list of numbers. Induction goes by the last digit, which is the
one that arithmetic splits off. -/

/-- The decimal digits of a natural number, the most significant first. -/
def decimal (n : Nat) : List Nat := (Number.digits n).map Number.digitValue

/-- A digit is worth what it shows. -/
theorem digitValue_digitChar {d : Nat} (h : d < 10) : Number.digitValue d.digitChar = d :=
  Nat.toNat_digitChar_sub_48_of_lt_ten h

theorem decimal_of_lt {n : Nat} (h : n < 10) : decimal n = [n] := by
  rw [decimal, Number.digits, Nat.toDigits_of_lt_base h, List.map_singleton,
    digitValue_digitChar h]

/-- Any other number is the digits of its tenth part and one more. -/
theorem decimal_append {n d : Nat} (hn : 0 < n) (hd : d < 10) :
    decimal (10 * n + d) = decimal n ++ [d] := by
  rw [decimal, Number.digits, ← Nat.toDigits_append_toDigits (by decide) hn hd, List.map_append,
    ← Number.digits, ← decimal, Nat.toDigits_of_lt_base hd, List.map_singleton,
    digitValue_digitChar hd]

/-- Induction on the last digit. -/
theorem decimal_induction {P : Nat → Prop} (one : ∀ n, n < 10 → P n)
    (more : ∀ n d, 0 < n → d < 10 → P n → P (10 * n + d)) (n : Nat) : P n := by
  induction n using Nat.strongRecOn with
  | _ n ih =>
    by_cases h : n < 10
    · exact one n h
    · have hn : 10 * (n / 10) + n % 10 = n := by omega
      have := more (n / 10) (n % 10) (by omega) (by omega) (ih (n / 10) (by omega))
      rwa [hn] at this

theorem decimal_ne_nil (n : Nat) : decimal n ≠ [] := by
  rw [decimal, ne_eq, List.map_eq_nil_iff]
  exact Nat.toDigits_ne_nil

/-- Digits are below ten. -/
theorem lt_of_mem_decimal {n d : Nat} (h : d ∈ decimal n) : d < 10 := by
  induction n using decimal_induction with
  | one n hn =>
    rw [decimal_of_lt hn, List.mem_singleton] at h
    omega
  | more n e hn he ih =>
    rw [decimal_append hn he, List.mem_append, List.mem_singleton] at h
    rcases h with h | h
    · exact ih h
    · omega

/-- No positive number begins with a zero. -/
theorem head?_decimal {n : Nat} (h : 0 < n) : (decimal n).head? ≠ some 0 := by
  induction n using decimal_induction with
  | one n hn =>
    rw [decimal_of_lt hn, List.head?_cons]
    intro h0
    have := Option.some.inj h0
    omega
  | more n e hn he ih =>
    rw [decimal_append hn he, List.head?_append_of_ne_nil _ (decimal_ne_nil n)]
    exact ih hn

/-- The digits of a number are a whole part. -/
theorem isWhole_decimal (n : Nat) : IsWhole (decimal n) := by
  refine ⟨⟨decimal_ne_nil n, fun d hd => lt_of_mem_decimal hd⟩, fun h => ?_⟩
  rcases Nat.eq_zero_or_pos n with rfl | hn
  · exact decimal_of_lt (by decide)
  · exact absurd h (head?_decimal hn)

/-- One more digit makes the value ten times as large, and adds to it. -/
theorem digitsValue_append (ds : List Nat) (d : Nat) :
    digitsValue (ds ++ [d]) = digitsValue ds * 10 + d := by
  rw [digitsValue, List.foldl_append]
  rfl

theorem digitsValue_decimal (n : Nat) : digitsValue (decimal n) = n := by
  induction n using decimal_induction with
  | one n hn => rw [decimal_of_lt hn]; simp [digitsValue]
  | more n d hn hd ih => rw [decimal_append hn hd, digitsValue_append, ih]; omega

/-- **Uniqueness.** Digits without a leading zero are the digits of their value. -/
theorem eq_decimal {ds : List Nat} (h : IsWhole ds) : ds = decimal (digitsValue ds) := by
  obtain ⟨⟨hne, hlt⟩, hlead⟩ := h
  induction ds using List.reverseRecOn with
  | nil => exact absurd rfl hne
  | append_singleton ds d ih =>
    have hd : d < 10 := hlt d (by simp)
    rw [digitsValue_append]
    by_cases hnil : ds = []
    -- one digit, zero among them
    · subst hnil
      have h0 : digitsValue [] * 10 + d = d := by simp [digitsValue]
      rw [h0, decimal_of_lt hd]
      rfl
    -- more than one: the first is not zero, and it is the first of the digits before `d` too
    · have hhead : ds.head? ≠ some 0 := by
        intro h0
        rw [List.head?_append_of_ne_nil _ hnil] at hlead
        have := congrArg List.length (hlead h0)
        simp only [List.length_append, List.length_singleton] at this
        exact hnil (List.length_eq_zero_iff.mp (by omega))
      have hds := ih (fun h0 => absurd h0 hhead) hnil
        (fun a ha => hlt a (List.mem_append_left _ ha))
      -- zero has one digit, and that digit would lead
      have hpos : 0 < digitsValue ds := by
        rcases Nat.eq_zero_or_pos (digitsValue ds) with h0 | h0
        · rw [h0, decimal_of_lt (by decide)] at hds
          rw [hds] at hhead
          exact absurd rfl hhead
        · exact h0
      have hcomm : digitsValue ds * 10 + d = 10 * digitsValue ds + d := by omega
      rw [hcomm, decimal_append hpos hd, ← hds]

theorem encode_digitChar {d : Nat} (h : d < 10) : Utf8.encode [d.digitChar] = digitBytes [d] := by
  have all : ∀ d, d < 10 → Utf8.encode [d.digitChar] = digitBytes [d] := by decide
  exact all d h

theorem digitBytes_append (ds es : List Nat) :
    digitBytes (ds ++ es) = digitBytes ds ++ digitBytes es := by
  rw [digitBytes, List.map_append]
  rfl

/-- The digits of a number as they are printed. -/
theorem encode_digits (n : Nat) : Utf8.encode (Number.digits n) = digitBytes (decimal n) := by
  induction n using decimal_induction with
  | one n hn =>
    rw [decimal_of_lt hn, Number.digits, Nat.toDigits_of_lt_base hn, encode_digitChar hn]
  | more n d hn hd ih =>
    rw [decimal_append hn hd, Number.digits, ← Nat.toDigits_append_toDigits (by decide) hn hd,
      Utf8.encode_append, Nat.toDigits_of_lt_base hd, encode_digitChar hd, digitBytes_append,
      ← ih]
    rfl

/-! ## 2. Runs of digits

A run of digits ends where a byte is none. -/

/-- Nothing, or a byte that is no digit. -/
def NoDigit : Bytes → Prop
  | [] => True
  | b :: _ => isDigit b = false

/-- Digits are ten bytes in a row. -/
theorem isDigit_iff {b : UInt8} : isDigit b = true ↔ 0x30 ≤ b.toNat ∧ b.toNat ≤ 0x39 := by
  simp [isDigit, UInt8.le_iff_toNat_le]

theorem isDigit_ofNat {d : Nat} (h : d < 10) : isDigit (UInt8.ofNat (d + 0x30)) = true := by
  rw [isDigit_iff, UInt8.toNat_ofNat']
  omega

/-- Digits are read up to the first byte that is none. -/
theorem digitRun_complete {ds : List Nat} {r : Bytes} (h : ∀ d ∈ ds, d < 10) (hr : NoDigit r) :
    digitRun (digitBytes ds ++ r) = (ds, r) := by
  induction ds with
  | nil =>
    cases r with
    | nil => rfl
    | cons b r =>
      have hb : isDigit b = false := hr
      show digitRun (b :: r) = _
      rw [digitRun, if_neg (by rw [hb]; decide)]
  | cons d ds ih =>
    have hd : d < 10 := h d List.mem_cons_self
    have hv : (UInt8.ofNat (d + 0x30)).toNat - 0x30 = d := by
      rw [UInt8.toNat_ofNat']; omega
    show digitRun (UInt8.ofNat (d + 0x30) :: (digitBytes ds ++ r)) = _
    rw [digitRun, if_pos (isDigit_ofNat hd), ih fun a ha => h a (List.mem_cons_of_mem _ ha)]
    simp only [hv]

/-- What was read are digits, and what is left does not begin with one. -/
theorem digitRun_sound {s r : Bytes} {ds : List Nat} (h : digitRun s = (ds, r)) :
    s = digitBytes ds ++ r ∧ (∀ d ∈ ds, d < 10) ∧ NoDigit r := by
  induction s generalizing ds r with
  | nil =>
    obtain ⟨rfl, rfl⟩ := Prod.mk.inj h
    exact ⟨rfl, by simp, trivial⟩
  | cons b s ih =>
    unfold digitRun at h
    split at h
    · next hb =>
      obtain ⟨rfl, rfl⟩ := Prod.mk.inj h
      obtain ⟨hs, hlt, hr⟩ := ih rfl
      rw [isDigit_iff] at hb
      -- the digit spells the byte it was read from
      have hv : UInt8.ofNat (b.toNat - 0x30 + 0x30) = b := by
        rw [← UInt8.toNat_inj, UInt8.toNat_ofNat']; omega
      refine ⟨?_, ?_, hr⟩
      · rw [digitBytes, List.map_cons, hv, List.cons_append]
        exact congrArg (b :: ·) hs
      · rintro d hd
        rcases List.mem_cons.mp hd with rfl | hd
        · omega
        · exact hlt d hd
    · next hb =>
      obtain ⟨rfl, rfl⟩ := Prod.mk.inj h
      refine ⟨rfl, by simp, ?_⟩
      show isDigit b = false
      simpa using hb

/-- Digits begin with a digit. -/
theorem exists_digitBytes {ds : List Nat} (h : IsDigits ds) :
    ∃ b t, digitBytes ds = b :: t ∧ isDigit b = true := by
  obtain ⟨hne, hlt⟩ := h
  cases ds with
  | nil => exact absurd rfl hne
  | cons d ds => exact ⟨_, _, rfl, isDigit_ofNat (hlt d List.mem_cons_self)⟩

/-! ## 3. Fractions and powers of ten

Both may be missing, and what is missing is decided by one byte. -/

/-- What was read is a fraction, or none. -/
theorem fraction?_sound {s r : Bytes} {f : Option (List Nat)} (h : fraction? s = some (f, r)) :
    ∃ t, Fraction t f ∧ s = t ++ r := by
  unfold fraction? at h
  split at h
  · next s =>
    split at h
    -- a point needs digits
    · cases h
    · next ds t hne hd =>
      obtain ⟨rfl, rfl⟩ := Prod.mk.inj (Option.some.inj h)
      obtain ⟨rfl, hlt, -⟩ := digitRun_sound hd
      exact ⟨_, .present ⟨hne, hlt⟩, rfl⟩
  · obtain ⟨rfl, rfl⟩ := Prod.mk.inj (Option.some.inj h)
    exact ⟨[], .absent, rfl⟩

/-- What follows must not go on with digits, nor begin a fraction where there is none. -/
theorem fraction?_complete {t r : Bytes} {f : Option (List Nat)} (h : Fraction t f)
    (hr : NoDigit r) (hp : r.head? ≠ some 0x2E) : fraction? (t ++ r) = some (f, r) := by
  cases h with
  | absent =>
    rw [List.nil_append, fraction?.eq_def]
    split
    · exact absurd rfl hp
    · rfl
  | @present ds hd =>
    rw [List.cons_append, fraction?, digitRun_complete hd.2 hr]
    cases ds with
    | nil => exact absurd rfl hd.1
    | cons d ds => rfl

/-- The sign of a power of ten and what follows it. -/
def powerSign : Bytes → Bool × Bytes
  | 0x2B :: t => (false, t)
  | 0x2D :: t => (true, t)
  | t => (false, t)

/-- A power of ten is its letter, a sign that may be missing, and digits. -/
theorem power?_cons (b : UInt8) (r : Bytes) :
    power? (b :: r) =
      if b = 0x65 || b = 0x45 then
        match digitRun (powerSign r).2 with
        | ([], _) => none
        | (ds, t) => some (some ((powerSign r).1, ds), t)
      else some (none, b :: r) := rfl

/-- What was read is a sign, or none. -/
theorem powerSign_sound (s : Bytes) : ∃ g, Sign g (powerSign s).1 ∧ s = g ++ (powerSign s).2 := by
  unfold powerSign
  split
  · exact ⟨[0x2B], .plus, rfl⟩
  · exact ⟨[0x2D], .minus, rfl⟩
  · exact ⟨[], .none, rfl⟩

/-- A sign is read before digits; where there is none, digits are not taken for one. -/
theorem powerSign_complete {g : Bytes} {neg : Bool} {ds : List Nat} (hg : Sign g neg)
    (hd : IsDigits ds) (r : Bytes) :
    powerSign (g ++ (digitBytes ds ++ r)) = (neg, digitBytes ds ++ r) := by
  cases hg with
  | none =>
    obtain ⟨b, u, hbu, hb⟩ := exists_digitBytes hd
    rw [List.nil_append, hbu, List.cons_append, powerSign.eq_def]
    -- a digit is no sign
    split
    · next hs => exact absurd (List.cons.inj hs).1 (ne_of_isDigit hb (by decide))
    · next hs => exact absurd (List.cons.inj hs).1 (ne_of_isDigit hb (by decide))
    · rfl
  | plus => rfl
  | minus => rfl

/-- What was read is a power of ten, or none. -/
theorem power?_sound {s r : Bytes} {p : Option (Bool × List Nat)} (h : power? s = some (p, r)) :
    ∃ t, Power t p ∧ s = t ++ r := by
  cases s with
  | nil =>
    obtain ⟨rfl, rfl⟩ := Prod.mk.inj (Option.some.inj h)
    exact ⟨[], .absent, rfl⟩
  | cons b s =>
    rw [power?_cons] at h
    split at h
    -- a letter, which needs digits after its sign
    · next hb =>
      obtain ⟨g, hg, hs⟩ := powerSign_sound s
      split at h
      · cases h
      · next ds t hne hd =>
        obtain ⟨rfl, rfl⟩ := Prod.mk.inj (Option.some.inj h)
        obtain ⟨ht, hlt, -⟩ := digitRun_sound hd
        refine ⟨_, .present (by simpa using hb) hg ⟨hne, hlt⟩, ?_⟩
        rw [List.cons_append, List.append_assoc, ← ht, ← hs]
    · obtain ⟨rfl, rfl⟩ := Prod.mk.inj (Option.some.inj h)
      exact ⟨[], .absent, rfl⟩

/-- What follows must not go on with digits, nor begin a power of ten where there is none. -/
theorem power?_complete {t r : Bytes} {p : Option (Bool × List Nat)} (h : Power t p)
    (hr : NoDigit r) (he : r.head? ≠ some 0x65) (hE : r.head? ≠ some 0x45) :
    power? (t ++ r) = some (p, r) := by
  cases h with
  | absent =>
    cases r with
    | nil => rfl
    | cons b r =>
      have hb : ¬ (b = 0x65 || b = 0x45) = true := by
        simpa using ⟨fun h0 => he (by rw [h0]; rfl), fun h0 => hE (by rw [h0]; rfl)⟩
      rw [List.nil_append, power?_cons, if_neg hb]
  | @present e g neg ds he' hg hd =>
    have hb : (e = 0x65 || e = 0x45) = true := by simpa using he'
    rw [List.cons_append, List.append_assoc, power?_cons, if_pos hb, powerSign_complete hg hd]
    rw [digitRun_complete hd.2 hr]
    cases ds with
    | nil => exact absurd rfl hd.1
    | cons d ds => rfl

/-! ## 4. Numbers are cut as the grammar says

The four parts in a row. Each ends where the next begins, so what is needed is that no part can be
taken for a continuation of the one before it. -/

/-- The sign of a number and what follows it. -/
def minusSign : Bytes → Bool × Bytes
  | 0x2D :: t => (true, t)
  | t => (false, t)

/-- A number is a sign, a whole part, a fraction and a power of ten. -/
theorem numeral_eq (s : Bytes) :
    numeral s =
      match digitRun (minusSign s).2 with
      | ([], _) => none
      | (0 :: _ :: _, _) => none
      | (whole, t) =>
        match fraction? t with
        | none => none
        | some (frac, t) =>
          match power? t with
          | none => none
          | some (pow, t) => some (⟨(minusSign s).1, whole, frac, pow⟩, t) := rfl

/-- What was read is a sign, or none. -/
theorem minusSign_sound (s : Bytes) :
    s = (if (minusSign s).1 then [0x2D] else []) ++ (minusSign s).2 := by
  unfold minusSign
  split <;> rfl

/-- A sign is read before digits. -/
theorem minusSign_complete {ds : List Nat} (hd : IsDigits ds) (neg : Bool) (r : Bytes) :
    minusSign ((if neg then [0x2D] else []) ++ (digitBytes ds ++ r)) =
      (neg, digitBytes ds ++ r) := by
  cases neg with
  | true => rfl
  | false =>
    obtain ⟨b, u, hbu, hb⟩ := exists_digitBytes hd
    rw [if_neg (by decide), List.nil_append, hbu, List.cons_append, minusSign.eq_def]
    split
    · next hs => exact absurd (List.cons.inj hs).1 (ne_of_isDigit hb (by decide))
    · rfl

/-- What was read is a number of the grammar. -/
theorem numeral_sound {s r : Bytes} {x : Numeral} (h : numeral s = some (x, r)) :
    ∃ t, NumeralText t x ∧ s = t ++ r := by
  rw [numeral_eq] at h
  split at h
  -- no digit at all, or a zero that leads
  · cases h
  · cases h
  · next ds u hne hzero hd =>
    obtain ⟨hu, hlt, -⟩ := digitRun_sound hd
    have hwhole : IsWhole ds := by
      refine ⟨⟨hne, hlt⟩, fun h0 => ?_⟩
      cases ds with
      | nil => cases h0
      | cons d ds =>
        obtain rfl := Option.some.inj h0
        cases ds with
        | nil => rfl
        | cons e ds => exact absurd rfl (hzero e ds)
    split at h
    · cases h
    · next f v hf =>
      obtain ⟨tf, htf, rfl⟩ := fraction?_sound hf
      split at h
      · cases h
      · next p w hp =>
        obtain ⟨tp, htp, rfl⟩ := power?_sound hp
        obtain ⟨rfl, rfl⟩ := Prod.mk.inj (Option.some.inj h)
        refine ⟨_, ⟨tf, tp, hwhole, htf, htp, rfl⟩, ?_⟩
        rw [List.append_assoc, List.append_assoc, List.append_assoc, ← hu]
        exact minusSign_sound s

/-- A number is told from every other value by its first byte. -/
theorem NumeralText.exists_first {t : Bytes} {x : Numeral} (h : NumeralText t x) :
    ∃ b u, t = b :: u ∧ (b = 0x2D ∨ isDigit b = true) ∧
      ∀ c : UInt8, isDigit c = false → c ≠ 0x2D → b ≠ c := by
  have hfirst : ∃ b u, t = b :: u ∧ (b = 0x2D ∨ isDigit b = true) := by
    obtain ⟨f, p, hw, -, -, rfl⟩ := h
    obtain ⟨b, u, hbu, hb⟩ := exists_digitBytes hw.1
    rw [hbu]
    cases x.negative with
    | true => exact ⟨_, _, rfl, .inl rfl⟩
    | false => exact ⟨_, _, rfl, .inr hb⟩
  obtain ⟨b, u, hbu, hb⟩ := hfirst
  refine ⟨b, u, hbu, hb, ?_⟩
  rintro c hc hc' rfl
  rcases hb with hb | hb
  · exact hc' hb
  · rw [hc] at hb
    cases hb

/-- What may follow a value does not begin with any other byte. -/
theorem head?_ne_of_ends {b : UInt8} {r : Bytes} (hr : Ends r) (hs : isSpace b = false)
    (h2C : b ≠ 0x2C) (h5D : b ≠ 0x5D) (h7D : b ≠ 0x7D) : r.head? ≠ some b := by
  cases r with
  | nil => simp
  | cons a r =>
    intro h
    obtain rfl := Option.some.inj h
    rcases hr with h | h | h | h
    · rw [hs] at h
      cases h
    · exact h2C h
    · exact h5D h
    · exact h7D h

theorem noDigit_iff {r : Bytes} : NoDigit r ↔ ∀ b, r.head? = some b → isDigit b = false := by
  cases r with
  | nil => simp [NoDigit]
  | cons b r => simp [NoDigit]

/-- What may follow a value is no digit. -/
theorem noDigit_of_ends {r : Bytes} (hr : Ends r) : NoDigit r := by
  rw [noDigit_iff]
  intro b hb
  cases hd : isDigit b with
  | false => rfl
  | true =>
    refine absurd hb (head?_ne_of_ends hr (isSpace_of_isDigit hd) ?_ ?_ ?_)
    · exact ne_of_isDigit hd (by decide)
    · exact ne_of_isDigit hd (by decide)
    · exact ne_of_isDigit hd (by decide)

/-- A power of ten begins with its letter, so the digits before it end there. -/
theorem head?_power_append {t r : Bytes} {p : Option (Bool × List Nat)} (h : Power t p) :
    (t ++ r).head? = r.head? ∨ (t ++ r).head? = some 0x65 ∨ (t ++ r).head? = some 0x45 := by
  cases h with
  | absent => exact .inl rfl
  | present he hg hd =>
    rcases he with rfl | rfl
    · exact .inr (.inl rfl)
    · exact .inr (.inr rfl)

/-- A fraction begins with its point, so the digits before it end there. -/
theorem head?_fraction_append {t r : Bytes} {f : Option (List Nat)} (h : Fraction t f) :
    (t ++ r).head? = r.head? ∨ (t ++ r).head? = some 0x2E := by
  cases h with
  | absent => exact .inl rfl
  | present hd => exact .inr rfl

/-- A number is read as its parts, before anything that may follow a value. -/
theorem numeral_complete {t r : Bytes} {x : Numeral} (h : NumeralText t x) (hr : Ends r) :
    numeral (t ++ r) = some (x, r) := by
  obtain ⟨f, p, hw, hf, hp, rfl⟩ := h
  have hnr := noDigit_of_ends hr
  -- each run of digits stops where its text ends: before the power, before the fraction
  have hpr : NoDigit (p ++ r) := by
    rw [noDigit_iff] at hnr ⊢
    rcases head?_power_append (r := r) hp with h | h | h
    · rwa [h]
    · rw [h]
      rintro b ⟨⟩
      decide
    · rw [h]
      rintro b ⟨⟩
      decide
  -- an absent fraction is not found in what follows
  have hpd : (p ++ r).head? ≠ some 0x2E := by
    rcases head?_power_append (r := r) hp with h | h | h
    · rw [h]
      exact head?_ne_of_ends hr (by decide) (by decide) (by decide) (by decide)
    · rw [h]
      decide
    · rw [h]
      decide
  have hfr : NoDigit (f ++ (p ++ r)) := by
    rcases head?_fraction_append (r := p ++ r) hf with h | h
    · rw [noDigit_iff, h, ← noDigit_iff]
      exact hpr
    · rw [noDigit_iff, h]
      rintro b ⟨⟩
      decide
  have hfrac := fraction?_complete hf hpr hpd
  have hpow := power?_complete hp hnr
    (head?_ne_of_ends hr (by decide) (by decide) (by decide) (by decide))
    (head?_ne_of_ends hr (by decide) (by decide) (by decide) (by decide))
  obtain ⟨neg, whole, frac, pow⟩ := x
  obtain ⟨hds, hzero⟩ := hw
  dsimp only at hds hzero hfrac hpow ⊢
  rw [numeral_eq]
  simp only [List.append_assoc]
  rw [minusSign_complete hds, digitRun_complete hds.2 hfr]
  -- the reader looks at the first two digits, to refuse a zero that leads
  cases whole with
  | nil => exact absurd rfl hds.1
  | cons d ds =>
    cases ds with
    | nil => simp only [hfrac, hpow]
    | cons e ds =>
      cases d with
      | zero => exact absurd (hzero rfl) (by simp)
      | succ d => simp only [hfrac, hpow]

/-! ## 5. Numbers that are used

From digits to numbers of the machine. -/

/-- The number that digits spell after those that spell `m`. -/
def valueFrom (m : Nat) (ds : List Nat) : Nat := ds.foldl (fun n d => n * 10 + d) m

/-- The value is built up from the front. -/
theorem valueFrom_cons (m d : Nat) (ds : List Nat) :
    valueFrom m (d :: ds) = valueFrom (m * 10 + d) ds := rfl

/-- It only grows. -/
theorem le_valueFrom (m : Nat) (ds : List Nat) : m ≤ valueFrom m ds := by
  induction ds generalizing m with
  | nil => exact Nat.le_refl m
  | cons d ds ih =>
    have := ih (m * 10 + d)
    rw [valueFrom_cons]
    omega

/-- All digits are used when the number fits. -/
theorem absorb_of_le {m : Nat} {ds : List Nat} (h : valueFrom m ds ≤ maxWord) :
    absorb m ds = (valueFrom m ds, []) := by
  induction ds generalizing m with
  | nil => rfl
  | cons d ds ih =>
    rw [valueFrom_cons] at h ⊢
    rw [absorb, if_pos (Nat.le_trans (le_valueFrom _ ds) h)]
    exact ih h

/-- Digits are left over when the number does not fit. -/
theorem absorb_of_lt {m : Nat} {ds : List Nat} (hm : m ≤ maxWord) (h : maxWord < valueFrom m ds) :
    (absorb m ds).2 ≠ [] := by
  induction ds generalizing m with
  | nil => exact absurd h (Nat.not_lt.mpr hm)
  | cons d ds ih =>
    unfold absorb
    split
    · next hle => exact ih hle h
    · exact List.cons_ne_nil d ds

/-- The value of a whole number that fits: a natural, a negative number of 64 bits, or a float. -/
theorem value?_of_le {neg : Bool} {ds : List Nat} (h : digitsValue ds ≤ maxWord) :
    (Numeral.mk neg ds none none).value? =
      if neg = false then some (.natural (digitsValue ds))
      else if 0 < digitsValue ds ∧ digitsValue ds ≤ Nat.pow 2 63 then
        some (.negative (digitsValue ds))
      else some (.real (Number.Binary64.ofRatio true (digitsValue ds) 1)) := by
  have habs : absorb 0 ds = (digitsValue ds, []) := absorb_of_le h
  simp only [Numeral.value?, habs, ne_eq, not_true_eq_false, if_false]

/-- A float is no natural. -/
theorem map_real_ne_natural {f : Option Number.Binary64} {n : Nat} :
    f.map JsonNumber.real ≠ some (.natural n) := by
  cases f with
  | none => simp
  | some x => simp

/-- A number that is a natural has no sign, no fraction and no power of ten. -/
theorem value?_eq_natural_iff {x : Numeral} {n : Nat} :
    x.value? = some (.natural n) ↔
      x.negative = false ∧ x.fraction = none ∧ x.power = none ∧ digitsValue x.whole = n ∧
        n < Nat.pow 2 64 := by
  have hword : maxWord + 1 = Nat.pow 2 64 := by decide
  obtain ⟨neg, whole, frac, pow⟩ := x
  constructor
  · intro h
    cases frac with
    | some f => exact absurd h map_real_ne_natural
    | none =>
      cases pow with
      | some p => exact absurd h map_real_ne_natural
      | none =>
        rcases Nat.lt_or_ge maxWord (digitsValue whole) with hlt | hle
        -- more than 64 bits are read as a real
        · have hex := absorb_of_lt (Nat.zero_le _) hlt
          simp only [Numeral.value?, ne_eq, hex, not_false_eq_true, if_true] at h
          exact absurd h map_real_ne_natural
        · rw [value?_of_le hle] at h
          cases neg with
          | false =>
            rw [if_pos rfl] at h
            have hn := JsonNumber.natural.inj (Option.some.inj h)
            exact ⟨rfl, rfl, rfl, hn, by omega⟩
          | true =>
            -- a sign gives a negative number, or a real for zero and for what is too small
            rw [if_neg (by decide)] at h
            split at h
            · cases Option.some.inj h
            · cases Option.some.inj h
  · rintro ⟨rfl, rfl, rfl, hn, hlt⟩
    dsimp only at hn
    rw [value?_of_le (by omega), if_pos rfl, hn]

/-- A negative number of 64 bits is held as one. -/
theorem value?_negative {n : Nat} (h : 0 < n) (hle : n ≤ Nat.pow 2 63) :
    (Numeral.mk true (decimal n) none none).value? = some (.negative n) := by
  have hword : Nat.pow 2 63 ≤ maxWord := by decide
  have hv := digitsValue_decimal n
  rw [value?_of_le (by omega), if_neg (by decide), hv, if_pos ⟨h, hle⟩]

theorem numeralText_natural (n : Nat) :
    NumeralText (digitBytes (decimal n)) ⟨false, decimal n, none, none⟩ :=
  ⟨[], [], isWhole_decimal n, .absent, .absent, by simp⟩

theorem numeralText_negative (n : Nat) :
    NumeralText (0x2D :: digitBytes (decimal n)) ⟨true, decimal n, none, none⟩ :=
  ⟨[], [], isWhole_decimal n, .absent, .absent, by simp⟩

/-- **Naturals.** A number is read as a natural of 64 bits from its digits only. -/
theorem number_natural_sound {s r : Bytes} {n : Nat} (h : number s = some (.natural n, r)) :
    n < Nat.pow 2 64 ∧ s = digitBytes (decimal n) ++ r := by
  unfold number at h
  split at h
  · cases h
  · next x t hx =>
    obtain ⟨v, hv, heq⟩ := Option.map_eq_some_iff.mp h
    obtain ⟨rfl, rfl⟩ := Prod.mk.inj heq
    obtain ⟨hneg, hfrac, hpow, rfl, hlt⟩ := value?_eq_natural_iff.mp hv
    obtain ⟨u, ⟨f, p, hw, hf, hp, rfl⟩, rfl⟩ := numeral_sound hx
    rw [hfrac] at hf
    rw [hpow] at hp
    cases hf
    cases hp
    refine ⟨hlt, ?_⟩
    rw [hneg, ← eq_decimal hw]
    simp

/-- The digits of a natural of 64 bits are read as it. -/
theorem number_natural_complete {n : Nat} {r : Bytes} (h : n < Nat.pow 2 64) (hr : Ends r) :
    number (digitBytes (decimal n) ++ r) = some (.natural n, r) := by
  have hv : (Numeral.mk false (decimal n) none none).value? = some (.natural n) :=
    value?_eq_natural_iff.mpr ⟨rfl, rfl, rfl, digitsValue_decimal n, h⟩
  rw [number, numeral_complete (numeralText_natural n) hr]
  simp only [hv, Option.map_some]

/-- A minus sign and digits are read as a negative number, if it has 64 bits. -/
theorem number_negative_complete {n : Nat} {r : Bytes} (h : 0 < n) (hle : n ≤ Nat.pow 2 63)
    (hr : Ends r) : number (0x2D :: (digitBytes (decimal n) ++ r)) = some (.negative n, r) := by
  rw [number, ← List.cons_append, numeral_complete (numeralText_negative n) hr]
  simp only [value?_negative h hle, Option.map_some]

end UpgradeScan.JsonText
