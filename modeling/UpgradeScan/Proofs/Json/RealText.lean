/-
`Proofs/Json/RealText.lean` -- the text of a 64-bit float is a number of the data format.

The time that a scan took is a float, and it is printed by the shortest digits that are read back as
it. The document around it is valid only if that text is a number of the data format, which is
stricter than what one might write down: there must be a digit before the point and one after it,
and no zero may stand before another digit.

The layout of the text depends on where the point falls among the digits, and there are four. The
point may come after all digits, with zeros between, and then `.0` follows. It may fall among them.
It may come before them, and then a zero stands before it and others may follow. Or the number is so
large or so small that a power of ten is written. In each of the four layouts the whole part is
either a single zero or begins with the first of the shortest digits, which is not zero
(`shortest_ne_zero`); and a point always has digits after it.

Nothing is said about the value of the text. What is needed is its form, for every float that the
format has.
-/
import UpgradeScan.Proofs.Json.Number
import UpgradeScan.Proofs.Number.Shortest

set_option autoImplicit false

namespace UpgradeScan.JsonText

open UpgradeScan.Text

/-! ## 1. Numbers in characters

The same grammar in characters, since that is what the printer makes. Each part of a number is one
byte for each character. -/

/-- The digits that are printed are those of the number. -/
theorem digits_eq_map (n : Nat) : Number.digits n = (decimal n).map Nat.digitChar := by
  induction n using decimal_induction with
  | one n hn => rw [decimal_of_lt hn, Number.digits, Nat.toDigits_of_lt_base hn]; rfl
  | more n d hn hd ih =>
    rw [decimal_append hn hd, Number.digits, ← Nat.toDigits_append_toDigits (by decide) hn hd,
      Nat.toDigits_of_lt_base hd, List.map_append, ← ih]
    rfl

/-- Digits in characters are digits in bytes. -/
theorem encode_digitChars {ds : List Nat} (h : ∀ d ∈ ds, d < 10) :
    Utf8.encode (ds.map Nat.digitChar) = digitBytes ds := by
  induction ds with
  | nil => rfl
  | cons d ds ih =>
    have hd := encode_digitChar (h d List.mem_cons_self)
    rw [List.map_cons, ← List.singleton_append, Utf8.encode_append, hd,
      ih fun a ha => h a (List.mem_cons_of_mem _ ha)]
    rfl

/-- The characters of a sign. -/
def signChars (negative : Bool) : List Char := if negative then ['-'] else []

/-- The characters of a fraction. -/
def fractionChars : Option (List Nat) → List Char
  | none => []
  | some ds => '.' :: ds.map Nat.digitChar

/-- The characters of a power of ten, always with a sign. -/
def powerChars : Option (Bool × List Nat) → List Char
  | none => []
  | some (neg, ds) => 'e' :: (if neg then '-' else '+') :: ds.map Nat.digitChar

/-- The characters of a number. -/
def numeralChars (x : Numeral) : List Char :=
  signChars x.negative ++
    (x.whole.map Nat.digitChar ++ (fractionChars x.fraction ++ powerChars x.power))

/-- A fraction in characters is a fraction. -/
theorem fraction_chars {f : Option (List Nat)} (h : ∀ ds, f = some ds → IsDigits ds) :
    Fraction (Utf8.encode (fractionChars f)) f := by
  cases f with
  | none => exact .absent
  | some ds =>
    have hds := h ds rfl
    have henc : Utf8.encode (fractionChars (some ds)) = 0x2E :: digitBytes ds := by
      rw [fractionChars, ← List.singleton_append, Utf8.encode_append, encode_digitChars hds.2]
      rfl
    rw [henc]
    exact .present hds

/-- A power of ten in characters, byte by byte. -/
theorem encode_power {neg : Bool} {ds : List Nat} (h : ∀ d ∈ ds, d < 10) :
    Utf8.encode (powerChars (some (neg, ds))) =
      0x65 :: ((if neg then [0x2D] else [0x2B]) ++ digitBytes ds) := by
  have hsign : Utf8.encode [if neg then '-' else '+'] = if neg then [0x2D] else [0x2B] := by
    cases neg <;> rfl
  rw [powerChars, ← List.singleton_append (l := ds.map _), ← List.singleton_append,
    Utf8.encode_append, Utf8.encode_append, encode_digitChars h, hsign]
  rfl

/-- A power of ten in characters is a power of ten. -/
theorem power_chars {p : Option (Bool × List Nat)} (h : ∀ s ds, p = some (s, ds) → IsDigits ds) :
    Power (Utf8.encode (powerChars p)) p := by
  cases p with
  | none => exact .absent
  | some q =>
    obtain ⟨s, ds⟩ := q
    have hds := h s ds rfl
    rw [encode_power hds.2]
    cases s with
    | false => exact .present (.inl rfl) .plus hds
    | true => exact .present (.inl rfl) .minus hds

/-- A number in characters is a number, if its parts are. -/
theorem numeralText_chars {x : Numeral} (hw : IsWhole x.whole)
    (hf : ∀ ds, x.fraction = some ds → IsDigits ds)
    (hp : ∀ s ds, x.power = some (s, ds) → IsDigits ds) :
    NumeralText (Utf8.encode (numeralChars x)) x := by
  refine ⟨_, _, hw, fraction_chars hf, power_chars hp, ?_⟩
  have hsign : Utf8.encode (signChars x.negative) = if x.negative then [0x2D] else [] := by
    cases x.negative <;> rfl
  rw [numeralChars, Utf8.encode_append, Utf8.encode_append, Utf8.encode_append,
    encode_digitChars hw.1.2, hsign]

/-! ## 2. Floats

The four layouts, and that there are no others. -/

/-- Digits after digits are digits. -/
theorem isDigits_append {ds es : List Nat} (h : IsDigits es) (hd : ∀ d ∈ ds, d < 10) :
    IsDigits (ds ++ es) := by
  refine ⟨fun h0 => h.1 (List.append_eq_nil_iff.mp h0).2, fun d hm => ?_⟩
  rcases List.mem_append.mp hm with hm | hm
  · exact hd d hm
  · exact h.2 d hm

/-- Digits of a positive number, and any after them, are a whole part. -/
theorem isWhole_of_head {ds : List Nat} (h : IsDigits ds) (h0 : ds.head? ≠ some 0) :
    IsWhole ds := ⟨h, fun h1 => absurd h1 h0⟩

theorem isWhole_zero : IsWhole [0] := ⟨⟨by simp, by simp⟩, fun _ => rfl⟩

theorem zeros_eq_map (n : Nat) :
    List.replicate n '0' = (List.replicate n 0).map Nat.digitChar := by
  rw [List.map_replicate]
  rfl

section Layout

variable (neg : Bool) {ds : List Nat}

/-- The point after the digits, which may need zeros. -/
theorem numeral_point_after (h : IsDigits ds) (h0 : ds.head? ≠ some 0) (n : Nat) :
    ∃ y, NumeralText (Utf8.encode
      (signChars neg ++ (ds.map Nat.digitChar ++ List.replicate n '0' ++ ['.', '0']))) y := by
  have htext : signChars neg ++ (ds.map Nat.digitChar ++ List.replicate n '0' ++ ['.', '0']) =
      numeralChars ⟨neg, ds ++ List.replicate n 0, some [0], none⟩ := by
    simp only [numeralChars, List.map_append, zeros_eq_map, fractionChars, powerChars,
      List.append_nil]
    rfl
  rw [htext]
  -- the whole part is the digits and the zeros after them, the fraction is a single zero
  refine ⟨_, numeralText_chars (isWhole_of_head ⟨?_, fun d hd => ?_⟩ ?_) ?_ ?_⟩
  · exact fun hnil => h.1 (List.append_eq_nil_iff.mp hnil).1
  · rcases List.mem_append.mp hd with hd | hd
    · exact h.2 d hd
    · rw [(List.mem_replicate.mp hd).2]
      decide
  · rw [List.head?_append_of_ne_nil _ h.1]
    exact h0
  · rintro es ⟨⟩
    exact isWhole_zero.1
  · rintro s es ⟨⟩

/-- The point among the digits. -/
theorem numeral_point_among (h : ∀ d ∈ ds, d < 10) (h0 : ds.head? ≠ some 0) {n : Nat}
    (hpos : 0 < n) (hn : n < ds.length) :
    ∃ y, NumeralText (Utf8.encode (signChars neg ++ ((ds.map Nat.digitChar).take n ++ ['.'] ++
      (ds.map Nat.digitChar).drop n))) y := by
  have htext : signChars neg ++ ((ds.map Nat.digitChar).take n ++ ['.'] ++
      (ds.map Nat.digitChar).drop n) = numeralChars ⟨neg, ds.take n, some (ds.drop n), none⟩ := by
    simp only [numeralChars, List.map_take, List.map_drop, fractionChars, powerChars,
      List.append_nil, List.append_assoc]
    rfl
  rw [htext]
  -- neither side of the point is empty
  refine ⟨_, numeralText_chars (isWhole_of_head ⟨?_, fun d hd => ?_⟩ ?_) ?_ ?_⟩
  · rw [ne_eq, List.take_eq_nil_iff]
    rintro (h1 | h1)
    · omega
    · rw [h1] at hn
      exact absurd hn (Nat.not_lt_zero n)
  · exact h d (List.mem_of_mem_take hd)
  · rw [List.head?_take, if_neg (Nat.ne_of_gt hpos)]
    exact h0
  · rintro es ⟨⟩
    refine ⟨?_, fun d hd => h d (List.mem_of_mem_drop hd)⟩
    rw [ne_eq, List.drop_eq_nil_iff]
    omega
  · rintro s es ⟨⟩

/-- The point before the digits, which may need zeros between. -/
theorem numeral_point_before (h : IsDigits ds) (n : Nat) :
    ∃ y, NumeralText (Utf8.encode
      (signChars neg ++ (['0', '.'] ++ List.replicate n '0' ++ ds.map Nat.digitChar))) y := by
  have htext : signChars neg ++ (['0', '.'] ++ List.replicate n '0' ++ ds.map Nat.digitChar) =
      numeralChars ⟨neg, [0], some (List.replicate n 0 ++ ds), none⟩ := by
    simp only [numeralChars, List.map_append, zeros_eq_map, fractionChars, powerChars,
      List.append_nil, List.append_assoc]
    rfl
  rw [htext]
  refine ⟨_, numeralText_chars isWhole_zero ?_ ?_⟩
  · rintro es ⟨⟩
    refine isDigits_append h fun d hd => ?_
    rw [(List.mem_replicate.mp hd).2]
    decide
  · rintro s es ⟨⟩

/-- The point after the first digit, when there is more than one, and a power of ten. -/
theorem numeral_power (h : IsDigits ds) (h0 : ds.head? ≠ some 0) (down : Bool) (e : Nat) :
    ∃ y, NumeralText (Utf8.encode (signChars neg ++ ((match ds.map Nat.digitChar with
      | [] => []
      | [d] => [d]
      | d :: r => d :: '.' :: r) ++ ['e'] ++
        (if down then '-' else '+') :: Number.digits e))) y := by
  obtain ⟨d, r, rfl⟩ := List.exists_cons_of_ne_nil h.1
  have hd : IsWhole [d] := by
    refine isWhole_of_head ⟨by simp, fun a ha => ?_⟩ h0
    rw [List.mem_singleton.mp ha]
    exact h.2 d List.mem_cons_self
  have he : ∀ s es, some (down, decimal e) = some (s, es) → IsDigits es := by
    rintro s es ⟨⟩
    exact (isWhole_decimal e).1
  rw [digits_eq_map]
  -- a single digit has no point after it
  cases r with
  | nil =>
    refine ⟨_, numeralText_chars (x := ⟨neg, [d], none, some (down, decimal e)⟩) hd ?_ he⟩
    rintro es ⟨⟩
  | cons a r =>
    refine ⟨_, (?_ : NumeralText _ ⟨neg, [d], some (a :: r), some (down, decimal e)⟩)⟩
    have hr : ∀ es, some (a :: r) = some es → IsDigits es := by
      rintro es ⟨⟩
      exact ⟨List.cons_ne_nil a r, fun b hb => h.2 b (List.mem_cons_of_mem _ hb)⟩
    have htext := numeralText_chars (x := ⟨neg, [d], some (a :: r), some (down, decimal e)⟩)
      hd hr he
    simpa only [numeralChars, fractionChars, powerChars, List.map_cons, List.append_assoc,
      List.cons_append, List.nil_append, List.map_nil] using htext

end Layout

/-- **Floats.** The text of a value of the format is a number. -/
theorem exists_numeralText {x : Number.Binary64} (h : x.significand < Nat.pow 2 53) :
    ∃ y, NumeralText (Utf8.encode x.text) y := by
  unfold Number.Binary64.text
  have hsign : (if x.negative = true then ['-'] else []) = signChars x.negative := rfl
  rw [hsign]
  dsimp only
  split
  -- zero has no shortest digits
  · refine ⟨_, numeralText_chars (x := ⟨x.negative, [0], some [0], none⟩) isWhole_zero ?_ ?_⟩
    · rintro ds ⟨⟩
      exact isWhole_zero.1
    · rintro s ds ⟨⟩
  · next hz =>
    have hc := Number.Binary64.shortest_ne_zero (by simpa using hz) h
    generalize x.shortest = found at hc
    obtain ⟨c, p⟩ := found
    dsimp only at hc ⊢
    have hds := (isWhole_decimal c).1
    have hhead := head?_decimal (Nat.pos_of_ne_zero hc)
    have hlen : (Number.digits c).length = (decimal c).length := by
      rw [digits_eq_map, List.length_map]
    rw [hlen, digits_eq_map]
    -- where the point falls among the digits
    split
    · split
      · exact numeral_point_after x.negative hds hhead _
      · split
        · exact numeral_point_among x.negative hds.2 hhead (by omega) (by omega)
        · exact numeral_point_before x.negative hds _
    · by_cases he : p + (decimal c).length - 1 < 0
      · rw [if_pos he]
        exact numeral_power x.negative hds hhead true _
      · rw [if_neg he]
        exact numeral_power x.negative hds hhead false _

end UpgradeScan.JsonText
