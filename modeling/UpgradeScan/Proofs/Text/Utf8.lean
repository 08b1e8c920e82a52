/-
`Proofs/Text/Utf8.lean` -- reading UTF-8 undoes writing it, and nothing else is read.

A text has one byte sequence and a well-formed byte sequence one text: `decode? b = some s ↔ b =
encode s`. The step is a piece of the cut. `Shape` lists the four lengths of a character together
with the ranges of their bytes; `piece` gives a character exactly on a shape, and a shape is exactly
what `String.utf8EncodeChar` writes.

The writer is the one of the library, and the reader is defined on bytes, because it has to say what
becomes of bytes that are no text: they are cut into pieces, and each piece that is no character is
counted for itself. So the two have to be compared, and the ranges in `Shape` are where that
happens. They leave out the longer forms of a character, the surrogates and what lies beyond
U+10FFFF, and `exists_shape` shows that no character is left out.

Two consequences are used in places that do not look like UTF-8. No character is the beginning of
another (`encodeChar_append_inj`), so a text that is found in bytes begins and ends at characters.
And the characters of a long string can be evaluated through its bytes (`toList_eq`).
-/
import UpgradeScan.Text.Utf8

set_option autoImplicit false

namespace UpgradeScan.Text.Utf8

/-! ## 1. Bytes by their numbers

The tests on bytes and the numbers behind them. A byte that goes on with a character lies in one
range, and after four of the first bytes the range of the second one is narrower. -/

theorem isTail_iff {b : UInt8} : isTail b = true ↔ 0x80 ≤ b.toNat ∧ b.toNat ≤ 0xBF := by
  simp [isTail, UInt8.le_iff_toNat_le]

/-- The bytes that may come second, with the four first bytes that allow fewer of them. -/
theorem isSecond_iff {b c : UInt8} : isSecond b c = true ↔
    0x80 ≤ c.toNat ∧ c.toNat ≤ 0xBF ∧ (b.toNat = 0xE0 → 0xA0 ≤ c.toNat) ∧
      (b.toNat = 0xED → c.toNat ≤ 0x9F) ∧ (b.toNat = 0xF0 → 0x90 ≤ c.toNat) ∧
      (b.toNat = 0xF4 → c.toNat ≤ 0x8F) := by
  have key (k : UInt8) : b = k ↔ b.toNat = k.toNat := UInt8.toNat_inj.symm
  simp only [isSecond, key, UInt8.reduceToNat]
  split
  · simp [UInt8.le_iff_toNat_le]; omega
  split
  · simp [UInt8.le_iff_toNat_le]; omega
  split
  · simp [UInt8.le_iff_toNat_le]; omega
  split
  · simp [UInt8.le_iff_toNat_le]; omega
  · rw [isTail_iff]; omega

/-- The number of a character with a number in range is that number. -/
theorem toNat_ofNat_of_valid {n : Nat} (h : n.isValidChar) : (Char.ofNat n).val.toNat = n := by
  rw [Char.ofNat, dif_pos h]
  rfl

theorem ofNat_eq {c : Char} {n : Nat} (h : n = c.toNat) : Char.ofNat n = c := by
  rw [h, Char.ofNat_toNat]

/-! ## 2. The shapes of a character

One character in bytes. The relation has one constructor for each length, with the conditions under
which the bytes are read, and the character is computed from them as the reader does it. -/

/-- `b` and the first `n` bytes of `r` are the character `ch`. -/
inductive Shape (b : UInt8) (r : Bytes) : Char → Nat → Prop
  | one (h : b.toNat < 0x80) : Shape b r (Char.ofNat b.toNat) 0
  | two (c : UInt8) (t : Bytes) (hr : r = c :: t) (hb : 0xC2 ≤ b.toNat) (hb' : b.toNat < 0xE0)
      (hc : isTail c = true) : Shape b r (Char.ofNat (b.toNat % 32 * 64 + low c)) 1
  | three (c d : UInt8) (t : Bytes) (hr : r = c :: d :: t) (hb : 0xE0 ≤ b.toNat)
      (hb' : b.toNat < 0xF0) (hc : isSecond b c = true) (hd : isTail d = true) :
      Shape b r (Char.ofNat (b.toNat % 16 * 4096 + low c * 64 + low d)) 2
  | four (c d e : UInt8) (t : Bytes) (hr : r = c :: d :: e :: t) (hb : 0xF0 ≤ b.toNat)
      (hb' : b.toNat < 0xF5) (hc : isSecond b c = true) (hd : isTail d = true)
      (he : isTail e = true) :
      Shape b r (Char.ofNat (b.toNat % 8 * 262144 + low c * 4096 + low d * 64 + low e)) 3

/-- A character is read only where one of the shapes stands. -/
theorem shape_of_piece {b : UInt8} {r : Bytes} {ch : Char} {n : Nat}
    (h : piece b r = (some ch, n)) : Shape b r ch n := by
  revert h
  fun_cases piece b r <;> intro h <;>
    simp only [Prod.mk.injEq, reduceCtorEq, false_and, Option.some.injEq] at h
  -- the branches that give a character, one for each length
  all_goals obtain ⟨rfl, rfl⟩ := h
  all_goals simp [UInt8.lt_iff_toNat_lt, UInt8.le_iff_toNat_le] at *
  · exact .one (by assumption)
  · exact .two _ _ rfl (by omega) (by omega) (by assumption)
  · exact .three _ _ _ rfl (by omega) (by omega) (by assumption) (by assumption)
  · exact .four _ _ _ _ rfl (by omega) (by omega) (by assumption) (by assumption) (by assumption)

/-- Each shape is read as its character. -/
theorem piece_of_shape {b : UInt8} {r : Bytes} {ch : Char} {n : Nat} (h : Shape b r ch n) :
    piece b r = (some ch, n) := by
  have lt (k : UInt8) : b < k ↔ b.toNat < k.toNat := UInt8.lt_iff_toNat_lt
  have le (k : UInt8) : k ≤ b ↔ k.toNat ≤ b.toNat := UInt8.le_iff_toNat_le
  unfold piece
  simp only [lt, le, Bool.or_eq_true, decide_eq_true_eq, UInt8.reduceToNat]
  cases h with
  | one h => rw [if_pos h]
  | two c t hr hb hb' hc =>
    subst hr
    rw [if_neg (by omega), if_neg (by omega), if_pos hb']
    simp only [hc, if_true]
  | three c d t hr hb hb' hc hd =>
    subst hr
    rw [if_neg (by omega), if_neg (by omega), if_neg (by omega), if_pos hb']
    simp only [hc, hd, if_true]
  | four c d e t hr hb hb' hc hd he =>
    subst hr
    rw [if_neg (by omega), if_neg (by omega), if_neg (by omega), if_neg (by omega)]
    simp only [hc, hd, he, if_true]

/-- What is written for a character is one of the shapes, whatever follows. -/
theorem exists_shape (c : Char) (r : Bytes) :
    ∃ b t, String.utf8EncodeChar c = b :: t ∧ Shape b (t ++ r) c t.length := by
  have hv : c.toNat.isValidChar := c.valid
  simp only [Nat.isValidChar] at hv
  have hn : c.val.toNat = c.toNat := rfl
  simp only [String.utf8EncodeChar, hn]
  -- one case for each length; the parts of the number make up the number again
  split
  · next h =>
    refine ⟨_, _, rfl, ?_⟩
    have hb : (UInt8.ofNat c.toNat).toNat = c.toNat := by simp; omega
    have hs := Shape.one (b := UInt8.ofNat c.toNat) (r := [] ++ r) (by omega)
    rwa [hb, Char.ofNat_toNat] at hs
  split
  · next h =>
    refine ⟨_, _, rfl, ?_⟩
    have hs := Shape.two (b := UInt8.ofNat (c.toNat / 64 % 0x20 + 0xc0))
      (UInt8.ofNat (c.toNat % 0x40 + 0x80)) r rfl (by simp; omega) (by simp; omega)
      (isTail_iff.mpr (by simp; omega))
    rwa [ofNat_eq (c := c) (by simp [low]; omega)] at hs
  split
  · next h =>
    refine ⟨_, _, rfl, ?_⟩
    have hs := Shape.three (b := UInt8.ofNat (c.toNat / 4096 % 0x10 + 0xe0))
      (UInt8.ofNat (c.toNat / 64 % 0x40 + 0x80)) (UInt8.ofNat (c.toNat % 0x40 + 0x80)) r rfl
      (by simp; omega) (by simp; omega) (isSecond_iff.mpr (by simp; omega))
      (isTail_iff.mpr (by simp; omega))
    rwa [ofNat_eq (c := c) (by simp [low]; omega)] at hs
  · refine ⟨_, _, rfl, ?_⟩
    have hs := Shape.four (b := UInt8.ofNat (c.toNat / 262144 % 0x08 + 0xf0))
      (UInt8.ofNat (c.toNat / 4096 % 0x40 + 0x80)) (UInt8.ofNat (c.toNat / 64 % 0x40 + 0x80))
      (UInt8.ofNat (c.toNat % 0x40 + 0x80)) r rfl (by simp; omega) (by simp; omega)
      (isSecond_iff.mpr (by simp; omega)) (isTail_iff.mpr (by simp; omega))
      (isTail_iff.mpr (by simp; omega))
    rwa [ofNat_eq (c := c) (by simp [low]; omega)] at hs

/-- The bytes of a shape are what is written for its character. -/
theorem encodeChar_of_shape {b : UInt8} {r : Bytes} {ch : Char} {n : Nat} (h : Shape b r ch n) :
    String.utf8EncodeChar ch = b :: r.take n := by
  have eq (m : Nat) (a : UInt8) : UInt8.ofNat m = a ↔ m % 256 = a.toNat := by
    rw [← UInt8.toNat_inj, UInt8.toNat_ofNat']
  cases h with
  | one h =>
    rw [String.utf8EncodeChar, toNat_ofNat_of_valid (.inl (by omega)), if_pos (by omega)]
    simp
  | two c t hr hb hb' hc =>
    subst hr
    rw [isTail_iff] at hc
    have hl : low c = c.toNat % 64 := rfl
    rw [String.utf8EncodeChar, toNat_ofNat_of_valid (.inl (by omega)), if_neg (by omega),
      if_pos (by omega)]
    simp only [List.take_succ_cons, List.take_zero, List.cons.injEq, eq, and_true]
    omega
  -- the range of the second byte keeps surrogates and overlong forms out
  | three c d t hr hb hb' hc hd =>
    subst hr
    rw [isSecond_iff] at hc
    rw [isTail_iff] at hd
    have hl : low c = c.toNat % 64 := rfl
    have hl' : low d = d.toNat % 64 := rfl
    rw [String.utf8EncodeChar, toNat_ofNat_of_valid (by simp only [Nat.isValidChar]; omega),
      if_neg (by omega), if_neg (by omega), if_pos (by omega)]
    simp only [List.take_succ_cons, List.take_zero, List.cons.injEq, eq, and_true]
    omega
  | four c d e t hr hb hb' hc hd he =>
    subst hr
    rw [isSecond_iff] at hc
    rw [isTail_iff] at hd he
    have hl : low c = c.toNat % 64 := rfl
    have hl' : low d = d.toNat % 64 := rfl
    have hl'' : low e = e.toNat % 64 := rfl
    rw [String.utf8EncodeChar, toNat_ofNat_of_valid (by simp only [Nat.isValidChar]; omega),
      if_neg (by omega), if_neg (by omega), if_neg (by omega)]
    simp only [List.take_succ_cons, List.take_zero, List.cons.injEq, eq, and_true]
    omega

/-- To pass over bytes is to leave them out. -/
theorem scanFrom_eq_drop (n : Nat) (b : Bytes) : scanFrom n b = scanFrom 0 (b.drop n) := by
  induction n generalizing b with
  | zero => rfl
  | succ n ih =>
    cases b with
    | nil => rfl
    | cons a r => rw [scanFrom, ih, List.drop_succ_cons]

/-- The cut takes a written character off the front. -/
theorem scanFrom_encodeChar (c : Char) (r : Bytes) :
    scanFrom 0 (String.utf8EncodeChar c ++ r) = some c :: scanFrom 0 r := by
  obtain ⟨b, t, he, hs⟩ := exists_shape c r
  rw [he, List.cons_append, scanFrom, piece_of_shape hs, scanFrom_eq_drop, List.drop_left]

/-- A character below U+0080 is one byte; any other has a first byte that begins no shorter
form, and bytes after it that begin nothing. -/
theorem encodeChar_cases (c : Char) :
    (c.toNat < 0x80 ∧ String.utf8EncodeChar c = [UInt8.ofNat c.toNat]) ∨
      (0x80 ≤ c.toNat ∧ ∃ b t, String.utf8EncodeChar c = b :: t ∧ 0xC2 ≤ b.toNat ∧
        ∀ a ∈ t, isTail a = true) := by
  have hv : c.toNat.isValidChar := c.valid
  simp only [Nat.isValidChar] at hv
  have hn : c.val.toNat = c.toNat := rfl
  have ht (n : Nat) : isTail (UInt8.ofNat (n % 0x40 + 0x80)) = true :=
    isTail_iff.mpr (by simp; omega)
  simp only [String.utf8EncodeChar, hn]
  split
  · next h => exact .inl ⟨by omega, rfl⟩
  split
  · exact .inr ⟨by omega, _, _, rfl, by simp; omega, by simp only [List.forall_mem_cons, ht,
      List.not_mem_nil, false_implies, implies_true, and_self]⟩
  split
  · exact .inr ⟨by omega, _, _, rfl, by simp; omega, by simp only [List.forall_mem_cons, ht,
      List.not_mem_nil, false_implies, implies_true, and_self]⟩
  · exact .inr ⟨by omega, _, _, rfl, by simp; omega, by simp only [List.forall_mem_cons, ht,
      List.not_mem_nil, false_implies, implies_true, and_self]⟩

/-- No character is the beginning of another. -/
theorem encodeChar_append_inj {c d : Char} {r s : Bytes}
    (h : String.utf8EncodeChar c ++ r = String.utf8EncodeChar d ++ s) : c = d ∧ r = s := by
  have hs : scanFrom 0 (String.utf8EncodeChar c ++ r)
      = scanFrom 0 (String.utf8EncodeChar d ++ s) := by rw [h]
  rw [scanFrom_encodeChar, scanFrom_encodeChar] at hs
  have hc : c = d := Option.some.inj (List.cons.inj hs).1
  subst hc
  exact ⟨rfl, List.append_cancel_left h⟩

/-! ## 3. Whole texts

From one character to all of them. Reading what was written is an induction over the characters. In
the other direction it is one over the bytes, a piece at a time. -/

/-- A written text is cut into its characters. -/
theorem scan_encode (s : List Char) : scan (encode s) = s.map some := by
  induction s with
  | nil => rfl
  | cons c s ih =>
    rw [scan, encode, List.flatMap_cons, scanFrom_encodeChar, List.map_cons]
    exact congrArg (some c :: ·) ih

/-- Pieces that are all characters are a text. -/
theorem allSome_map_some (s : List Char) : allSome (s.map some) = some s := by
  induction s with
  | nil => rfl
  | cons c s ih => rw [List.map_cons, allSome, ih, Option.map_some]

theorem decode?_encode (s : List Char) : decode? (encode s) = some s := by
  rw [decode?, scan_encode, allSome_map_some]

theorem encode_inj {s t : List Char} (h : encode s = encode t) : s = t := by
  have hdecode := congrArg decode? h
  rw [decode?_encode, decode?_encode] at hdecode
  exact Option.some.inj hdecode

/-- Characters that are cut off one after the other have these bytes. The induction is on the
number of bytes, because a piece takes up to four of them. -/
theorem eq_encode_of_allSome {b : Bytes} {s : List Char}
    (h : allSome (scanFrom 0 b) = some s) : b = encode s := by
  induction hn : b.length using Nat.strongRecOn generalizing b s with
  | _ n ih =>
    cases b with
    | nil =>
      cases h
      rfl
    | cons a r =>
      unfold scanFrom at h
      rcases hp : piece a r with ⟨ch, k⟩
      rw [hp] at h
      cases ch with
      | none => cases h
      | some ch =>
        rw [allSome, Option.map_eq_some_iff] at h
        obtain ⟨s', hs', rfl⟩ := h
        -- the piece is the bytes of its character, and what is left is shorter
        have he := encodeChar_of_shape (shape_of_piece hp)
        rw [scanFrom_eq_drop] at hs'
        rw [List.length_cons] at hn
        have hlen : (r.drop k).length < n := by
          rw [List.length_drop]
          omega
        have hr := ih _ hlen hs' rfl
        calc a :: r = (a :: r.take k) ++ r.drop k := by
              rw [List.cons_append, List.take_append_drop]
          _ = String.utf8EncodeChar ch ++ encode s' := by rw [← he, ← hr]
          _ = encode (ch :: s') := rfl

/-- Bytes that are read as a text are the bytes of that text. -/
theorem eq_encode_of_decode? {b : Bytes} {s : List Char} (h : decode? b = some s) :
    b = encode s := eq_encode_of_allSome h

/-- **Texts and bytes.** Bytes are read as a text exactly when they are what is written for it. -/
theorem decode?_eq_some_iff {b : Bytes} {s : List Char} : decode? b = some s ↔ b = encode s :=
  ⟨eq_encode_of_decode?, fun h => h ▸ decode?_encode s⟩

/-- The same for strings. -/
theorem string?_eq_some_iff {b : Bytes} {s : String} : string? b = some s ↔ b = bytes s := by
  rw [string?, Option.map_eq_some_iff]
  constructor
  · rintro ⟨cs, hcs, rfl⟩
    rw [bytes, String.toList_ofList]
    exact eq_encode_of_decode? hcs
  · rintro rfl
    exact ⟨s.toList, decode?_encode _, String.ofList_toList⟩

/-- The bytes that a string is made of are the bytes of its text. -/
theorem bytes_eq (s : String) : bytes s = s.toByteArray.data.toList := by
  rw [← String.utf8Encode_toList, List.utf8Encode, List.data_toByteArray, bytes, encode]

/-- The characters of a string, read from its bytes. The right side can be evaluated for a string
of many characters. -/
theorem toList_eq (s : String) : s.toList = (decode? s.toByteArray.data.toList).getD [] := by
  rw [← bytes_eq, bytes, decode?_encode, Option.getD_some]

end UpgradeScan.Text.Utf8
