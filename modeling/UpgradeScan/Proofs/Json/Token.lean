/-
`Proofs/Json/Token.lean` -- the token readers take exactly the tokens of the grammar.

Each reader gives what is left of the document, so each fact has the form "the reader gives `r`
exactly when a token stands in front of `r`". Both directions are used: what was read tells which
bytes stood there, and bytes that are known to stand there are read.

Strings are where the work is. The reader goes through the bytes between the quotes once, resolves
the escapes to bytes, and decodes the whole at the end. The grammar goes through characters: each is
written as it is, by its bytes in UTF-8, or as an escape. `Written` is the relation that the first
step of the reader computes, from the bytes that stand there to the bytes they stand for. It meets
the grammar because an escape always stands for a whole character, so that no character is put
together from the bytes of two escapes, nor from an escape and bytes that stand as they are
(`Written.tails`).

An escape takes several bytes, so the inductions on what is read are on the number of bytes and not
on the list. A string that is passed over is read by a second function, which resolves nothing and
decodes nothing; it accepts more, and what it accepts is the form of a string.
-/
import UpgradeScan.Proofs.Json.Grammar
import UpgradeScan.Proofs.Text.Utf8
import Mathlib.Data.List.TakeWhile

set_option autoImplicit false

namespace UpgradeScan.JsonText

open UpgradeScan.Text

/-! ## 1. Blanks and words

Blanks may stand before every token, and the readers skip them first. -/

theorem blanks_nil : Blanks [] := by
  intro b hb
  cases hb

/-- Blanks after blanks are blanks. -/
theorem Blanks.append {w w' : Bytes} (h : Blanks w) (h' : Blanks w') : Blanks (w ++ w') := by
  intro b hb
  rcases List.mem_append.mp hb with hb | hb
  · exact h b hb
  · exact h' b hb

/-- What is left after blanks does not begin with one. -/
theorem skipSpace_append {w : Bytes} (s : Bytes) (h : Blanks w) :
    skipSpace (w ++ s) = skipSpace s := by
  induction w with
  | nil => rfl
  | cons b w ih =>
    have hb : isSpace b = true := h b List.mem_cons_self
    have hw : Blanks w := fun a ha => h a (List.mem_cons_of_mem _ ha)
    rw [skipSpace, List.cons_append, List.dropWhile_cons_of_pos hb]
    exact ih hw

theorem skipSpace_cons {b : UInt8} (s : Bytes) (h : isSpace b = false) :
    skipSpace (b :: s) = b :: s := by
  rw [skipSpace, List.dropWhile_cons_of_neg (by rw [h]; decide)]

/-- Before what is left stand blanks only. -/
theorem exists_blanks (s : Bytes) : ∃ w, Blanks w ∧ s = w ++ skipSpace s := by
  refine ⟨s.takeWhile isSpace, ?_, (List.takeWhile_append_dropWhile).symm⟩
  intro b hb
  exact List.mem_takeWhile_imp hb

theorem skipSpace_eq_nil_iff {s : Bytes} : skipSpace s = [] ↔ Blanks s := by
  rw [skipSpace, List.dropWhile_eq_nil_iff]
  rfl

/-- Where a byte is found after blanks. -/
theorem exists_of_skipSpace {s r : Bytes} {b : UInt8} (h : skipSpace s = b :: r) :
    ∃ w, Blanks w ∧ s = w ++ b :: r := by
  obtain ⟨w, hw, hs⟩ := exists_blanks s
  exact ⟨w, hw, by rw [hs, h]⟩

theorem ne_of_isDigit {a b : UInt8} (ha : isDigit a = true) (hb : isDigit b = false) : a ≠ b := by
  rintro rfl
  rw [ha] at hb
  cases hb

/-- No digit is a blank. -/
theorem isSpace_of_isDigit {b : UInt8} (h : isDigit b = true) : isSpace b = false := by
  cases hs : isSpace b with
  | false => rfl
  | true =>
    simp only [isSpace, Bool.or_eq_true, beq_iff_eq] at hs
    rcases hs with ((rfl | rfl) | rfl) | rfl <;> exact absurd h (by decide)

/-- A word is read when it stands there. -/
theorem word?_eq_some_iff {w s r : Bytes} : word? w s = some r ↔ s = w ++ r := by
  induction w generalizing s with
  | nil => simp [word?]
  | cons a w ih =>
    cases s with
    | nil => simp [word?]
    | cons b s =>
      by_cases h : a = b
      · simp [word?, h, ih]
      · simp [word?, h, Ne.symm h]

/-! ## 2. Escapes

An escape is a letter of the table or a unit of four digits, and two units may make up one
character. -/

/-- Four digits are read as the number that they spell. -/
theorem hex4?_eq_some_iff {s : Bytes} {n : Nat} :
    hex4? s = some n ↔ ∃ u r, Hex4 u n ∧ s = u ++ r := by
  constructor
  · intro h
    rw [hex4?.eq_def] at h
    split at h
    · next a b c d r =>
      split at h
      · next i j k l ha hb hc hd =>
        obtain rfl := Option.some.inj h
        exact ⟨[a, b, c, d], r, ⟨a, b, c, d, i, j, k, l, rfl, ha, hb, hc, hd, rfl⟩, rfl⟩
      · cases h
    · cases h
  · rintro ⟨u, r, ⟨a, b, c, d, i, j, k, l, rfl, ha, hb, hc, hd, rfl⟩, rfl⟩
    simp [hex4?, ha, hb, hc, hd]

theorem Hex4.length {u : Bytes} {n : Nat} (h : Hex4 u n) : u.length = 4 := by
  obtain ⟨a, b, c, d, i, j, k, l, rfl, -⟩ := h
  rfl

/-- A digit is worth less than sixteen. -/
theorem hexValue?_lt {b : UInt8} {n : Nat} (h : hexValue? b = some n) : n < 16 := by
  simp only [hexValue?, Bool.and_eq_true, decide_eq_true_eq, UInt8.le_iff_toNat_le,
    UInt8.reduceToNat] at h
  split at h
  · obtain rfl := Option.some.inj h; omega
  split at h
  · obtain rfl := Option.some.inj h; omega
  split at h
  · obtain rfl := Option.some.inj h; omega
  · cases h

/-- A unit has sixteen bits. -/
theorem Hex4.lt {u : Bytes} {n : Nat} (h : Hex4 u n) : n < 0x10000 := by
  obtain ⟨a, b, c, d, i, j, k, l, rfl, ha, hb, hc, hd, rfl⟩ := h
  have := hexValue?_lt ha
  have := hexValue?_lt hb
  have := hexValue?_lt hc
  have := hexValue?_lt hd
  omega

/-- A letter of the table is read as its character. -/
theorem shortEscape?_of_mem {e : UInt8} {c : Char} (h : (e, c) ∈ shortEscapes) :
    ∃ b, shortEscape? e = some b ∧ String.utf8EncodeChar c = [b] := by
  simp only [shortEscapes, List.mem_cons, Prod.mk.injEq, List.not_mem_nil, or_false] at h
  rcases h with ⟨rfl, rfl⟩ | ⟨rfl, rfl⟩ | ⟨rfl, rfl⟩ | ⟨rfl, rfl⟩ | ⟨rfl, rfl⟩ | ⟨rfl, rfl⟩ |
    ⟨rfl, rfl⟩ | ⟨rfl, rfl⟩
  all_goals exact ⟨_, rfl, by decide⟩

/-- A letter that is read is one of the table. -/
theorem mem_of_shortEscape? {e b : UInt8} (h : shortEscape? e = some b) :
    ∃ c, (e, c) ∈ shortEscapes ∧ String.utf8EncodeChar c = [b] := by
  simp only [shortEscape?, Bool.or_eq_true, decide_eq_true_eq] at h
  split at h
  · next he =>
    obtain rfl := Option.some.inj h
    rcases he with (rfl | rfl) | rfl
    · exact ⟨'"', by decide, by decide⟩
    · exact ⟨'\\', by decide, by decide⟩
    · exact ⟨'/', by decide, by decide⟩
  split at h
  · next he => subst he; obtain rfl := Option.some.inj h; exact ⟨'\x08', by decide, by decide⟩
  split at h
  · next he => subst he; obtain rfl := Option.some.inj h; exact ⟨'\x0C', by decide, by decide⟩
  split at h
  · next he => subst he; obtain rfl := Option.some.inj h; exact ⟨'\n', by decide, by decide⟩
  split at h
  · next he => subst he; obtain rfl := Option.some.inj h; exact ⟨'\r', by decide, by decide⟩
  split at h
  · next he => subst he; obtain rfl := Option.some.inj h; exact ⟨'\t', by decide, by decide⟩
  · cases h

/-- The letter of a surrogate or of any other unit is none of the table. -/
theorem shortEscape_ne {e : UInt8} {c : Char} (h : (e, c) ∈ shortEscapes) : e ≠ 0x75 := by
  rintro rfl
  obtain ⟨b, hb, -⟩ := shortEscape?_of_mem h
  have h0 : shortEscape? 0x75 = none := by decide
  rw [h0] at hb
  cases hb

/-- An escape is read as the bytes of its character. -/
theorem escape?_complete {e : Bytes} {c : Char} (h : Escape e c) (t : Bytes) :
    escape? (e ++ t) = some (String.utf8EncodeChar c, e.length) := by
  cases h with
  | @short e c h =>
    obtain ⟨b, hb, hc⟩ := shortEscape?_of_mem h
    rw [List.singleton_append, escape?, if_neg (shortEscape_ne h), hb, hc]
    rfl
  | @unit u n hu hn =>
    have h4 : hex4? (u ++ t) = some n := hex4?_eq_some_iff.mpr ⟨u, t, hu, rfl⟩
    -- the unit is no half of a pair, so both tests on halves fail
    have h1 : ¬ (0xDC00 ≤ n && n ≤ 0xDFFF) = true := by
      simp only [Bool.and_eq_true, decide_eq_true_eq]; omega
    have h2 : ¬ (0xD800 ≤ n && n ≤ 0xDBFF) = true := by
      simp only [Bool.and_eq_true, decide_eq_true_eq]; omega
    rw [List.cons_append, escape?, if_pos rfl]
    simp only [h4]
    rw [if_neg h1, if_neg h2, List.length_cons, hu.length]
  | @pair u v n m hu hn hv hm =>
    have h4 : hex4? (u ++ (0x5C :: 0x75 :: (v ++ t))) = some n :=
      hex4?_eq_some_iff.mpr ⟨u, _, hu, rfl⟩
    have h4' : hex4? (v ++ t) = some m := hex4?_eq_some_iff.mpr ⟨v, t, hv, rfl⟩
    have hd : (u ++ (0x5C :: 0x75 :: (v ++ t))).drop 4 = 0x5C :: 0x75 :: (v ++ t) := by
      rw [← hu.length, List.drop_left]
    -- `n` is a first half and `m` a second one
    have h1 : ¬ (0xDC00 ≤ n && n ≤ 0xDFFF) = true := by
      simp only [Bool.and_eq_true, decide_eq_true_eq]; omega
    have h2 : (0xD800 ≤ n && n ≤ 0xDBFF) = true := by
      simp only [Bool.and_eq_true, decide_eq_true_eq]; omega
    have h3 : (0xDC00 ≤ m && m ≤ 0xDFFF) = true := by
      simp only [Bool.and_eq_true, decide_eq_true_eq]; omega
    have hl : (0x75 :: (u ++ 0x5C :: 0x75 :: v)).length = 11 := by
      simp only [List.length_cons, List.length_append, hu.length, hv.length]
    have ha : 0x75 :: (u ++ 0x5C :: 0x75 :: v) ++ t
        = 0x75 :: (u ++ (0x5C :: 0x75 :: (v ++ t))) := by simp
    rw [hl, ha, escape?, if_pos rfl]
    simp only [h4]
    rw [if_neg h1, if_pos h2, hd]
    simp only [h4', h3, if_true]

/-- What was read as an escape is one. -/
theorem escape?_sound {r out : Bytes} {k : Nat} (h : escape? r = some (out, k)) :
    ∃ e c t, Escape e c ∧ r = e ++ t ∧ out = String.utf8EncodeChar c ∧ k = e.length := by
  cases r with
  | nil => cases h
  | cons a r =>
    rw [escape?] at h
    split at h
    · next ha =>
      subst ha
      split at h
      · cases h
      · next n hn =>
        obtain ⟨u, t, hu, rfl⟩ := hex4?_eq_some_iff.mp hn
        have hlt := hu.lt
        simp only [Bool.and_eq_true, decide_eq_true_eq] at h
        split at h
        -- a second half may not come first
        · cases h
        · next h1 =>
          split at h
          -- a first half is read only with the second half that follows it
          · next h2 =>
            have hd : (u ++ t).drop 4 = t := by rw [← hu.length, List.drop_left]
            rw [hd] at h
            split at h
            · next t' =>
              split at h
              · next m hm =>
                obtain ⟨v, t'', hv, rfl⟩ := hex4?_eq_some_iff.mp hm
                split at h
                · next h3 =>
                  obtain ⟨rfl, rfl⟩ := Prod.mk.inj (Option.some.inj h)
                  exact ⟨_, _, t'', .pair hu h2 hv h3, by simp, rfl,
                    by simp [hu.length, hv.length]⟩
                · cases h
              · cases h
            · cases h
          · next h2 =>
            obtain ⟨rfl, rfl⟩ := Prod.mk.inj (Option.some.inj h)
            exact ⟨_, _, t, .unit hu (by omega), rfl, rfl, by simp [hu.length]⟩
    · rw [Option.map_eq_some_iff] at h
      obtain ⟨b, hb, hk⟩ := h
      obtain ⟨rfl, rfl⟩ := Prod.mk.inj hk
      obtain ⟨c, hc, hbc⟩ := mem_of_shortEscape? hb
      exact ⟨[a], c, r, .short hc, rfl, hbc.symm, rfl⟩

/-- An escape that is passed over has the form of one. A surrogate by itself has that form. -/
theorem escapeLength?_eq_some_iff {r : Bytes} {k : Nat} :
    escapeLength? r = some k ↔ ∃ e t, EscapeForm e ∧ r = e ++ t ∧ k = e.length := by
  constructor
  · intro h
    cases r with
    | nil => cases h
    | cons a r =>
      rw [escapeLength?] at h
      split at h
      · next ha =>
        subst ha
        obtain ⟨n, hn, rfl⟩ := Option.map_eq_some_iff.mp h
        obtain ⟨u, t, hu, rfl⟩ := hex4?_eq_some_iff.mp hn
        exact ⟨_, t, .unit hu, rfl, by simp [hu.length]⟩
      · obtain ⟨b, hb, rfl⟩ := Option.map_eq_some_iff.mp h
        obtain ⟨c, hc, -⟩ := mem_of_shortEscape? hb
        exact ⟨[a], r, .short hc, rfl, rfl⟩
  · rintro ⟨e, t, he, rfl, rfl⟩
    cases he with
    | @short e c h =>
      obtain ⟨b, hb, -⟩ := shortEscape?_of_mem h
      rw [List.singleton_append, escapeLength?, if_neg (shortEscape_ne h), hb]
      rfl
    | @unit u n hu =>
      have h4 : hex4? (u ++ t) = some n := hex4?_eq_some_iff.mpr ⟨u, t, hu, rfl⟩
      rw [List.cons_append, escapeLength?, if_pos rfl, h4, List.length_cons, hu.length]
      rfl

/-! ## 3. Strings

First from bytes to bytes, in both directions, then from bytes to the characters they are the
encoding of. -/

/-- What stands between quotes and the bytes it stands for. -/
inductive Written : Bytes → Bytes → Prop
  | nil : Written [] []
  | plain {b : UInt8} {t u : Bytes} (hb : IsPlainByte b) (h : Written t u) :
      Written (b :: t) (b :: u)
  | escape {e t u : Bytes} {c : Char} (he : Escape e c) (h : Written t u) :
      Written (0x5C :: (e ++ t)) (String.utf8EncodeChar c ++ u)

/-- Bytes that belong to an escape are left out before the reading goes on. -/
theorem content_eq_drop (n : Nat) (s : Bytes) : content n s = content 0 (s.drop n) := by
  induction n generalizing s with
  | zero => rfl
  | succ n ih =>
    cases s with
    | nil => rfl
    | cons a r => rw [content, ih, List.drop_succ_cons]

/-- What is written between quotes is read, up to the closing quote. -/
theorem content_complete {t u : Bytes} (h : Written t u) (r : Bytes) :
    content 0 (t ++ 0x22 :: r) = some (u, r) := by
  induction h with
  | nil => rfl
  | plain hb h ih =>
    obtain ⟨h1, h2, h3⟩ := hb
    rw [List.cons_append, content, if_neg h2, if_neg h3, if_neg h1, ih]
    rfl
  | @escape e t u c he h ih =>
    have ha : 0x5C :: (e ++ t) ++ 0x22 :: r = 0x5C :: (e ++ (t ++ 0x22 :: r)) := by simp
    rw [ha, content, if_neg (by decide), if_pos rfl, escape?_complete he]
    simp only
    rw [content_eq_drop, List.drop_left, ih]
    rfl

/-- The induction is on the number of bytes, because an escape takes several of them. -/
theorem content_sound {s u r : Bytes} (h : content 0 s = some (u, r)) :
    ∃ t, Written t u ∧ s = t ++ 0x22 :: r := by
  induction hn : s.length using Nat.strongRecOn generalizing s u with
  | _ n ih =>
    cases s with
    | nil => cases h
    | cons b s =>
      rw [List.length_cons] at hn
      unfold content at h
      split at h
      -- the closing quote
      · next hb =>
        obtain ⟨rfl, rfl⟩ := Prod.mk.inj (Option.some.inj h)
        exact ⟨[], .nil, by rw [hb]; rfl⟩
      · next hq =>
        split at h
        -- an escape, after which fewer bytes are left
        · next hb =>
          subst hb
          split at h
          · cases h
          · next out k he =>
            obtain ⟨e, c, t, hec, rfl, rfl, rfl⟩ := escape?_sound he
            obtain ⟨⟨u', r'⟩, hc, hu⟩ := Option.map_eq_some_iff.mp h
            obtain ⟨rfl, rfl⟩ := Prod.mk.inj hu
            rw [content_eq_drop, List.drop_left] at hc
            rw [List.length_append] at hn
            have hlen : t.length < n := by omega
            obtain ⟨t', ht', rfl⟩ := ih t.length hlen hc rfl
            exact ⟨_, .escape hec ht', by simp⟩
        -- a plain byte: control bytes were refused
        · next hs' =>
          split at h
          · cases h
          · next hlt =>
            obtain ⟨⟨u', r'⟩, hc, hu⟩ := Option.map_eq_some_iff.mp h
            obtain ⟨rfl, rfl⟩ := Prod.mk.inj hu
            have hlen : s.length < n := by omega
            obtain ⟨t', ht', rfl⟩ := ih s.length hlen hc rfl
            exact ⟨_, .plain ⟨hlt, hq, hs'⟩ ht', rfl⟩

/-- Bytes that may stand as they are, by their values. -/
theorem isPlainByte_iff {b : UInt8} :
    IsPlainByte b ↔ 0x20 ≤ b.toNat ∧ b.toNat ≠ 0x22 ∧ b.toNat ≠ 0x5C := by
  have eq (k : UInt8) : b = k ↔ b.toNat = k.toNat := UInt8.toNat_inj.symm
  simp only [IsPlainByte, eq, ne_eq, UInt8.lt_iff_toNat_lt, UInt8.reduceToNat]
  omega

/-- Characters that may stand as they are, by their code points. -/
theorem isPlain_iff {c : Char} :
    IsPlain c ↔ 0x20 ≤ c.toNat ∧ c.toNat ≠ 0x22 ∧ c.toNat ≠ 0x5C := by
  have eq (k : Char) : c = k ↔ c.toNat = k.toNat :=
    ⟨fun h => h ▸ rfl, fun h => Char.ext (UInt32.toNat_inj.mp h)⟩
  simp only [IsPlain, eq, ne_eq]
  rfl

/-- The bytes of a plain character are plain. -/
theorem IsPlain.bytes {c : Char} (h : IsPlain c) :
    ∀ b ∈ String.utf8EncodeChar c, IsPlainByte b := by
  rw [isPlain_iff] at h
  rcases Utf8.encodeChar_cases c with ⟨hc, he⟩ | ⟨hc, b, t, he, hb, ht⟩
  -- one byte with the number of the character, or bytes that are all above ASCII
  · intro b hb
    rw [he, List.mem_singleton] at hb
    subst hb
    rw [isPlainByte_iff, UInt8.toNat_ofNat']
    omega
  · intro a ha
    rw [he, List.mem_cons] at ha
    rw [isPlainByte_iff]
    rcases ha with rfl | ha
    · omega
    · have := Utf8.isTail_iff.mp (ht a ha)
      omega

/-- Plain bytes stand for themselves. -/
theorem Written.plains {p t u : Bytes} (hp : ∀ b ∈ p, IsPlainByte b) (h : Written t u) :
    Written (p ++ t) (p ++ u) := by
  induction p with
  | nil => exact h
  | cons b p ih =>
    exact .plain (hp b List.mem_cons_self) (ih fun a ha => hp a (List.mem_cons_of_mem _ ha))

/-- Bytes from the middle of a character were written as they are. -/
theorem Written.tails {p t u : Bytes} (hp : ∀ b ∈ p, Utf8.isTail b = true)
    (h : Written t (p ++ u)) : ∃ t', t = p ++ t' ∧ Written t' u := by
  induction p generalizing t with
  | nil => exact ⟨t, rfl, h⟩
  | cons b p ih =>
    have hb := Utf8.isTail_iff.mp (hp b List.mem_cons_self)
    have hp' : ∀ a ∈ p, Utf8.isTail a = true := fun a ha => hp a (List.mem_cons_of_mem _ ha)
    generalize hu : b :: p ++ u = x at h
    cases h with
    | nil => cases hu
    | plain hb' h =>
      obtain ⟨rfl, rfl⟩ := List.cons.inj hu
      obtain ⟨t', rfl, ht'⟩ := ih hp' h
      exact ⟨t', rfl, ht'⟩
    | @escape e t u' c he h =>
      -- an escape stands for a whole character, which does not begin in its middle
      exfalso
      rcases Utf8.encodeChar_cases c with ⟨hc, hc'⟩ | ⟨-, a, s, hc, ha, -⟩
      · rw [hc'] at hu
        have h0 := (List.cons.inj hu).1
        rw [h0, UInt8.toNat_ofNat'] at hb
        omega
      · rw [hc] at hu
        have h0 := (List.cons.inj hu).1
        rw [h0] at hb
        omega

/-- What stands for a text is read as the bytes of that text. -/
theorem written_of_content {t : Bytes} {s : List Char} (h : Content t s) :
    Written t (Utf8.encode s) := by
  induction h with
  | nil => exact .nil
  | plain c hc h ih => exact Written.plains hc.bytes ih
  | escape he h ih => exact .escape he ih

/-- What is read as the bytes of a text stands for that text. The induction is on the text, and each
of its characters was either escaped or written as it is. -/
theorem content_of_written {t : Bytes} {s : List Char} (h : Written t (Utf8.encode s)) :
    Content t s := by
  induction s generalizing t with
  | nil =>
    generalize hu : Utf8.encode [] = u at h
    cases h with
    | nil => exact .nil
    | plain hb h => cases hu
    | @escape e t u c he h =>
      have hn : String.utf8EncodeChar c ++ u ≠ [] := by
        rcases Utf8.encodeChar_cases c with ⟨-, hc⟩ | ⟨-, a, s, hc, -⟩ <;> simp [hc]
      exact absurd hu.symm hn
  | cons c s ih =>
    have hcs : Utf8.encode (c :: s) = String.utf8EncodeChar c ++ Utf8.encode s := rfl
    rw [hcs] at h
    generalize hu : String.utf8EncodeChar c ++ Utf8.encode s = u at h
    cases h with
    | nil =>
      rcases Utf8.encodeChar_cases c with ⟨-, hc⟩ | ⟨-, a, r, hc, -⟩ <;> simp [hc] at hu
    | @plain b t u hb h =>
      rcases Utf8.encodeChar_cases c with ⟨hc, hc'⟩ | ⟨hc, a, r, hc', ha, hr⟩
      -- the plain byte is the whole character
      · rw [hc'] at hu
        obtain ⟨rfl, rfl⟩ := List.cons.inj hu
        have hp : IsPlain c := by
          rw [isPlainByte_iff, UInt8.toNat_ofNat'] at hb
          rw [isPlain_iff]
          omega
        have hpc := Content.plain c hp (ih h)
        rwa [hc'] at hpc
      -- the plain byte begins the character, and its other bytes were written plainly too
      · rw [hc'] at hu
        obtain ⟨rfl, rfl⟩ := List.cons.inj hu
        obtain ⟨t', rfl, ht'⟩ := Written.tails hr h
        have hp : IsPlain c := by rw [isPlain_iff]; omega
        have hpc := Content.plain c hp (ih ht')
        rwa [hc'] at hpc
    | @escape e t u c' he h =>
      -- no character's bytes begin another's, so the escape stands for `c` itself
      obtain ⟨rfl, rfl⟩ := Utf8.encodeChar_append_inj hu
      exact .escape he (ih h)

/-- **Strings.** What is read after an opening quote is the text that the content stands for. -/
theorem string_eq_some_iff {s r : Bytes} {v : String} :
    string s = some (v, r) ↔ ∃ t, Content t v.toList ∧ s = t ++ 0x22 :: r := by
  constructor
  · intro h
    unfold string at h
    split at h
    · cases h
    · next u t hc =>
      obtain ⟨v', hv, hr⟩ := Option.map_eq_some_iff.mp h
      obtain ⟨rfl, rfl⟩ := Prod.mk.inj hr
      obtain ⟨t', ht', rfl⟩ := content_sound hc
      rw [Utf8.string?_eq_some_iff.mp hv] at ht'
      exact ⟨t', content_of_written ht', rfl⟩
  · rintro ⟨t, ht, rfl⟩
    -- the text's own bytes decode to the text
    have hv : Utf8.string? (Utf8.encode v.toList) = some v := Utf8.string?_eq_some_iff.mpr rfl
    rw [string, content_complete (written_of_content ht)]
    simp only [hv, Option.map_some]

/-! ## 4. Strings that are passed over

The same for the reader that only looks for the closing quote. -/

/-- Bytes that belong to an escape are left out here too. -/
theorem skipContent_eq_drop (n : Nat) (s : Bytes) : skipContent n s = skipContent 0 (s.drop n) := by
  induction n generalizing s with
  | zero => rfl
  | succ n ih =>
    cases s with
    | nil => rfl
    | cons a r => rw [skipContent, ih, List.drop_succ_cons]

/-- What has the form of a string is passed over, up to the closing quote. -/
theorem skipContent_complete {t : Bytes} (h : ContentForm t) (r : Bytes) :
    skipContent 0 (t ++ 0x22 :: r) = some r := by
  induction h with
  | nil => rfl
  | plain hb h ih =>
    obtain ⟨h1, h2, h3⟩ := hb
    rw [List.cons_append, skipContent, if_neg h2, if_neg h3, if_neg h1, ih]
  | @escape e t he h ih =>
    have ha : 0x5C :: (e ++ t) ++ 0x22 :: r = 0x5C :: (e ++ (t ++ 0x22 :: r)) := by simp
    rw [ha, skipContent, if_neg (by decide), if_pos rfl,
      escapeLength?_eq_some_iff.mpr ⟨e, _, he, rfl, rfl⟩]
    simp only
    rw [skipContent_eq_drop, List.drop_left, ih]

/-- The induction is the one of `content_sound`. -/
theorem skipContent_sound {s r : Bytes} (h : skipContent 0 s = some r) :
    ∃ t, ContentForm t ∧ s = t ++ 0x22 :: r := by
  -- An escape takes several bytes at once, so the induction is on the length of what is left.
  induction hn : s.length using Nat.strongRecOn generalizing s with
  | _ n ih =>
    cases s with
    | nil => cases h
    | cons b s =>
      rw [List.length_cons] at hn
      unfold skipContent at h
      split at h
      · next hb =>
        obtain rfl := Option.some.inj h
        exact ⟨[], .nil, by rw [hb]; rfl⟩
      · next hq =>
        split at h
        · next hb =>
          subst hb
          split at h
          · cases h
          · next k he =>
            obtain ⟨e, t, hec, rfl, rfl⟩ := escapeLength?_eq_some_iff.mp he
            rw [skipContent_eq_drop, List.drop_left] at h
            rw [List.length_append] at hn
            have hlen : t.length < n := by omega
            obtain ⟨t', ht', rfl⟩ := ih t.length hlen h rfl
            exact ⟨_, .escape hec ht', by simp⟩
        · next hs' =>
          split at h
          · cases h
          · next hlt =>
            have hlen : s.length < n := by omega
            obtain ⟨t', ht', rfl⟩ := ih s.length hlen h rfl
            exact ⟨_, .plain ⟨hlt, hq, hs'⟩ ht', rfl⟩

/-- **Strings that are passed over.** -/
theorem skipContent_eq_some_iff {s r : Bytes} :
    skipContent 0 s = some r ↔ ∃ t, ContentForm t ∧ s = t ++ 0x22 :: r :=
  ⟨skipContent_sound, fun ⟨_, ht, hs⟩ => hs ▸ skipContent_complete ht r⟩

/-- Plain bytes have the form of a string. -/
theorem ContentForm.plains {p t : Bytes} (hp : ∀ b ∈ p, IsPlainByte b) (h : ContentForm t) :
    ContentForm (p ++ t) := by
  induction p with
  | nil => exact h
  | cons b p ih =>
    exact .plain (hp b List.mem_cons_self) (ih fun a ha => hp a (List.mem_cons_of_mem _ ha))

/-- What stands for a text has the form of a string. -/
theorem contentForm_of_content {t : Bytes} {s : List Char} (h : Content t s) : ContentForm t := by
  induction h with
  | nil => exact .nil
  | plain c hc h ih => exact ContentForm.plains hc.bytes ih
  | @escape e t c s he h ih =>
    cases he with
    | short h' => exact .escape (.short h') ih
    | unit hu hn => exact .escape (.unit hu) ih
    | @pair u v n m hu hn hv hm =>
      -- the form does not know pairs: the two units stand one after the other
      have ha : 0x5C :: (0x75 :: (u ++ 0x5C :: 0x75 :: v) ++ t)
          = 0x5C :: (0x75 :: u ++ 0x5C :: (0x75 :: v ++ t)) := by simp
      rw [ha]
      exact .escape (.unit hu) (.escape (.unit hv) ih)

/-- A string has the form of a string. -/
theorem quotedForm_of_quoted {t : Bytes} {s : String} (h : Quoted t s) : QuotedForm t := by
  obtain ⟨u, rfl, hu⟩ := h
  exact ⟨u, rfl, contentForm_of_content hu⟩

end UpgradeScan.JsonText
