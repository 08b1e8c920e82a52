/-
`Proofs/Json/ReadBack.lean` -- a printed value reads back as itself.

A value that is printed and read again should be the same value. Of JSON in general that is not
true, and the exceptions are real ones. A member that is given twice is kept once. A float is
printed by its shortest digits and read by rounding, and although that should meet, it is not proved
here. A value that is nested more deeply than the reader allows is refused. So the statement is
about values without floats, whose members have different names, and whose nesting the reader allows
(`Exact`); the statistics of a report are among them.

What is proved first is more general than printing: a text is read as a value, from any blanks
before it to anything that ends it (`ReadsAs`). Items and members are read when each of them is, by
induction on the layout of the grammar. The reader of members replaces a member that comes again, so
the induction carries that no name has come before. Printing then only has to supply the layout,
which it does by `listText_pretty` and `objectText_pretty`.

Steps are counted by bytes. A value never takes more steps than it has bytes, so the number of bytes
is enough, and how the steps are spent inside is not looked at.
-/
import UpgradeScan.Json.Reader
import UpgradeScan.Proofs.Json.Printed
import UpgradeScan.Proofs.Json.Skip

set_option autoImplicit false

namespace UpgradeScan.JsonText

open UpgradeScan.Text

/-! ## 1. What is read back

Which values, and what it is for a text to be read as one of them. -/

/-- Values without floats and with different member names, at most `depth` containers deep. -/
inductive Exact : Nat → Json → Prop
  | null {depth : Nat} : Exact depth .null
  | bool {depth : Nat} (b : Bool) : Exact depth (.bool b)
  | string {depth : Nat} (s : String) : Exact depth (.string s)
  | natural {depth n : Nat} (h : n < Nat.pow 2 64) : Exact depth (.number (.natural n))
  | negative {depth n : Nat} (h : 0 < n) (hle : n ≤ Nat.pow 2 63) :
      Exact depth (.number (.negative n))
  | array {depth : Nat} {xs : List Json} (h : ∀ x ∈ xs, Exact depth x) :
      Exact (depth + 1) (.array xs)
  | object {depth : Nat} {ms : List (String × Json)} (hkeys : (ms.map (·.1)).Nodup)
      (h : ∀ m ∈ ms, Exact depth m.2) : Exact (depth + 1) (.object ms)

/-- The numbers of such a value are ones that the format can hold. -/
theorem Exact.fits {depth : Nat} {j : Json} (h : Exact depth j) : Fits j := by
  induction h with
  | null => exact .null
  | bool b => exact .bool b
  | string s => exact .string s
  | natural h => exact .number h
  | negative h hle => exact .number ⟨h, hle⟩
  | array h ih => exact .array ih
  | object hkeys h ih => exact .object ih

/-- The text is read as the value, with as many steps as it has bytes. -/
def ReadsAs (depth : Nat) (t : Bytes) (j : Json) : Prop :=
  ∀ n w r, t.length ≤ n → Blanks w → Ends r → value n depth (w ++ (t ++ r)) = some (j, r)

/-! ## 2. Items and members

The two loops of the reader. A comma must be followed by a part, so they are read with at least one
part and the empty brackets are a case of their own. -/

section Parts

variable {depth : Nat}

/-- Items are read when each of them is. -/
theorem items_complete {P : Bytes → Json → Prop} (hP : ∀ v x, P v x → ReadsAs depth v x)
    {xs : List Json} {u : Bytes} (h : Parts 0x5D P true u xs) (hne : xs ≠ []) {n : Nat}
    (hn : u.length ≤ n) (r : Bytes) : items n depth (u ++ r) = some (xs, r) := by
  induction xs generalizing u n with
  | nil => exact absurd rfl hne
  | cons x xs ih =>
    obtain ⟨w, v, s, hw, hv, hs, rfl⟩ := parts_cons_iff.mp h
    have hpos := hs.length_pos
    simp only [List.length_append] at hn
    -- What follows an item has a byte at least, a comma or the bracket, which pays for the step.
    obtain ⟨n, rfl⟩ := Nat.exists_eq_add_one.mpr (by omega : 0 < n)
    have hvalue := hP v x hv n w (s ++ r) (by omega) hw (hs.ends (.inl rfl) r)
    rw [items, List.append_assoc, List.append_assoc, hvalue]
    dsimp only
    cases xs with
    | nil =>
      rw [hs.skipSpace_nil (.inl rfl)]
      rfl
    | cons y ys =>
      obtain ⟨t, ht, hlen, hskip⟩ := hs.skipSpace_next r
      have hrest := ih ht (List.cons_ne_nil y ys) (n := n) (by omega)
      simp only [hskip, hrest, Option.map_some]

/-- The text of a member whose value is read back. -/
def MemberReadsAs (depth : Nat) (v : Bytes) (m : String × Json) : Prop :=
  ∃ t, MemberText Quoted v (m.1, t) ∧ ReadsAs depth t m.2

/-- Members are read when each of them is, behind others of different names. -/
theorem members_complete (old : List (String × Json)) {ms : List (String × Json)} {u : Bytes}
    (h : Parts 0x7D (MemberReadsAs depth) true u ms) (hne : ms ≠ [])
    (hkeys : ((old ++ ms).map (·.1)).Nodup) {n : Nat} (hn : u.length ≤ n) (r : Bytes) :
    members n depth old (u ++ r) = some (old ++ ms, r) := by
  induction ms generalizing u n old with
  | nil => exact absurd rfl hne
  | cons m ms ih =>
    obtain ⟨k, j⟩ := m
    obtain ⟨w, _, s, hw, ⟨t, ⟨_, w1, w2, ⟨q, rfl, hq⟩, hw1, hw2, rfl⟩, ht⟩, hs, rfl⟩ :=
      parts_cons_iff.mp h
    have hpos := hs.length_pos
    simp only [List.length_append, List.length_cons] at hn
    obtain ⟨n, rfl⟩ := Nat.exists_eq_add_one.mpr (by omega : 0 < n)
    -- a name that was not read yet goes to the end
    have hkey : k ∉ old.map (·.1) := by
      rw [List.map_append, List.map_cons] at hkeys
      exact fun hmem => (List.nodup_append.mp hkeys).2.2 k hmem k List.mem_cons_self rfl
    -- what the reader finds at each step: the name, the colon, the value
    have hquote : skipSpace (w ++ (0x22 :: (q ++ [0x22]) ++ (w1 ++ 0x3A :: (w2 ++ t)) ++ s) ++ r) =
        0x22 :: (q ++ 0x22 :: (w1 ++ 0x3A :: (w2 ++ (t ++ (s ++ r))))) := by
      rw [List.append_assoc, skipSpace_append _ hw]
      simp only [List.append_assoc, List.cons_append, List.nil_append]
      exact skipSpace_cons _ (by decide)
    have hstring : string (q ++ 0x22 :: (w1 ++ 0x3A :: (w2 ++ (t ++ (s ++ r))))) =
        some (k, w1 ++ 0x3A :: (w2 ++ (t ++ (s ++ r)))) := string_eq_some_iff.mpr ⟨q, hq, rfl⟩
    have hcolon : skipSpace (w1 ++ 0x3A :: (w2 ++ (t ++ (s ++ r)))) =
        0x3A :: (w2 ++ (t ++ (s ++ r))) := by
      rw [skipSpace_append _ hw1, skipSpace_cons _ (by decide)]
    have hvalue := ht n w2 (s ++ r) (by omega) hw2 (hs.ends (.inr rfl) r)
    simp only [members, hquote, hstring, hcolon, hvalue, Json.insertMember_of_not_mem hkey]
    cases ms with
    | nil =>
      rw [hs.skipSpace_nil (.inr rfl)]
      rfl
    | cons m' ms =>
      obtain ⟨t', ht', hlen, hskip⟩ := hs.skipSpace_next r
      have hrest := ih (old ++ [(k, j)]) ht' (List.cons_ne_nil m' ms)
        (by rwa [List.append_assoc, List.singleton_append]) (n := n) (by omega)
      simp only [hskip, hrest, List.append_assoc, List.singleton_append]

end Parts

/-! ## 3. Values

One lemma for each kind of value, and then the induction on the value. -/

/-- A string is read as what it stands for. -/
theorem readsAs_string {depth : Nat} {t : Bytes} {s : String} (h : Quoted t s) :
    ReadsAs depth t (.string s) := by
  obtain ⟨u, rfl, hu⟩ := h
  intro n w r hn hw hr
  obtain ⟨n, rfl, -⟩ := exists_succ_of_length_cons_le hn
  have hskip : skipSpace (w ++ (0x22 :: (u ++ [0x22]) ++ r)) = 0x22 :: (u ++ 0x22 :: r) := by
    rw [(opens_quoted (quotedForm_of_quoted ⟨u, rfl, hu⟩)).skipSpace hw]
    simp
  have hstring : string (u ++ 0x22 :: r) = some (s, r) := string_eq_some_iff.mpr ⟨u, hu, rfl⟩
  rw [value, hskip]
  dsimp only
  rw [if_neg (by decide), if_neg (by decide), if_neg (by decide), if_pos rfl, hstring]
  rfl

/-- A number is read as its value, if what follows ends it. -/
theorem readsAs_number {depth : Nat} {t : Bytes} {x : Numeral} {v : JsonNumber}
    (ht : NumeralText t x) (hv : ∀ r, Ends r → number (t ++ r) = some (v, r)) :
    ReadsAs depth t (.number v) := by
  intro n w r hn hw hr
  have hnum := hv r hr
  obtain ⟨b, u, rfl, hb, hne⟩ := ht.exists_first
  obtain ⟨n, rfl, -⟩ := exists_succ_of_length_cons_le hn
  -- the first byte is none of those that are tried before a number's
  rw [value, (opens_numeral ht).skipSpace hw, List.cons_append]
  dsimp only
  rw [if_neg (hne _ (by decide) (by decide)), if_neg (hne _ (by decide) (by decide)),
    if_neg (hne _ (by decide) (by decide)), if_neg (hne _ (by decide) (by decide)),
    if_pos (by simpa using hb), ← List.cons_append, hnum]
  rfl

/-- A list is read as its items, one level deeper. -/
theorem readsAs_array {depth : Nat} {t : Bytes} {xs : List Json}
    (h : ListText (fun v x => Opens v ∧ ReadsAs depth v x) t xs) :
    ReadsAs (depth + 1) t (.array xs) := by
  obtain ⟨u, rfl, hu⟩ := h
  intro n w r hn hw hr
  obtain ⟨n, rfl, hm⟩ := exists_succ_of_length_cons_le hn
  have hskip : skipSpace (w ++ (0x5B :: u ++ r)) = 0x5B :: (u ++ r) := by
    rw [skipSpace_append _ hw]
    exact skipSpace_cons _ (by decide)
  rw [value, hskip]
  dsimp only
  rw [if_neg (by decide), if_neg (by decide), if_neg (by decide), if_neg (by decide),
    if_neg (by decide), if_pos rfl]
  cases xs with
  | nil =>
    rw [hu.skipSpace_nil (.inl rfl)]
    rfl
  | cons x xs =>
    obtain ⟨l, v, s, hl, ⟨hopens, hv⟩, hs, rfl⟩ := parts_cons_iff.mp hu
    -- the blanks before the first item are passed over before the items are read
    have hfirst : skipSpace (l ++ (v ++ s) ++ r) = v ++ s ++ r := by
      rw [List.append_assoc, List.append_assoc, hopens.skipSpace hl]
    have hitems := items_complete (P := fun v x => Opens v ∧ ReadsAs depth v x)
      (fun v x hx => hx.2) (parts_cons_iff.mpr ⟨[], v, s, blanks_nil, ⟨hopens, hv⟩, hs, rfl⟩)
      (List.cons_ne_nil x xs) (n := n)
      (by simp only [List.nil_append, List.length_append] at hm ⊢; omega) r
    rw [List.nil_append] at hitems
    obtain ⟨b, y, rfl, -, -, hb⟩ := hopens
    rw [hfirst]
    split
    · next heq => exact absurd (.inl (List.cons.inj heq).1) hb
    · rw [hitems]
      rfl

/-- An object is read as its members, one level deeper. -/
theorem readsAs_object {depth : Nat} {u : Bytes} {ms : List (String × Json)}
    (h : Parts 0x7D (MemberReadsAs depth) true u ms) (hkeys : (ms.map (·.1)).Nodup) :
    ReadsAs (depth + 1) (0x7B :: u) (.object ms) := by
  intro n w r hn hw hr
  obtain ⟨n, rfl, hm⟩ := exists_succ_of_length_cons_le hn
  have hskip : skipSpace (w ++ (0x7B :: u ++ r)) = 0x7B :: (u ++ r) := by
    rw [skipSpace_append _ hw]
    exact skipSpace_cons _ (by decide)
  rw [value, hskip]
  dsimp only
  rw [if_neg (by decide), if_neg (by decide), if_neg (by decide), if_neg (by decide),
    if_neg (by decide), if_neg (by decide), if_pos rfl]
  cases ms with
  | nil =>
    rw [h.skipSpace_nil (.inr rfl)]
    rfl
  | cons m ms =>
    obtain ⟨l, v, s, hl, hv, hs, rfl⟩ := parts_cons_iff.mp h
    -- a member begins with its quoted name, so the object is not taken for an empty one
    have hopens : Opens v := by
      obtain ⟨t, ht, -⟩ := hv
      exact opens_member (fun t k hk => opens_quoted (quotedForm_of_quoted hk)) ht
    have hfirst : skipSpace (l ++ (v ++ s) ++ r) = v ++ s ++ r := by
      rw [List.append_assoc, List.append_assoc, hopens.skipSpace hl]
    have hmembers := members_complete []
      (parts_cons_iff.mpr ⟨[], v, s, blanks_nil, hv, hs, rfl⟩) (List.cons_ne_nil m ms) hkeys
      (n := n) (by simp only [List.nil_append, List.length_append] at hm ⊢; omega) r
    rw [List.nil_append, List.nil_append] at hmembers
    obtain ⟨b, y, rfl, -, -, hb⟩ := hopens
    rw [hfirst]
    split
    · next heq => exact absurd (.inr (List.cons.inj heq).1) hb
    · rw [hmembers]
      rfl

/-- **Read back.** The text of a value is read as that value. -/
theorem readsAs_printed {depth : Nat} {j : Json} (h : Exact depth j) (d : Nat) :
    ReadsAs depth (printed d j) j := by
  -- a word needs one step, and it has bytes enough for that
  have word : ∀ {depth : Nat} {t : Bytes} {j : Json}, t ≠ [] →
      (∀ n w r, Blanks w → value (n + 1) depth (w ++ (t ++ r)) = some (j, r)) →
      ReadsAs depth t j := by
    intro depth t j ht hread n w r hn hw hr
    have hpos := List.length_pos_iff.mpr ht
    obtain ⟨n, rfl⟩ := Nat.exists_eq_add_one.mpr (by omega : 0 < n)
    exact hread n w r hw
  induction h generalizing d with
  | null =>
    refine word (List.cons_ne_nil _ _) fun n w r hw => ?_
    rw [value, skipSpace_append _ hw]
    rfl
  | bool b =>
    cases b with
    | false =>
      refine word (List.cons_ne_nil _ _) fun n w r hw => ?_
      rw [value, skipSpace_append _ hw]
      rfl
    | true =>
      refine word (List.cons_ne_nil _ _) fun n w r hw => ?_
      rw [value, skipSpace_append _ hw]
      rfl
  | string s => exact readsAs_string (quoted_quote s)
  | @natural depth n hlt =>
    have htext : printed d (.number (.natural n)) = digitBytes (decimal n) := encode_digits n
    rw [htext]
    exact readsAs_number (numeralText_natural n) fun r hr => number_natural_complete hlt hr
  | @negative depth n hpos hle =>
    have htext : printed d (.number (.negative n)) = 0x2D :: digitBytes (decimal n) := by
      rw [← encode_digits]
      rfl
    rw [htext]
    exact readsAs_number (numeralText_negative n) fun r hr =>
      number_negative_complete hpos hle hr
  | @array depth xs h ih =>
    obtain ⟨u, hu, hparts⟩ := listText_pretty d xs
    refine readsAs_array ⟨u, hu, hparts.of_map.imp ?_⟩
    rintro v x hx rfl
    exact ⟨(value_printed (h x hx).fits _).opens, ih x hx _⟩
  | @object depth ms hkeys h ih =>
    obtain ⟨u, hu, hparts⟩ := objectText_pretty d ms
    rw [hu]
    refine readsAs_object (hparts.of_map.imp ?_) hkeys
    intro v m hm hv
    exact ⟨_, hv, ih m hm _⟩

end UpgradeScan.JsonText

namespace UpgradeScan.Json

open UpgradeScan.JsonText

/-- **Documents.** A document that is a printed value is read as that value. -/
theorem parse?_printed {j : Json} (h : Exact maxDepth j) (d : Nat) :
    parse? (printed d j) = some j := by
  have hread := readsAs_printed h d ((printed d j).length + 1) [] [] (Nat.le_succ _) blanks_nil
    trivial
  rw [List.nil_append, List.append_nil] at hread
  rw [parse?, hread]
  rfl

end UpgradeScan.Json
