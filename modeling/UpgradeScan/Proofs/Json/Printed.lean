/-
`Proofs/Json/Printed.lean` -- printed values are texts of the grammar.

The printer writes values with line ends and indentation. Readers of such a document are not known
here: the report in it is read by the reader of the engine's reports, other members by the general
reader, and either might be changed. So what is proved of the printer is not that some reader
accepts its texts, but that they are texts of the grammar, with the right parts.

A printed string stands for the string, whatever characters it has: quotes, backslashes and control
characters are escaped, and everything else is written as it is (`quoted_quote`). A printed list has
the texts of its items (`listText_pretty`). A printed object has the members of the object, in their
order, each under its own name and with the text of its value (`objectText_pretty`); nothing is said
about names that are there twice, since the layout does not depend on it. A printed number is a
number, if the format can hold it (`Fits`).

The depth only decides how many blanks stand after a line end, so it is a variable in every
statement.
-/
import UpgradeScan.Json.Printer
import UpgradeScan.Proofs.Json.Layout
import UpgradeScan.Proofs.Json.RealText

set_option autoImplicit false

namespace UpgradeScan.JsonText

open UpgradeScan.Text

/-! ## 1. Strings

Character by character: each is printed as an escape or as itself. -/

/-- The escape of a control character is four digits that spell it. -/
theorem hex4_control {n : Nat} (h : n < 0x20) :
    Hex4 (Utf8.encode ['0', '0', Json.hexDigit (n / 16), Json.hexDigit n]) n := by
  have all : ∀ n, n < 0x20 →
      hex4? (Utf8.encode ['0', '0', Json.hexDigit (n / 16), Json.hexDigit n]) = some n ∧
      (Utf8.encode ['0', '0', Json.hexDigit (n / 16), Json.hexDigit n]).length = 4 := by
    decide
  obtain ⟨hex, hlen⟩ := all n h
  obtain ⟨u, r, hu, hs⟩ := hex4?_eq_some_iff.mp hex
  rw [hs, List.length_append, hu.length] at hlen
  have hr : r = [] := List.length_eq_zero_iff.mp (by omega)
  rw [hs, hr, List.append_nil]
  exact hu

/-- What is printed of one character stands for that character. -/
theorem content_escapeChar (c : Char) {t : Bytes} {s : List Char} (h : Content t s) :
    Content (Utf8.encode (Json.escapeChar c) ++ t) (c :: s) := by
  -- the seven characters with a letter of their own, then the control characters, then the rest
  have short : ∀ e : UInt8, ∀ a : Char, (e, c) ∈ shortEscapes →
      Utf8.encode ['\\', a] = [0x5C, e] → Content (Utf8.encode ['\\', a] ++ t) (c :: s) := by
    intro e a he henc
    rw [henc]
    exact .escape (e := [e]) (.short he) h
  unfold Json.escapeChar
  split
  · next hc => exact short 0x22 _ (by rw [hc]; decide) (by decide)
  split
  · next hc => exact short 0x5C _ (by rw [hc]; decide) (by decide)
  split
  · next hc => exact short 0x62 _ (by rw [hc]; decide) (by decide)
  split
  · next hc => exact short 0x66 _ (by rw [hc]; decide) (by decide)
  split
  · next hc => exact short 0x6E _ (by rw [hc]; decide) (by decide)
  split
  · next hc => exact short 0x72 _ (by rw [hc]; decide) (by decide)
  split
  · next hc => exact short 0x74 _ (by rw [hc]; decide) (by decide)
  split
  · next hc =>
    have hunit := Escape.unit (hex4_control hc) (.inl (by omega))
    rw [Char.ofNat_toNat] at hunit
    exact Content.escape hunit h
  · next hquote hslash _ _ _ _ _ hc =>
    have henc : Utf8.encode [c] = String.utf8EncodeChar c := List.append_nil _
    rw [henc]
    exact .plain c ⟨by omega, hquote, hslash⟩ h

/-- The escaped characters of a text stand for the text. -/
theorem content_escaped (s : List Char) : Content (Utf8.encode (s.flatMap Json.escapeChar)) s := by
  induction s with
  | nil => exact .nil
  | cons c s ih =>
    rw [List.flatMap_cons, Utf8.encode_append]
    exact content_escapeChar c ih

/-- **Strings.** A printed string stands for the string. -/
theorem quoted_quote (s : String) : Quoted (Utf8.encode (Json.quote s.toList)) s := by
  refine ⟨_, ?_, content_escaped s.toList⟩
  rw [Json.quote, ← List.singleton_append, Utf8.encode_append, Utf8.encode_append]
  rfl

/-! ## 2. Lists and objects

The layout that the printer makes is the layout of the grammar: its line ends and indentation are
blanks, and its commas stand where they belong. -/

/-- A line end and its indentation are blanks. -/
theorem blanks_newLine (depth : Nat) : Blanks (Utf8.encode (Json.newLine depth)) := by
  intro b hb
  rw [Utf8.encode, List.mem_flatMap] at hb
  obtain ⟨c, hc, hb⟩ := hb
  rw [Json.newLine, List.mem_cons, List.mem_replicate] at hc
  rcases hc with rfl | ⟨-, rfl⟩
  · rw [List.mem_singleton.mp (show b ∈ [0x0A] from hb)]
    decide
  · rw [List.mem_singleton.mp (show b ∈ [0x20] from hb)]
    decide

/-- So is the blank behind a colon. -/
theorem blanks_space : Blanks [0x20] := by
  intro b hb
  rw [List.mem_singleton.mp hb]
  decide

theorem encode_minus (s : List Char) : Utf8.encode ('-' :: s) = 0x2D :: Utf8.encode s := rfl

theorem encode_comma (s : List Char) : Utf8.encode (',' :: s) = 0x2C :: Utf8.encode s := rfl

theorem encode_colon (s : List Char) :
    Utf8.encode (':' :: ' ' :: s) = 0x3A :: 0x20 :: Utf8.encode s := rfl

theorem encode_bracket (s : List Char) : Utf8.encode ('[' :: s) = 0x5B :: Utf8.encode s := rfl

theorem encode_brace (s : List Char) : Utf8.encode ('{' :: s) = 0x7B :: Utf8.encode s := rfl

/-- The text of a value at a depth. -/
def printed (depth : Nat) (j : Json) : Bytes := Utf8.encode (j.pretty depth)

/-- The members of an object, with the texts of their values. -/
def printedMembers (depth : Nat) (ms : List (String × Json)) : List (String × Bytes) :=
  ms.map fun m => (m.1, printed depth m.2)

/-- A printed member has its key and the text of its value. -/
theorem member_pretty (depth : Nat) (k : String) (v : Json) :
    MemberText Quoted
      (Utf8.encode (Json.quote k.toList) ++ 0x3A :: ([0x20] ++ printed depth v))
      (k, printed depth v) :=
  ⟨_, [], [0x20], quoted_quote k, blanks_nil, blanks_space, rfl⟩

/-- Printed items are parts, up to the closing bracket. -/
theorem parts_prettyItems (depth : Nat) (xs : List Json) :
    Parts 0x5D Eq false (Utf8.encode (Json.prettyItems depth xs))
      (xs.map (printed (depth + 1))) := by
  induction xs with
  | nil =>
    rw [Json.prettyItems, Utf8.encode_append]
    exact .close (blanks_newLine depth)
  | cons x xs ih =>
    rw [Json.prettyItems, encode_comma, Utf8.encode_append, Utf8.encode_append]
    exact .next (w := []) blanks_nil (blanks_newLine _) rfl ih

/-- Printed members are parts, up to the closing brace. -/
theorem parts_prettyMembers (depth : Nat) (ms : List (String × Json)) :
    Parts 0x7D (MemberText Quoted) false (Utf8.encode (Json.prettyMembers depth ms))
      (printedMembers (depth + 1) ms) := by
  induction ms with
  | nil =>
    rw [Json.prettyMembers, Utf8.encode_append]
    exact .close (blanks_newLine depth)
  | cons m ms ih =>
    obtain ⟨k, v⟩ := m
    have hparts := Parts.next (w := []) blanks_nil (blanks_newLine (depth + 1))
      (member_pretty (depth + 1) k v) ih
    rw [Json.prettyMembers, encode_comma, Utf8.encode_append, Utf8.encode_append, encode_colon,
      Utf8.encode_append]
    simp only [List.append_assoc, List.cons_append, List.nil_append, printed] at hparts
    exact hparts

/-- **Lists.** A printed list has the texts of its items. -/
theorem listText_pretty (depth : Nat) (xs : List Json) :
    ListText Eq (printed depth (.array xs)) (xs.map (printed (depth + 1))) := by
  cases xs with
  | nil => exact ⟨[0x5D], rfl, .close (w := []) blanks_nil⟩
  | cons x xs =>
    refine ⟨_, ?_, .first (blanks_newLine (depth + 1)) rfl (parts_prettyItems depth xs)⟩
    rw [printed, Json.pretty, encode_bracket, Utf8.encode_append, Utf8.encode_append]
    rfl

/-- **Objects.** A printed object has its members in their order, with the texts of their
values. -/
theorem objectText_pretty (depth : Nat) (ms : List (String × Json)) :
    ObjectText Quoted (printed depth (.object ms)) (printedMembers (depth + 1) ms) := by
  cases ms with
  | nil => exact ⟨[0x7D], rfl, .close (w := []) blanks_nil⟩
  | cons m ms =>
    obtain ⟨k, v⟩ := m
    refine ⟨_, ?_, .first (blanks_newLine (depth + 1)) (member_pretty (depth + 1) k v)
      (parts_prettyMembers depth ms)⟩
    rw [printed, Json.pretty, encode_brace, Utf8.encode_append, Utf8.encode_append, encode_colon,
      Utf8.encode_append]
    simp only [List.append_assoc, List.cons_append, List.nil_append, printed]

/-! ## 3. Values

By induction on the value, which follows the two texts above. -/

/-- The format can hold the number. -/
def JsonNumberFits : JsonNumber → Prop
  | .natural n => n < Nat.pow 2 64
  | .negative n => 0 < n ∧ n ≤ Nat.pow 2 63
  | .real x => x.significand < Nat.pow 2 53

/-- Every number in the value is one that the format can hold. -/
inductive Fits : Json → Prop
  | null : Fits .null
  | bool (b : Bool) : Fits (.bool b)
  | string (s : String) : Fits (.string s)
  | number {n : JsonNumber} (h : JsonNumberFits n) : Fits (.number n)
  | array {xs : List Json} (h : ∀ x ∈ xs, Fits x) : Fits (.array xs)
  | object {ms : List (String × Json)} (h : ∀ m ∈ ms, Fits m.2) : Fits (.object ms)

/-- A printed number is a number. -/
theorem exists_numeralText_number {n : JsonNumber} (h : JsonNumberFits n) :
    ∃ y, NumeralText (Utf8.encode n.text) y := by
  cases n with
  | natural n =>
    rw [JsonNumber.text, encode_digits]
    exact ⟨_, numeralText_natural n⟩
  | negative n =>
    rw [JsonNumber.text, encode_minus, encode_digits]
    exact ⟨_, numeralText_negative n⟩
  | real x => exact exists_numeralText h

/-- **Values.** What is printed is a value of the data format. -/
theorem value_printed {j : Json} (h : Fits j) (depth : Nat) : Value (printed depth j) := by
  induction h generalizing depth with
  | null => exact .null
  | bool b =>
    cases b with
    | false => exact .no
    | true => exact .yes
  | string s => exact .string (quotedForm_of_quoted (quoted_quote s))
  | number h =>
    obtain ⟨y, hy⟩ := exists_numeralText_number h
    exact .number hy
  | @array xs h ih =>
    refine .list (listText_pretty depth xs) fun u hu => ?_
    obtain ⟨x, hx, rfl⟩ := List.mem_map.mp hu
    exact ih x hx _
  | @object ms h ih =>
    refine value_of_objectText (objectText_pretty depth ms) fun m hm => ?_
    obtain ⟨x, hx, rfl⟩ := List.mem_map.mp hm
    exact ih x hx _

end UpgradeScan.JsonText
