/-
`Proofs/Json/Grammar.lean` -- the texts of the data format, as a grammar over bytes.

Nothing here reads: each relation says which bytes are a blank, a string, a number, a list, an
object or a value, and the readers are held to it elsewhere. A string has two relations.
`Quoted t s` says which text `t` stands for, so the bytes are well-formed UTF-8 and every escape
stands for a character. `QuotedForm t` only says that `t` has the form of a string; that is all
that is asked of a value that is passed over, whose numbers may have any magnitude as well.

Lists and objects share `Parts`: what stands after the opening bracket, up to and with the
closing one. What a part is, is a parameter, so that one grammar serves for the items of a list,
the members of an object, and the entries of a report.
-/
import UpgradeScan.Json.Cursor

set_option autoImplicit false

namespace UpgradeScan.JsonText

/-! ## 1. Blanks

Four bytes are blanks. What may follow a value matters for numbers only, but is asked of every
value, so that readers can be put together without looking at kinds. -/

/-- Nothing but blanks. -/
def Blanks (w : Bytes) : Prop := ∀ b ∈ w, isSpace b = true

/-- What may follow a value: nothing, a blank, a comma or a closing bracket. A number would go
on with anything else. -/
def Ends : Bytes → Prop
  | [] => True
  | b :: _ => isSpace b = true ∨ b = 0x2C ∨ b = 0x5D ∨ b = 0x7D

/-! ## 2. Strings

A string is written in more than one way, since any character may be escaped. So `Quoted` relates
many byte strings to one text, and `Content` is the part of it between the quotes. -/

/-- The letters after a backslash and what they stand for. -/
def shortEscapes : List (UInt8 × Char) :=
  [(0x22, '"'), (0x5C, '\\'), (0x2F, '/'), (0x62, '\x08'), (0x66, '\x0C'), (0x6E, '\n'),
    (0x72, '\r'), (0x74, '\t')]

/-- Four hexadecimal digits and the number they spell. -/
def Hex4 (u : Bytes) (n : Nat) : Prop :=
  ∃ a b c d i j k l, u = [a, b, c, d] ∧ hexValue? a = some i ∧ hexValue? b = some j ∧
    hexValue? c = some k ∧ hexValue? d = some l ∧ n = ((i * 16 + j) * 16 + k) * 16 + l

/-- An escape after its backslash and the character it stands for. A character above U+FFFF is
written as two surrogates; a surrogate alone stands for nothing. -/
inductive Escape : Bytes → Char → Prop
  | short {e : UInt8} {c : Char} (h : (e, c) ∈ shortEscapes) : Escape [e] c
  | unit {u : Bytes} {n : Nat} (hu : Hex4 u n) (hn : n < 0xD800 ∨ 0xDFFF < n) :
      Escape (0x75 :: u) (Char.ofNat n)
  | pair {u v : Bytes} {n m : Nat} (hu : Hex4 u n) (hn : 0xD800 ≤ n ∧ n ≤ 0xDBFF)
      (hv : Hex4 v m) (hm : 0xDC00 ≤ m ∧ m ≤ 0xDFFF) :
      Escape (0x75 :: (u ++ 0x5C :: 0x75 :: v))
        (Char.ofNat (0x10000 + (n - 0xD800) * 0x400 + (m - 0xDC00)))

/-- A character that may stand in a string as it is. -/
def IsPlain (c : Char) : Prop := 0x20 ≤ c.toNat ∧ c ≠ '"' ∧ c ≠ '\\'

/-- What stands between quotes and the characters it stands for. -/
inductive Content : Bytes → List Char → Prop
  | nil : Content [] []
  | plain {t : Bytes} {s : List Char} (c : Char) (hc : IsPlain c) (h : Content t s) :
      Content (String.utf8EncodeChar c ++ t) (c :: s)
  | escape {e t : Bytes} {c : Char} {s : List Char} (he : Escape e c) (h : Content t s) :
      Content (0x5C :: (e ++ t)) (c :: s)

/-- A string and the text it stands for. -/
def Quoted (t : Bytes) (s : String) : Prop := ∃ u, t = 0x22 :: (u ++ [0x22]) ∧ Content u s.toList

/-- The form of an escape after its backslash. -/
inductive EscapeForm : Bytes → Prop
  | short {e : UInt8} {c : Char} (h : (e, c) ∈ shortEscapes) : EscapeForm [e]
  | unit {u : Bytes} {n : Nat} (hu : Hex4 u n) : EscapeForm (0x75 :: u)

/-- A byte that may stand in a string as it is. -/
def IsPlainByte (b : UInt8) : Prop := ¬ b < 0x20 ∧ b ≠ 0x22 ∧ b ≠ 0x5C

/-- The form of what stands between quotes. -/
inductive ContentForm : Bytes → Prop
  | nil : ContentForm []
  | plain {b : UInt8} {t : Bytes} (hb : IsPlainByte b) (h : ContentForm t) : ContentForm (b :: t)
  | escape {e t : Bytes} (he : EscapeForm e) (h : ContentForm t) : ContentForm (0x5C :: (e ++ t))

/-- The form of a string. -/
def QuotedForm (t : Bytes) : Prop := ∃ u, t = 0x22 :: (u ++ [0x22]) ∧ ContentForm u

/-! ## 3. Numbers

A number is its four parts. What it is worth is not said here; the same value has many spellings,
and some spellings have no value of the machine. -/

/-- At least one digit, and nothing else. -/
def IsDigits (ds : List Nat) : Prop := ds ≠ [] ∧ ∀ d ∈ ds, d < 10

/-- Digits as they are written. -/
def digitBytes (ds : List Nat) : Bytes := ds.map fun d => UInt8.ofNat (d + 0x30)

/-- The digits of a whole part: no zero stands before another digit. -/
def IsWhole (ds : List Nat) : Prop := IsDigits ds ∧ (ds.head? = some 0 → ds = [0])

/-- The digits after the point, if there is one. -/
inductive Fraction : Bytes → Option (List Nat) → Prop
  | absent : Fraction [] none
  | present {ds : List Nat} (h : IsDigits ds) : Fraction (0x2E :: digitBytes ds) (some ds)

/-- The sign of a power of ten. -/
inductive Sign : Bytes → Bool → Prop
  | none : Sign [] false
  | plus : Sign [0x2B] false
  | minus : Sign [0x2D] true

/-- The power of ten, if there is one. -/
inductive Power : Bytes → Option (Bool × List Nat) → Prop
  | absent : Power [] none
  | present {e : UInt8} {g : Bytes} {neg : Bool} {ds : List Nat} (he : e = 0x65 ∨ e = 0x45)
      (hg : Sign g neg) (h : IsDigits ds) : Power (e :: (g ++ digitBytes ds)) (some (neg, ds))

/-- A number and its parts. -/
def NumeralText (t : Bytes) (x : Numeral) : Prop :=
  ∃ f p, IsWhole x.whole ∧ Fraction f x.fraction ∧ Power p x.power ∧
    t = (if x.negative then [0x2D] else []) ++ (digitBytes x.whole ++ (f ++ p))

/-! ## 4. Lists and objects

The layout of brackets, commas and blanks, with the parts left open. -/

section Layout

variable {α κ : Type}

/-- What stands after an opening bracket, up to and with the closing one: parts with commas
between them, and blanks around parts and commas. The flag says that no part was given yet, so
that the next one needs no comma. -/
inductive Parts (close : UInt8) (P : Bytes → α → Prop) : Bool → Bytes → List α → Prop
  | close {first : Bool} {w : Bytes} (hw : Blanks w) : Parts close P first (w ++ [close]) []
  | first {w v s : Bytes} {a : α} {as : List α} (hw : Blanks w) (hv : P v a)
      (h : Parts close P false s as) : Parts close P true (w ++ (v ++ s)) (a :: as)
  | next {w w' v s : Bytes} {a : α} {as : List α} (hw : Blanks w) (hw' : Blanks w') (hv : P v a)
      (h : Parts close P false s as) :
      Parts close P false (w ++ 0x2C :: (w' ++ (v ++ s))) (a :: as)

/-- A list of items. -/
def ListText (P : Bytes → α → Prop) (t : Bytes) (as : List α) : Prop :=
  ∃ u, t = 0x5B :: u ∧ Parts 0x5D P true u as

/-- A member: a key, a colon, and the text of a value. -/
def MemberText (K : Bytes → κ → Prop) (t : Bytes) (m : κ × Bytes) : Prop :=
  ∃ k w w', K k m.1 ∧ Blanks w ∧ Blanks w' ∧ t = k ++ (w ++ 0x3A :: (w' ++ m.2))

/-- An object: its keys and the texts of its values. -/
def ObjectText (K : Bytes → κ → Prop) (t : Bytes) (ms : List (κ × Bytes)) : Prop :=
  ∃ u, t = 0x7B :: u ∧ Parts 0x7D (MemberText K) true u ms

end Layout

/-- A text of which only the form counts stands for itself. -/
def Form (P : Bytes → Prop) (t u : Bytes) : Prop := t = u ∧ P u

/-! ## 5. Values

All values, of any depth. Objects are asked for the form of their keys only, since a value that is
passed over is not decoded. -/

/-- A value of any kind and depth, without blanks around it. -/
inductive Value : Bytes → Prop
  | null : Value (0x6E :: restOfNull)
  | yes : Value (0x74 :: restOfTrue)
  | no : Value (0x66 :: restOfFalse)
  | string {t : Bytes} (h : QuotedForm t) : Value t
  | number {t : Bytes} {x : Numeral} (h : NumeralText t x) : Value t
  | list {t : Bytes} {ts : List Bytes} (h : ListText Eq t ts) (hts : ∀ u ∈ ts, Value u) : Value t
  | object {t : Bytes} {ms : List (Bytes × Bytes)} (h : ObjectText (Form QuotedForm) t ms)
      (hms : ∀ m ∈ ms, Value m.2) : Value t

end UpgradeScan.JsonText
