/-
`Json/Cursor.lean` -- the tokens of a JSON document, read from its bytes.

Each function takes what is left of the document and gives what it read and what is left then.
Strings are read in two ways. A string whose content is used must be well-formed UTF-8 and every
escape must stand for a character; a string that is passed over only has to end, without a control
character and with complete escapes. Numbers are cut in one way, and whether the value fits the
format is asked only where the value is used.

A token that is not there gives nothing, whatever the reason. At this level all faults are the same,
and a reader that has to tell them apart looks at the first byte before it asks for the token.

Loops that take more than one byte in a round have an argument that counts the bytes still to be
passed over. So the recursion is on the bytes, one at a time, and an induction over them meets every
byte once, also those inside an escape.
-/
import UpgradeScan.Json.Basic
import UpgradeScan.Text.Utf8

set_option autoImplicit false

namespace UpgradeScan.JsonText

open UpgradeScan.Number

/-! ## 1. Blanks and words

The blanks are four, fewer than those of a text. A word is given by its bytes and taken off as a
whole. -/

/-- The blanks of the format. -/
def isSpace (b : UInt8) : Bool := b == 0x20 || b == 0x0A || b == 0x0D || b == 0x09

/-- What is left after leading blanks. -/
def skipSpace (s : Bytes) : Bytes := s.dropWhile isSpace

/-- What is left after a fixed word. -/
def word? : (w s : Bytes) → Option Bytes
  | [], s => some s
  | _ :: _, [] => none
  | a :: w, b :: s => if a = b then word? w s else none

/-- `null`, `true` and `false` after their first letters. -/
def restOfNull : Bytes := [0x75, 0x6C, 0x6C]
/-- See `restOfNull`. -/
def restOfTrue : Bytes := [0x72, 0x75, 0x65]
/-- See `restOfNull`. -/
def restOfFalse : Bytes := [0x61, 0x6C, 0x73, 0x65]

/-! ## 2. Strings

An escape is a letter, or four hexadecimal digits, or two such groups for one character beyond the
first plane. Passing over a string, only the length of an escape is needed. -/

/-- The value of a hexadecimal digit of either case. -/
def hexValue? (b : UInt8) : Option Nat :=
  if 0x30 ≤ b && b ≤ 0x39 then some (b.toNat - 0x30)
  else if 0x41 ≤ b && b ≤ 0x46 then some (b.toNat - 0x41 + 10)
  else if 0x61 ≤ b && b ≤ 0x66 then some (b.toNat - 0x61 + 10)
  else none

/-- The value of four hexadecimal digits. -/
def hex4? : Bytes → Option Nat
  | a :: b :: c :: d :: _ =>
    match hexValue? a, hexValue? b, hexValue? c, hexValue? d with
    | some a, some b, some c, some d => some (((a * 16 + b) * 16 + c) * 16 + d)
    | _, _, _, _ => none
  | _ => none

/-- A one-letter escape. -/
def shortEscape? (b : UInt8) : Option UInt8 :=
  if b = 0x22 || b = 0x5C || b = 0x2F then some b
  else if b = 0x62 then some 0x08
  else if b = 0x66 then some 0x0C
  else if b = 0x6E then some 0x0A
  else if b = 0x72 then some 0x0D
  else if b = 0x74 then some 0x09
  else none

/-- An escape after its backslash: the bytes it stands for and its length. A leading surrogate
needs a trailing one in the next escape; no other surrogate stands for anything. -/
def escape? : Bytes → Option (Bytes × Nat)
  | [] => none
  | e :: r =>
    if e = 0x75 then
      match hex4? r with
      | none => none
      | some n =>
        if 0xDC00 ≤ n && n ≤ 0xDFFF then none
        else if 0xD800 ≤ n && n ≤ 0xDBFF then
          match r.drop 4 with
          | 0x5C :: 0x75 :: t =>
            match hex4? t with
            | some m =>
              if 0xDC00 ≤ m && m ≤ 0xDFFF then
                some (String.utf8EncodeChar
                  (Char.ofNat (0x10000 + (n - 0xD800) * 0x400 + (m - 0xDC00))), 11)
              else none
            | none => none
          | _ => none
        else some (String.utf8EncodeChar (Char.ofNat n), 5)
    else (shortEscape? e).map fun b => ([b], 1)

/-- The bytes of a string after its opening quote, and what follows the closing one. The first
argument counts the bytes of an escape that are still to be passed over. -/
def content : Nat → Bytes → Option (Bytes × Bytes)
  | _, [] => none
  | n + 1, _ :: r => content n r
  | 0, b :: r =>
    if b = 0x22 then some ([], r)
    else if b = 0x5C then
      match escape? r with
      | none => none
      | some (out, k) => (content k r).map fun (u, t) => (out ++ u, t)
    else if b < 0x20 then none
    else (content 0 r).map fun (u, t) => (b :: u, t)

/-- A string after its opening quote. -/
def string (s : Bytes) : Option (String × Bytes) :=
  match content 0 s with
  | none => none
  | some (u, t) => (Text.Utf8.string? u).map (·, t)

/-- The length of an escape that is passed over, after its backslash. -/
def escapeLength? : Bytes → Option Nat
  | [] => none
  | e :: r =>
    if e = 0x75 then (hex4? r).map fun _ => 5 else (shortEscape? e).map fun _ => 1

/-- What follows a string that is passed over. -/
def skipContent : Nat → Bytes → Option Bytes
  | _, [] => none
  | n + 1, _ :: r => skipContent n r
  | 0, b :: r =>
    if b = 0x22 then some r
    else if b = 0x5C then
      match escapeLength? r with
      | none => none
      | some k => skipContent k r
    else if b < 0x20 then none
    else skipContent 0 r

/-! ## 3. Numbers

A number is first cut into its digits, which cannot fail for its size, and then given a value. The
value is the one that a reader gets that collects the digits in a machine word: what does not fit
any more counts towards the power of ten. -/

/-- A number as it is written. -/
structure Numeral where
  negative : Bool
  whole : List Nat
  /-- The digits after the point. -/
  fraction : Option (List Nat)
  /-- The sign and the digits of the power of ten. -/
  power : Option (Bool × List Nat)
  deriving Repr, DecidableEq

/-- An ASCII digit. -/
def isDigit (b : UInt8) : Bool := 0x30 ≤ b && b ≤ 0x39

/-- The leading digits and what is left. -/
def digitRun : Bytes → List Nat × Bytes
  | [] => ([], [])
  | b :: r =>
    if isDigit b then
      let (ds, t) := digitRun r
      ((b.toNat - 0x30) :: ds, t)
    else ([], b :: r)

/-- The digits after a point, if there is one. At least one is required. -/
def fraction? : Bytes → Option (Option (List Nat) × Bytes)
  | 0x2E :: r =>
    match digitRun r with
    | ([], _) => none
    | (ds, t) => some (some ds, t)
  | s => some (none, s)

/-- The power of ten, if there is one. At least one digit is required. -/
def power? : Bytes → Option (Option (Bool × List Nat) × Bytes)
  | [] => some (none, [])
  | b :: r =>
    if b = 0x65 || b = 0x45 then
      let (sign, r) := match r with
        | 0x2B :: t => (false, t)
        | 0x2D :: t => (true, t)
        | t => (false, t)
      match digitRun r with
      | ([], _) => none
      | (ds, t) => some (some (sign, ds), t)
    else some (none, b :: r)

/-- A number: a whole part without a leading zero, then fraction and power. -/
def numeral (s : Bytes) : Option (Numeral × Bytes) :=
  let (neg, s) := match s with
    | 0x2D :: t => (true, t)
    | t => (false, t)
  match digitRun s with
  | ([], _) => none
  | (0 :: _ :: _, _) => none
  | (whole, t) =>
    match fraction? t with
    | none => none
    | some (frac, t) =>
      match power? t with
      | none => none
      | some (pow, t) => some (⟨neg, whole, frac, pow⟩, t)

/-- The largest natural of 64 bits. -/
def maxWord : Nat := Nat.pow 2 64 - 1

/-- Digits appended to a significand as long as it fits 64 bits, and the digits left over. -/
def absorb : Nat → List Nat → Nat × List Nat
  | m, [] => (m, [])
  | m, d :: ds => if m * 10 + d ≤ maxWord then absorb (m * 10 + d) ds else (m, d :: ds)

/-- The number that a digit list spells. -/
def digitsValue (ds : List Nat) : Nat := ds.foldl (fun n d => n * 10 + d) 0

/-- The value of a numeral; `none` when it is beyond a 64-bit float. An integer keeps its
value when it lies between -2^63 and 2^64 - 1; digits beyond a 64-bit significand only count
towards the power of ten. -/
def Numeral.value? (x : Numeral) : Option JsonNumber :=
  let (m, excess) := absorb 0 x.whole
  match x.fraction, x.power with
  | none, none =>
    if excess ≠ [] then (Binary64.ofScanned x.negative m excess.length).map .real
    else if x.negative = false then some (.natural m)
    else if 0 < m ∧ m ≤ Nat.pow 2 63 then some (.negative m)
    else some (.real (Binary64.ofRatio true m 1))
  | frac, pow =>
    let ds := frac.getD []
    let (m, rest) := absorb m ds
    let e : Int := excess.length - (ds.length - rest.length : Nat)
    let e : Int := match pow with
      | none => e
      | some (true, ps) => e - digitsValue ps
      | some (false, ps) => e + digitsValue ps
    (Binary64.ofScanned x.negative m e).map .real

/-- A number that is used. -/
def number (s : Bytes) : Option (JsonNumber × Bytes) :=
  match numeral s with
  | none => none
  | some (x, t) => x.value?.map (·, t)

/-! ## 4. Values that are passed over

The structure of a value without the value. Nothing is kept, and the depth is bounded by the length
of the document alone. -/

mutual

/-- What follows a value of any depth. The first argument bounds the nesting and the number of
parts; the number of bytes is always enough. -/
def skipValue : Nat → Bytes → Option Bytes
  | 0, _ => none
  | n + 1, s =>
    match skipSpace s with
    | [] => none
    | b :: r =>
      if b = 0x6E then word? restOfNull r
      else if b = 0x74 then word? restOfTrue r
      else if b = 0x66 then word? restOfFalse r
      else if b = 0x22 then skipContent 0 r
      else if b = 0x2D || isDigit b then (numeral (b :: r)).map (·.2)
      else if b = 0x5B then
        match skipSpace r with
        | 0x5D :: t => some t
        | t => skipItems n t
      else if b = 0x7B then
        match skipSpace r with
        | 0x7D :: t => some t
        | t => skipMembers n t
      else none

/-- What follows the items of an array that has at least one more. -/
def skipItems : Nat → Bytes → Option Bytes
  | 0, _ => none
  | n + 1, s =>
    match skipValue n s with
    | none => none
    | some t =>
      match skipSpace t with
      | 0x5D :: u => some u
      | 0x2C :: u => skipItems n u
      | _ => none

/-- What follows the members of an object that has at least one more. -/
def skipMembers : Nat → Bytes → Option Bytes
  | 0, _ => none
  | n + 1, s =>
    match skipSpace s with
    | 0x22 :: r =>
      match skipContent 0 r with
      | none => none
      | some t =>
        match skipSpace t with
        | 0x3A :: u =>
          match skipValue n u with
          | none => none
          | some v =>
            match skipSpace v with
            | 0x7D :: w => some w
            | 0x2C :: w => skipMembers n w
            | _ => none
        | _ => none
    | _ => none

end

/-- What follows the value at the start of `s`. -/
def skip (s : Bytes) : Option Bytes := skipValue (s.length + 1) s

end UpgradeScan.JsonText
