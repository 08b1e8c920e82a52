/-
`Text/Utf8.lean` -- UTF-8 in both directions.

Reading cuts a byte sequence into characters and into maximal ill-formed runs: a run ends before the
first byte that cannot continue any well-formed character begun so far. Both ways of reading follow
from that one cut. `decode?` accepts a sequence without ill-formed runs; `decodeLossy` puts one
U+FFFD in the place of each run.

The cut goes byte by byte, with a count of the bytes that belong to the piece read last, so it is
structural although a character has up to four bytes. Which bytes may come second after a first one
is a table (`isSecond`), and it is where longer forms, surrogates and numbers beyond the last
character are kept out.
-/

set_option autoImplicit false

namespace UpgradeScan

/-- The content of a file or of a stream. -/
abbrev Bytes := List UInt8

namespace Text.Utf8

/-! ## 1. Writing

The writer is the one of the library, character by character. -/

/-- The bytes of a text. -/
def encode (s : List Char) : Bytes := s.flatMap String.utf8EncodeChar

/-- The bytes of a string. -/
def bytes (s : String) : Bytes := encode s.toList

/-! ## 2. Reading

One piece, all pieces, and what is made of them. -/

/-- A continuation byte. -/
def isTail (b : UInt8) : Bool := 0x80 ≤ b && b ≤ 0xBF

/-- The second byte of a three-byte or four-byte character that begins with `b`: the shortest
form is required, surrogates and values above U+10FFFF are excluded. -/
def isSecond (b c : UInt8) : Bool :=
  if b = 0xE0 then 0xA0 ≤ c && c ≤ 0xBF
  else if b = 0xED then 0x80 ≤ c && c ≤ 0x9F
  else if b = 0xF0 then 0x90 ≤ c && c ≤ 0xBF
  else if b = 0xF4 then 0x80 ≤ c && c ≤ 0x8F
  else isTail c

/-- The payload of a continuation byte. -/
def low (b : UInt8) : Nat := b.toNat % 64

/-- The first piece of `b :: r`: a character, or `none` for a maximal ill-formed run, and the
number of bytes of `r` that belong to it. -/
def piece (b : UInt8) (r : Bytes) : Option Char × Nat :=
  if b < 0x80 then (some (Char.ofNat b.toNat), 0)
  else if b < 0xC2 || 0xF5 ≤ b then (none, 0)
  else if b < 0xE0 then
    match r with
    | c :: _ =>
      if isTail c then (some (Char.ofNat (b.toNat % 32 * 64 + low c)), 1) else (none, 0)
    | [] => (none, 0)
  else if b < 0xF0 then
    match r with
    | c :: d :: _ =>
      if isSecond b c then
        if isTail d then
          (some (Char.ofNat (b.toNat % 16 * 4096 + low c * 64 + low d)), 2)
        else (none, 1)
      else (none, 0)
    | [c] => (none, if isSecond b c then 1 else 0)
    | [] => (none, 0)
  else
    match r with
    | c :: d :: e :: _ =>
      if isSecond b c then
        if isTail d then
          if isTail e then
            (some (Char.ofNat (b.toNat % 8 * 262144 + low c * 4096 + low d * 64 + low e)), 3)
          else (none, 2)
        else (none, 1)
      else (none, 0)
    | [c, d] => (none, if isSecond b c then if isTail d then 2 else 1 else 0)
    | [c] => (none, if isSecond b c then 1 else 0)
    | [] => (none, 0)

/-- Characters, and `none` for each maximal ill-formed run. The first argument counts the
bytes that belong to the piece given last. -/
def scanFrom : Nat → Bytes → List (Option Char)
  | _, [] => []
  | n + 1, _ :: r => scanFrom n r
  | 0, b :: r => (piece b r).1 :: scanFrom (piece b r).2 r

/-- The pieces of a byte sequence. -/
def scan (b : Bytes) : List (Option Char) := scanFrom 0 b

/-- Every piece a character, or nothing. -/
def allSome : List (Option Char) → Option (List Char)
  | [] => some []
  | none :: _ => none
  | some c :: r => (allSome r).map (c :: ·)

/-- The text spelled by the bytes, when they are well-formed. -/
def decode? (b : Bytes) : Option (List Char) := allSome (scan b)

/-- The text spelled by the bytes, with U+FFFD for each ill-formed run. -/
def decodeLossy (b : Bytes) : List Char := (scan b).map (·.getD '\uFFFD')

/-- `decode?` as a string. -/
def string? (b : Bytes) : Option String := (decode? b).map String.ofList

/-- `decodeLossy` as a string. -/
def lossy (b : Bytes) : String := String.ofList (decodeLossy b)

/-- The bytes of two texts one after the other. -/
theorem encode_append (s t : List Char) : encode (s ++ t) = encode s ++ encode t := by
  simp [encode]

end Text.Utf8

/-- A text without the byte order mark of its encoding. -/
def Text.dropMark : List Char → List Char
  | '\uFEFF' :: r => r
  | s => s

end UpgradeScan
