/-
`Process/Format.lean` -- printing by a pattern.

A pattern is a list of pieces: bytes that are printed as they are, and places that each take the
next argument. As long as arguments are left the pattern begins again, unless it has no place; a
place without an argument gets nothing.

What does not fit a place is printed as far as it fits, and told afterwards. Printing ends early at
a place that is unknown, or where an argument says so.
-/
import UpgradeScan.Number.Shortest
import UpgradeScan.Process.Escape

set_option autoImplicit false

namespace UpgradeScan.Tool

/-- What a place makes of its argument. -/
inductive Conversion where
  /-- The text as it is. -/
  | text
  /-- The text with its backslashes carried out. -/
  | escaped
  /-- The first character. -/
  | first
  /-- An integer in decimal digits. -/
  | integer
  deriving DecidableEq, Repr

/-- A place of a pattern. -/
structure Place where
  conversion : Conversion
  /-- Filled up on the right. -/
  isLeft : Bool
  /-- Filled up with zeros. -/
  isZeroed : Bool
  width : Nat
  precision : Option Nat
  deriving DecidableEq, Repr

/-- A piece of a pattern. -/
inductive FormatPiece where
  | bytes (b : Bytes)
  | place (p : Place)
  /-- An unknown place, after which nothing is printed any more. -/
  | invalid (lead : String)
  deriving DecidableEq, Repr

/-- The conversions by their letters. -/
def conversionOf : List (Char × Conversion) :=
  [('s', .text), ('b', .escaped), ('c', .first), ('d', .integer), ('i', .integer)]

/-- The number that some digits at the front of a text make, and how many they are. -/
def leadingNumber (s : List Char) : Nat × Nat :=
  let ds := s.takeWhile fun c => (Number.digit? 10 c).isSome
  ((Number.ofDigits? 10 ds).getD 0, ds.length)

/-- The place after a percent sign, and its length. -/
def place (s : List Char) : FormatPiece × Nat :=
  let flags := s.takeWhile "#-+ 0".toList.contains
  let r := s.drop flags.length
  let (w, k) := leadingNumber r
  let r := r.drop k
  let (p, j) : Option Nat × Nat := match r with
    | '.' :: q =>
      let (n, i) := leadingNumber q
      (some n, i + 1)
    | _ => (none, 0)
  let n := flags.length + k + j
  match r.drop j with
  | [] => (.invalid (String.ofList ('%' :: s)), n)
  | c :: _ =>
    match conversionOf.lookup c with
    | some v => (.place ⟨v, flags.contains '-', flags.contains '0', w, p⟩, n + 1)
    | none => (.invalid (String.ofList ('%' :: s.take (n + 1))), n + 1)

/-- The pieces of a pattern. The first argument counts the characters that are still to be
passed over. -/
def formatPieces : Nat → List Char → List FormatPiece
  | _, [] => []
  | n + 1, _ :: r => formatPieces n r
  | 0, c :: r =>
    if c = '\\' then
      match escape? r with
      | some (b, k) => .bytes [b] :: formatPieces k r
      | none => .bytes [92] :: formatPieces 0 r
    else if c = '%' then
      if r.head? = some '%' then .bytes [37] :: formatPieces 1 r
      else
        let (p, k) := place r
        p :: formatPieces k r
    else .bytes (Text.Utf8.encode [c]) :: formatPieces 0 r

/-- The sign, the digits and the rest of a text that should be an integer. -/
def integer? (s : List Char) : Option Int :=
  match s with
  | [] => some 0
  | '-' :: r => (Number.ofDigits? 10 r).map fun n => -(n : Int)
  | '+' :: r => (Number.ofDigits? 10 r).map fun n => (n : Int)
  | r => (Number.ofDigits? 10 r).map fun n => (n : Int)

/-- An integer in decimal digits. -/
def integerText (n : Int) : String :=
  (if n < 0 then "-" else "") ++ String.ofList (Number.digits n.natAbs)

/-- Bytes filled up to the width of a place. -/
def Place.fill (p : Place) (b : Bytes) : Bytes :=
  let n := p.width - b.length
  if p.isLeft then b ++ List.replicate n 32
  else if p.isZeroed && p.conversion == .integer then
    if b.head? = some 45 then 45 :: (List.replicate n 48 ++ b.drop 1)
    else List.replicate n 48 ++ b
  else List.replicate n 32 ++ b

/-- Bytes cut to the precision of a place. -/
def Place.cut (p : Place) (b : Bytes) : Bytes :=
  match p.precision with
  | some n => b.take n
  | none => b

/-- What a place prints for an argument, whether printing goes on, and whether the argument
fitted. -/
def Place.print (p : Place) (arg : String) : Bytes × Bool × Bool :=
  match p.conversion with
  | .text => (p.fill (p.cut (Text.Utf8.bytes arg)), true, true)
  | .escaped =>
    let (b, more) := unescape arg
    (p.fill (p.cut b), more, true)
  | .first => (p.fill ((Text.Utf8.bytes arg).take 1), true, true)
  | .integer =>
    match integer? arg.toList with
    | some n => (p.fill (Text.Utf8.bytes (integerText n)), true, true)
    | none => (p.fill (Text.Utf8.bytes "0"), true, false)

/-- What came of printing: the bytes, the arguments that did not fit, the place that is unknown,
and whether printing may go on. -/
structure Printed where
  bytes : Bytes
  misfits : List String
  unknown : Option String
  goesOn : Bool

/-- Something printed in front. -/
def Printed.after (b : Bytes) (p : Printed) : Printed := { p with bytes := b ++ p.bytes }

/-- The pieces of a pattern printed once, and the arguments that are left. -/
def printOnce : List FormatPiece → List String → Printed × List String
  | [], args => (⟨[], [], none, true⟩, args)
  | .bytes b :: ps, args =>
    let (p, rest) := printOnce ps args
    (p.after b, rest)
  | .invalid lead :: _, args => (⟨[], [], some lead, false⟩, args)
  | .place f :: ps, args =>
    let arg := args.headD ""
    match f.print arg with
    | (b, false, _) => (⟨b, [], none, false⟩, args.drop 1)
    | (b, true, fits) =>
      let (p, rest) := printOnce ps (args.drop 1)
      ({ p.after b with misfits := if fits then p.misfits else arg :: p.misfits }, rest)

/-- A pattern printed again as long as it takes arguments and some are left. Every round takes
one at least, so their number bounds the rounds. -/
def printAll : Nat → List FormatPiece → List String → Printed
  | 0, ps, args => (printOnce ps args).1
  | n + 1, ps, args =>
    let (p, rest) := printOnce ps args
    if rest = [] ∨ rest.length = args.length ∨ !p.goesOn then p
    else
      let q := printAll n ps rest
      { q.after p.bytes with misfits := p.misfits ++ q.misfits }

end UpgradeScan.Tool
