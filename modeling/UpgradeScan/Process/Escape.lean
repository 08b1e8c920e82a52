/-
`Process/Escape.lean` -- what a backslash stands for in the text that a tool prints.

A backslash stands for a control character or, with up to three octal digits, for a byte; the bytes
need not be UTF-8 together. An unknown one stands for itself.

One of them ends all printing at once, so what is carried out has a second part besides the bytes.
-/
import UpgradeScan.Number.Literal
import UpgradeScan.Text.Utf8

set_option autoImplicit false

namespace UpgradeScan.Tool

/-- The control characters that have a letter. -/
def letterOf : List (Char × UInt8) :=
  [('a', 7), ('b', 8), ('f', 12), ('n', 10), ('r', 13), ('t', 9), ('v', 11), ('\\', 92)]

/-- What stands after a backslash at the front of a text: the byte and the length, if the text
is known. -/
def escape? : List Char → Option (UInt8 × Nat)
  | [] => none
  | c :: r =>
    match letterOf.lookup c with
    | some b => some (b, 1)
    | none =>
      let ds := (c :: r).take 3 |>.takeWhile fun d => (Number.digit? 8 d).isSome
      if ds = [] then none
      else (Number.ofDigits? 8 ds).map fun n => (UInt8.ofNat n, ds.length)

/-- A text with its backslashes carried out; `\c` ends all printing, which the flag tells, and
an octal number may have a zero before its three digits. The first argument counts the
characters that are still to be passed over. -/
def unescapeFrom : Nat → List Char → Bytes × Bool
  | _, [] => ([], true)
  | n + 1, _ :: r => unescapeFrom n r
  | 0, c :: r =>
    if c = '\\' then
      match r with
      | 'c' :: _ => ([], false)
      | z :: d :: s =>
        let long := z == '0' && (Number.digit? 8 d).isSome
        match escape? (if long then d :: s else r) with
        | some (b, k) =>
          let (bs, more) := unescapeFrom (if long then k + 1 else k) r
          (b :: bs, more)
        | none =>
          let (bs, more) := unescapeFrom 0 r
          (92 :: bs, more)
      | _ =>
        match escape? r with
        | some (b, k) =>
          let (bs, more) := unescapeFrom k r
          (b :: bs, more)
        | none =>
          let (bs, more) := unescapeFrom 0 r
          (92 :: bs, more)
    else
      let (bs, more) := unescapeFrom 0 r
      (Text.Utf8.encode [c] ++ bs, more)

/-- A text with its backslashes carried out, and whether printing goes on. -/
def unescape (s : String) : Bytes × Bool := unescapeFrom 0 s.toList

end UpgradeScan.Tool
