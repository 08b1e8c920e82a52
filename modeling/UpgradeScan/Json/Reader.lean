/-
`Json/Reader.lean` -- JSON values read from text.

Nesting is limited to 127 containers, a repeated member name keeps its first place and takes its
last value, and nothing but blanks may follow the value.

The reader builds on the tokens and knows of no particular content. It is what literals in templates
are read with. There are two arguments that go down: the depth that is left, which is part of the
format and can be met by a document, and a bound on the number of parts, which is not and cannot.
-/
import UpgradeScan.Json.Cursor

set_option autoImplicit false

namespace UpgradeScan.JsonText

/-- The greatest number of open containers. -/
def maxDepth : Nat := 127

mutual

/-- One value: `n` bounds the number of parts, `depth` is the number of containers that may
still be opened. -/
def value : Nat → Nat → Bytes → Option (Json × Bytes)
  | 0, _, _ => none
  | n + 1, depth, s =>
    match skipSpace s with
    | [] => none
    | b :: r =>
      if b = 0x6E then (word? restOfNull r).map (.null, ·)
      else if b = 0x74 then (word? restOfTrue r).map (.bool true, ·)
      else if b = 0x66 then (word? restOfFalse r).map (.bool false, ·)
      else if b = 0x22 then (string r).map fun (v, t) => (.string v, t)
      else if b = 0x2D || isDigit b then (number (b :: r)).map fun (v, t) => (.number v, t)
      else if b = 0x5B then
        match depth with
        | 0 => none
        | depth + 1 =>
          match skipSpace r with
          | 0x5D :: t => some (.array [], t)
          | t => (items n depth t).map fun (vs, u) => (.array vs, u)
      else if b = 0x7B then
        match depth with
        | 0 => none
        | depth + 1 =>
          match skipSpace r with
          | 0x7D :: t => some (.object [], t)
          | t => (members n depth [] t).map fun (ms, u) => (.object ms, u)
      else none

/-- The items of an array that has at least one more. -/
def items : Nat → Nat → Bytes → Option (List Json × Bytes)
  | 0, _, _ => none
  | n + 1, depth, s =>
    match value n depth s with
    | none => none
    | some (v, t) =>
      match skipSpace t with
      | 0x5D :: u => some ([v], u)
      | 0x2C :: u => (items n depth u).map fun (vs, w) => (v :: vs, w)
      | _ => none

/-- The members of an object that has at least one more, after those given. -/
def members : Nat → Nat → List (String × Json) → Bytes → Option (List (String × Json) × Bytes)
  | 0, _, _, _ => none
  | n + 1, depth, ms, s =>
    match skipSpace s with
    | 0x22 :: r =>
      match string r with
      | none => none
      | some (k, t) =>
        match skipSpace t with
        | 0x3A :: u =>
          match value n depth u with
          | none => none
          | some (v, w) =>
            let ms := Json.insertMember k v ms
            match skipSpace w with
            | 0x7D :: x => some (ms, x)
            | 0x2C :: x => members n depth ms x
            | _ => none
        | _ => none
    | _ => none

end

end UpgradeScan.JsonText

namespace UpgradeScan.Json

/-- The value that a document spells. -/
def parse? (s : Bytes) : Option Json :=
  match JsonText.value (s.length + 1) JsonText.maxDepth s with
  | some (v, t) => if JsonText.skipSpace t = [] then some v else none
  | none => none

end UpgradeScan.Json
