/-
`Json/Basic.lean` -- JSON values.

Object members keep the order in which they were written, and a number remembers which of three
forms it has: a natural below 2^64, a negative integer from -2^63, or a 64-bit float.

Members are a list and their names may repeat in it; the readers and the printer say for themselves
what they do about that. Where a value is looked up, the first member of a name counts. The forms of
numbers are kept apart because they are printed differently: a float always shows a point or a
power, an integer never does.
-/
import UpgradeScan.Number.Shortest

set_option autoImplicit false

namespace UpgradeScan

/-- A number as the data format distinguishes them. -/
inductive JsonNumber where
  /-- A natural number below 2^64. -/
  | natural (n : Nat)
  /-- The integer `-n`, with `0 < n ≤ 2^63`. -/
  | negative (n : Nat)
  /-- Any other number. -/
  | real (x : Number.Binary64)
  deriving DecidableEq, Repr, Inhabited

/-- A JSON value. -/
inductive Json where
  | null
  | bool (b : Bool)
  | number (n : JsonNumber)
  | string (s : String)
  | array (items : List Json)
  | object (members : List (String × Json))
  deriving Inhabited, BEq

namespace Json

/-- A number that is a natural. -/
def ofNat (n : Nat) : Json := .number (.natural n)

/-- The first member of that name. -/
def member? (k : String) : Json → Option Json
  | .object ms => (ms.find? (·.1 == k)).map (·.2)
  | _ => none

/-- The characters of a string value. -/
def string? : Json → Option String
  | .string s => some s
  | _ => none

/-- Members with one more: a name that is present keeps its place and gets the new value. -/
def insertMember (k : String) (v : Json) (ms : List (String × Json)) : List (String × Json) :=
  if ms.any (·.1 == k) then ms.map fun m => if m.1 == k then (k, v) else m
  else ms ++ [(k, v)]

/-- A name that is not present comes last. -/
theorem insertMember_of_not_mem {k : String} {v : Json} {ms : List (String × Json)}
    (h : k ∉ ms.map (·.1)) : insertMember k v ms = ms ++ [(k, v)] := by
  have hany : ms.any (·.1 == k) = false := by
    rw [List.any_eq_false]
    intro m hm hk
    rw [beq_iff_eq] at hk
    exact h (hk ▸ List.mem_map_of_mem hm)
  rw [insertMember, hany, if_neg (by decide)]

end Json

end UpgradeScan
