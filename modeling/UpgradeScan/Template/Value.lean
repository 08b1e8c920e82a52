/-
`Template/Value.lean` -- how values of the data are shown, tested and compared in templates.

A value that stands in its place is shown as text, and most values show all of themselves; an object
is only named. Tests ask whether there is anything: zero, no text, no item and no member count as
nothing. Two values are the same when they say the same: the order in which the members of an object
were written says nothing, and neither does the sign of a zero, but a float is never the same as an
integer. Only values of one kind have an order.

All of these are functions of values alone, by recursion on them. What a template adds, such as a
helper that compares two arguments, is in the module about rendering.
-/
import UpgradeScan.Json.Printer
import UpgradeScan.Text.Utf8

set_option autoImplicit false

namespace UpgradeScan.Template

mutual

/-- The text that a value puts in its place: nothing for `null`, a fixed word for an object. -/
def shown : Json → String
  | .null => ""
  | .bool true => "true"
  | .bool false => "false"
  | .number n => String.ofList n.text
  | .string s => s
  | .array [] => "[]"
  | .array (x :: xs) => "[" ++ shown x ++ shownItems xs
  | .object _ => "[object]"
termination_by structural v => v

/-- The items after the first, and the closing bracket. -/
def shownItems : List Json → String
  | [] => "]"
  | x :: xs => ", " ++ shown x ++ shownItems xs
termination_by structural v => v

end

/-- The number is not zero, nor so small that it is held with less than full precision. -/
def isNonZero : JsonNumber → Bool
  | .natural n => n != 0
  | .negative _ => true
  | .real x => x.isNormal

/-- The value passes a test. With `zero`, every number does. -/
def holds (zero : Bool) : Json → Bool
  | .null => false
  | .bool b => b
  | .number n => zero || isNonZero n
  | .string s => !s.isEmpty
  | .array xs => !xs.isEmpty
  | .object ms => !ms.isEmpty

/-- The order of two numbers. -/
def compareNumbers : JsonNumber → JsonNumber → Ordering
  | .natural a, .natural b => compare a b
  | .negative a, .negative b => compare b a
  | .natural _, .negative _ => .gt
  | .negative _, .natural _ => .lt
  | a, b => (toReal a).compare (toReal b)
where
  /-- The float nearest to a number. -/
  toReal : JsonNumber → Number.Binary64
    | .natural n => Number.Binary64.ofNat n
    | .negative n => Number.Binary64.ofRatio true n 1
    | .real x => x

/-- The numbers are the same one in the same form; the two zeros of a float are. -/
def sameNumber : JsonNumber → JsonNumber → Bool
  | .natural a, .natural b => a == b
  | .negative a, .negative b => a == b
  | .real a, .real b => a.compare b == .eq
  | _, _ => false

mutual

/-- The values are the same. Objects are when they have the same members in whatever order. -/
def same : Json → Json → Bool
  | .null, .null => true
  | .bool a, .bool b => a == b
  | .number a, .number b => sameNumber a b
  | .string a, .string b => a == b
  | .array xs, .array ys => sameItems xs ys
  | .object ms, .object ns => ms.length == ns.length && sameMembers ms ns
  | _, _ => false
termination_by structural v => v

/-- The items are the same, one by one. -/
def sameItems : List Json → List Json → Bool
  | [], [] => true
  | x :: xs, y :: ys => same x y && sameItems xs ys
  | _, _ => false
termination_by structural xs => xs

/-- Each of the first members has the same value among the others. -/
def sameMembers : List (String × Json) → List (String × Json) → Bool
  | [], _ => true
  | (k, v) :: ms, ns =>
    (match ns.lookup k with
      | some w => same v w
      | none => false) && sameMembers ms ns
termination_by structural ms => ms

end

/-- The order of two values of one kind; values of different kinds have none. -/
def compareValues : Json → Json → Option Ordering
  | .number a, .number b => some (compareNumbers a b)
  | .string a, .string b => some (compareOfLessAndEq a b)
  | .bool a, .bool b => some (compare a.toNat b.toNat)
  | _, _ => none

/-- The number of parts of a value: items, members, or bytes of its text. -/
def sizeOf : Json → Nat
  | .array xs => xs.length
  | .object ms => ms.length
  | .string s => (Text.Utf8.bytes s).length
  | _ => 0

end UpgradeScan.Template
