/-
`Template/Chance.lean` -- what rendering leaves to chance.

Two things show in a report that neither the template nor the data decide.

The first is the order of named arguments. They are kept in a table without an order of its own, and
whoever goes through the table meets them in one that is different from table to table and from run
to run. It shows where two arguments fail for different reasons, since the first one met is the one
reported, and where a template goes through the members of the data that named arguments have become
a part of. Nothing is known about this order but that it is one of the orders of the arguments, so
that is all that is said about it here: a list of numbers picks one order for each time that
arguments are gone through, any list may come up, and every order has a number.

The second is how many templates can be embedded in one another before the stack is full.
-/
set_option autoImplicit false

namespace UpgradeScan.Template

/-- A list in one of its orders. The number says in which one, and 0 stands for the order at hand:
the first part goes to a place among the others, which are in an order of their own. -/
def arrange {α : Type} : Nat → List α → List α
  | _, [] => []
  | k, x :: xs => (arrange (k / (xs.length + 1)) xs).insertIdx (k % (xs.length + 1)) x

/-- What comes up in one rendering. -/
structure Chance where
  /-- The number of templates, embedded in one another, that the stack has room for. -/
  levels : Nat := 256
  /-- The orders in which named arguments are met, one for each time. After the last one they are
  met as they are written. -/
  orders : List Nat := []
  deriving DecidableEq, Repr, Inhabited

end UpgradeScan.Template
