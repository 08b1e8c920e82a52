/-
`Proofs/Template/Order.lean` -- the orders in which named arguments are met.

A number stands for an order of a list. This says nothing more and nothing less than that the order
is one of the list: what a number gives is always a permutation, and every permutation has a number.
So a statement for all numbers is one for every order that a table of arguments may have, and no
order is ruled out by how it is written down.

Most templates leave nothing to it. Where no tag has two named arguments there is nothing to bring
into an order, and such templates are called settled here. The property is one of the text alone and
can be computed. It looks into everything that a template brings along: the bodies of its blocks,
the calls inside its arguments, and the templates that it defines on the way.
-/
import UpgradeScan.Template.Render
import Mathlib.Data.List.Perm.Basic

set_option autoImplicit false

namespace UpgradeScan.Template

/-! ## 1. Every order and nothing but orders

The list is taken apart as `arrange` does it. What it does at the first part can be undone: the
place of that part is the remainder of the number, and the order of the others its quotient. -/

section

variable {α : Type} {k : Nat} {xs ys : List α}

/-- What a number gives is an order of the list. -/
theorem arrange_perm (k : Nat) (xs : List α) : (arrange k xs).Perm xs := by
  induction xs generalizing k with
  | nil => exact .refl []
  | cons x xs ih =>
    have hrest := ih (k / (xs.length + 1))
    have hplace : k % (xs.length + 1) ≤ (arrange (k / (xs.length + 1)) xs).length := by
      rw [hrest.length_eq]
      exact Nat.le_of_lt_succ (Nat.mod_lt k (Nat.succ_pos _))
    exact (List.perm_insertIdx x _ hplace).trans (hrest.cons x)

/-- A part that goes to the place where the list was cut stands between the two pieces. -/
theorem insertIdx_length (before after : List α) (x : α) :
    (before ++ after).insertIdx before.length x = before ++ x :: after := by
  induction before with
  | nil => exact List.insertIdx_zero
  | cons y before ih => rw [List.cons_append, List.length_cons, List.insertIdx_succ_cons, ih]; rfl

/-- **Every order has a number.** The numbers of a list give its orders and nothing else. -/
theorem exists_arrange_iff : (∃ k, arrange k xs = ys) ↔ ys.Perm xs := by
  constructor
  · rintro ⟨k, rfl⟩
    exact arrange_perm k xs
  · intro h
    induction xs generalizing ys with
    | nil => exact ⟨0, h.eq_nil.symm⟩
    | cons x xs ih =>
      obtain ⟨before, after, rfl⟩ := List.append_of_mem (h.mem_iff.mpr (List.mem_cons_self ..))
      have hrest : (before ++ after).Perm xs := (List.perm_middle.symm.trans h).cons_inv
      obtain ⟨k, hk⟩ := ih hrest
      -- the place of the first part and the number of the other ones make up its number
      have hplace : before.length < xs.length + 1 := by
        rw [← hrest.length_eq, List.length_append]
        omega
      refine ⟨k * (xs.length + 1) + before.length, ?_⟩
      have hdiv : (k * (xs.length + 1) + before.length) / (xs.length + 1) = k := by
        rw [Nat.add_comm, Nat.add_mul_div_right _ _ (Nat.succ_pos _), Nat.div_eq_of_lt hplace,
          Nat.zero_add]
      have hmod : (k * (xs.length + 1) + before.length) % (xs.length + 1) = before.length := by
        rw [Nat.add_comm, Nat.add_mul_mod_self_right, Nat.mod_eq_of_lt hplace]
      rw [arrange, hdiv, hmod, hk, insertIdx_length]

end

/-! ## 2. Nothing to bring into an order

Elements are the only part of a template that holds other templates, so the property goes through
terms first and then through elements, with one clause for each place where a tag can stand. -/

mutual

/-- No call in the term has two named arguments. -/
def Term.isSettled : Term → Bool
  | .word _ => true
  | .path _ _ => true
  | .literal _ => true
  | .call head args named =>
    head.isSettled && termsSettled args && namedSettled named && decide (named.length ≤ 1)
termination_by structural t => t

/-- No call in the terms has two named arguments. -/
def termsSettled : List Term → Bool
  | [] => true
  | t :: ts => t.isSettled && termsSettled ts
termination_by structural ts => ts

/-- No call in the named terms has two named arguments. -/
def namedSettled : List (String × Term) → Bool
  | [] => true
  | (_, t) :: ts => t.isSettled && namedSettled ts
termination_by structural ts => ts

end

/-- Neither the tag nor a call in it has two named arguments. -/
def Call.isSettled (c : Call) : Bool :=
  c.head.isSettled && termsSettled c.args && namedSettled c.named && decide (c.named.length ≤ 1)

/-- A call is settled when all its parts are and at most one argument has a name. -/
theorem Call.settled_iff {c : Call} :
    c.isSettled = true ↔ c.head.isSettled = true ∧ termsSettled c.args = true ∧
      namedSettled c.named = true ∧ c.named.length ≤ 1 := by
  simp only [Call.isSettled, Bool.and_eq_true, decide_eq_true_eq, and_assoc]

mutual

/-- No tag of the element has two named arguments. -/
def Element.isSettled : Element → Bool
  | .text _ => true
  | .value c => c.isSettled
  | .block c _ body otherwise => c.isSettled && elementsSettled body && elementsSettled otherwise
  | .embed c _ body => c.isSettled && bodySettled body
  | .define c body => c.isSettled && bodySettled body
termination_by structural e => e

/-- No tag of the elements has two named arguments. -/
def elementsSettled : List Element → Bool
  | [] => true
  | e :: es => e.isSettled && elementsSettled es
termination_by structural es => es

/-- No tag of the body, if there is one, has two named arguments. -/
def bodySettled : Option (List Element) → Bool
  | none => true
  | some es => elementsSettled es
termination_by structural body => body

end

end UpgradeScan.Template
