/-
`Proofs/Text/Split.lean` -- what the lines of a text are, and what a replaced word leaves.

`HasLines` says what the lines of a sequence are without saying how they are found: up to its first
newline the sequence is one line, and a return directly before that newline belongs to the line end.
Every sequence has exactly one list of lines (`hasLines_iff`), and a line is taken off at each
newline (`lines_append_newline`). `InPlaceOf` does the same for the replacement of a word: the
pieces between two occurrences stay, and none of them has a further occurrence.

Both functions are used on characters and on bytes, so everything is stated for sequences of any
kind, with the newline and the return as two members of it. That the two differ is needed, and it is
the only condition.

The lines are computed by one pass over the sequence, which would make a proof about the n-th line
an argument about that pass. With `lineInduction` it is an argument about lines: a statement is
shown for a sequence without newlines, and then for one that has a line in front. The relation has
its constructors at the same places.
-/
import UpgradeScan.Text.Split
import Mathlib.Data.List.Infix

set_option autoImplicit false

namespace UpgradeScan.Text

variable {α : Type} [DecidableEq α] {nl cr : α} {l s : List α} {ls : List (List α)}

/-! ## 1. Lines

A line ends before a newline, or before a return and a newline; a return anywhere else stays in its
line. What follows the last newline counts as a line only if it has a character, so that a text that
ends with a newline has no empty line at its end. -/

/-- A line without the return at its end. -/
def withoutReturn (cr : α) (l : List α) : List α :=
  if l.getLast? = some cr then l.dropLast else l

/-- The lines of a sequence: each ends before a newline, or before a return directly followed by
one; what follows the last newline is a line when it is not empty. -/
inductive HasLines (nl cr : α) : List α → List (List α) → Prop
  | none : HasLines nl cr [] []
  | last {l : List α} (hne : l ≠ []) (hl : nl ∉ l) : HasLines nl cr l [l]
  | line {l rest : List α} {ls : List (List α)} (hl : nl ∉ l) (h : HasLines nl cr rest ls) :
      HasLines nl cr (l ++ nl :: rest) (withoutReturn cr l :: ls)

/-- Without a newline there is one line. -/
theorem lines_of_not_mem (hl : nl ∉ l) (hne : l ≠ []) : lines nl cr l = [l] := by
  induction l with
  | nil => exact absurd rfl hne
  | cons c l ih =>
    rw [List.mem_cons, not_or] at hl
    have hhead : l.head? ≠ some nl := fun h => hl.2 (List.mem_of_head? h)
    rw [lines, if_neg (Ne.symm hl.1), if_neg fun h => hhead h.2]
    cases l with
    | nil => rfl
    | cons d l => rw [ih hl.2 (List.cons_ne_nil d l)]

/-- A character in front of a line stays when the return at its end goes. -/
theorem withoutReturn_cons {c : α} {l : List α} (h : l ≠ []) :
    withoutReturn cr (c :: l) = c :: withoutReturn cr l := by
  rw [withoutReturn, withoutReturn, List.getLast?_cons_of_ne_nil h]
  by_cases hlast : l.getLast? = some cr
  · rw [if_pos hlast, if_pos hlast, List.dropLast_cons_of_ne_nil h]
  · rw [if_neg hlast, if_neg hlast]

/-- A newline ends a line. -/
theorem lines_append_newline (hcr : cr ≠ nl) (hl : nl ∉ l) (rest : List α) :
    lines nl cr (l ++ nl :: rest) = withoutReturn cr l :: lines nl cr rest := by
  induction l with
  | nil =>
    rw [List.nil_append, lines, if_pos rfl]
    rfl
  | cons c l ih =>
    rw [List.mem_cons, not_or] at hl
    rw [List.cons_append, lines, if_neg (Ne.symm hl.1), ih hl.2]
    cases l with
    | nil =>
      by_cases hc : c = cr
      · subst hc
        rw [if_pos ⟨rfl, rfl⟩]
        simp [withoutReturn]
      · rw [if_neg fun h => hc h.1]
        simp [withoutReturn, hc]
    | cons d l =>
      have hd : d ≠ nl := fun h => hl.2 (h ▸ List.mem_cons_self)
      have hhead : ((d :: l) ++ nl :: rest).head? ≠ some nl := by simpa using hd
      rw [if_neg fun h => hhead h.2, withoutReturn_cons (List.cons_ne_nil d l)]

/-- What holds of a sequence without newlines, and goes on over one line in front, holds of every
sequence. -/
theorem lineInduction (nl : α) {motive : List α → Prop} (last : ∀ l, nl ∉ l → motive l)
    (line : ∀ l rest, nl ∉ l → motive rest → motive (l ++ nl :: rest)) (s : List α) : motive s := by
  -- what follows the first newline is shorter
  induction hn : s.length using Nat.strongRecOn generalizing s with
  | ind n ih =>
    by_cases hmem : nl ∈ s
    · obtain ⟨l, rest, rfl, hl⟩ := List.eq_append_cons_of_mem hmem
      apply line l rest hl
      apply ih rest.length _ rest rfl
      rw [← hn, List.length_append, List.length_cons]
      omega
    · exact last s hmem

/-- The lines that are read are lines of the sequence. -/
theorem hasLines_lines (hcr : cr ≠ nl) (s : List α) : HasLines nl cr s (lines nl cr s) := by
  induction s using lineInduction nl with
  | last l hl =>
    by_cases hne : l = []
    · subst hne
      exact .none
    · rw [lines_of_not_mem hl hne]
      exact .last hne hl
  | line l rest hl ih =>
    rw [lines_append_newline hcr hl]
    exact .line hl ih

/-- **Lines.** Every sequence has one list of lines, and it is the one that is read. -/
theorem hasLines_iff (hcr : cr ≠ nl) : HasLines nl cr s ls ↔ ls = lines nl cr s := by
  constructor
  · intro h
    induction h with
    | none => rfl
    | last hne hl => exact (lines_of_not_mem hl hne).symm
    | line hl _ ih => rw [lines_append_newline hcr hl, ih]
  · rintro rfl
    exact hasLines_lines hcr s

/-! ## 2. Words

A word is replaced from the left, and the search goes on behind it. The result is described by the
pieces around the occurrences, which both texts have in common. -/

/-- The test for an end is the relation of ends. -/
theorem endsWith_iff {w : List α} : endsWith w s = true ↔ w <:+ s := by
  rw [endsWith, List.isPrefixOf_iff_prefix, List.reverse_prefix]

/-- `t` is `s` with `v` in the place of the word `w`: what stands between two occurrences of the
word stays, and the word does not occur in it. -/
def InPlaceOf (w v s t : List α) : Prop :=
  ∃ pieces : List (List α), s = join w pieces ∧ t = join v pieces ∧ ∀ p ∈ pieces, ¬ w <:+: p

/-- To pass over characters is to leave them out. -/
theorem replaceFrom_eq_drop (w v : List α) (n : Nat) (s : List α) :
    replaceFrom w v n s = replaceFrom w v 0 (s.drop n) := by
  induction n generalizing s with
  | zero => rfl
  | succ n ih =>
    cases s with
    | nil => rfl
    | cons c s => rw [replaceFrom, ih, List.drop_succ_cons]

/-- A word in front gives way, and the search goes on behind it. -/
theorem replace_word_append {w : List α} (hw : w ≠ []) (v s : List α) :
    replace w v (w ++ s) = v ++ replace w v s := by
  obtain ⟨a, w', rfl⟩ := List.exists_cons_of_ne_nil hw
  have hword : dropWord? (a :: w') (a :: (w' ++ s)) = some s := dropWord?_eq_some_iff.mpr rfl
  rw [replace, List.cons_append, replaceFrom, hword]
  simp only [List.length_cons, Nat.add_sub_cancel]
  rw [replaceFrom_eq_drop, List.drop_left, replace]

/-- Where no word begins, the character stays. -/
theorem replace_cons_of_not_prefix {w : List α} {c : α} {s : List α} (h : ¬ w <+: c :: s)
    (v : List α) : replace w v (c :: s) = c :: replace w v s := by
  have hword : dropWord? w (c :: s) = none := by
    rw [Option.eq_none_iff_forall_ne_some]
    intro r hr
    exact h ⟨r, (dropWord?_eq_some_iff.mp hr).symm⟩
  rw [replace, replaceFrom, hword, replace]

omit [DecidableEq α] in
/-- A piece before other pieces is followed by what separates them. -/
theorem join_cons_ne_nil (sep : List α) (p : List α) {ps : List (List α)} (h : ps ≠ []) :
    join sep (p :: ps) = p ++ sep ++ join sep ps := by
  obtain ⟨q, qs, rfl⟩ := List.exists_cons_of_ne_nil h
  rfl

/-- **Replacement.** Every occurrence of the word, found from the left, gives way. -/
theorem inPlaceOf_replace {w : List α} (hw : w ≠ []) (v s : List α) :
    InPlaceOf w v s (replace w v s) := by
  suffices h : ∃ pieces : List (List α), pieces ≠ [] ∧ s = join w pieces ∧
      replace w v s = join v pieces ∧ ∀ p ∈ pieces, ¬ w <:+: p by
    obtain ⟨pieces, -, hs, ht, hpieces⟩ := h
    exact ⟨pieces, hs, ht, hpieces⟩
  induction hn : s.length using Nat.strongRecOn generalizing s with
  | ind n ih =>
    by_cases hprefix : w <+: s
    · obtain ⟨r, rfl⟩ := hprefix
      have hlen : r.length < n := by
        rw [← hn, List.length_append]
        have := List.length_pos_iff.mpr hw
        omega
      obtain ⟨pieces, hne, hr, hreplace, hpieces⟩ := ih _ hlen r rfl
      refine ⟨[] :: pieces, List.cons_ne_nil _ _, ?_, ?_, ?_⟩
      · rw [join_cons_ne_nil _ _ hne, ← hr]
        rfl
      · rw [replace_word_append hw, join_cons_ne_nil _ _ hne, ← hreplace]
        rfl
      · intro p hp
        rcases List.mem_cons.mp hp with rfl | hp
        · rwa [List.infix_nil]
        · exact hpieces p hp
    · cases s with
      | nil =>
        refine ⟨[[]], List.cons_ne_nil _ _, rfl, rfl, ?_⟩
        intro p hp
        rw [List.mem_singleton.mp hp, List.infix_nil]
        exact hw
      | cons c s =>
        have hlen : s.length < n := by
          rw [← hn, List.length_cons]
          omega
        obtain ⟨pieces, hne, hs, hreplace, hpieces⟩ := ih _ hlen s rfl
        obtain ⟨q, qs, rfl⟩ := List.exists_cons_of_ne_nil hne
        -- the first piece gets one letter more, and the word does not begin there
        have hjoin : ∀ x : List α, join x ((c :: q) :: qs) = c :: join x (q :: qs) := by
          intro x
          cases qs <;> rfl
        refine ⟨(c :: q) :: qs, List.cons_ne_nil _ _, ?_, ?_, ?_⟩
        · rw [hjoin, ← hs]
        · rw [hjoin, ← hreplace, replace_cons_of_not_prefix hprefix]
        · intro p hp
          rcases List.mem_cons.mp hp with rfl | hp
          · rw [List.infix_cons_iff, not_or]
            refine ⟨fun h => hprefix (h.trans ?_), hpieces q List.mem_cons_self⟩
            rw [hs, ← hjoin]
            cases qs with
            | nil => exact List.prefix_rfl
            | cons r rs =>
              rw [join, List.append_assoc]
              exact List.prefix_append _ _
          · exact hpieces p (List.mem_cons_of_mem _ hp)

end UpgradeScan.Text
