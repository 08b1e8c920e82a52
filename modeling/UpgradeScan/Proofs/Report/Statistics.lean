/-
`Proofs/Report/Statistics.lean` -- what is shown of a tally.

What the tally holds is known (`Proofs/Report/Tally.lean`); here it is compared with what a reader
of the statistics sees. Three things could go wrong on the way. The counts could fail to add up to
the number of findings. The count could be lost in its share, which is a text with a percentage
before it. And the shares are written into an object one after another, where a second member with
the same name would replace the first.

None of them happens. Every finding has one confidence and one category, each listed once, so the
counts of either kind add up to the number of findings (`sum_countP_of_count_eq_one`). A share shows
its count in parentheses at its end, where it can be read off again (`shownCount?_share`); without
any finding the zero that is shown is the count itself. And no two names of a tally are equal, so
writing its shares into an object loses none and merges none (`foldl_insertMember_shares`).

All of this is gathered in the structure `Tally.Counts`, which says what it means for a table to
count the findings of a report.
-/
import UpgradeScan.Report.Share
import UpgradeScan.Proofs.Number.Natural
import UpgradeScan.Proofs.Report.Tally
import Mathlib.Algebra.BigOperators.Group.List.Basic
import Mathlib.Algebra.GroupWithZero.Nat

set_option autoImplicit false

namespace UpgradeScan

namespace Tally

/-! ## 1. Sums of counts

Counting by a key and adding up the counts is counting everything, when every key that occurs is
listed once. Confidences and categories are two instances: the list of confidences is complete, and
the list of categories is that of those that occur. -/

/-- Adding up where a key is met is counting how often it is listed. -/
theorem sum_indicator {α : Type} [DecidableEq α] (as : List α) (k : α) :
    (as.map fun a => if k = a then 1 else 0).sum = as.count k := by
  induction as with
  | nil => rfl
  | cons a as ih =>
    rw [List.map_cons, List.sum_cons, ih, List.count_cons, Nat.add_comm]
    simp only [beq_iff_eq, @eq_comm _ k a]

/-- Counting by a key counts everything once, if each key that occurs is listed once. -/
theorem sum_countP_of_count_eq_one {α β : Type} [DecidableEq α] {all : List α} {key : β → α}
    {xs : List β} (hall : ∀ x ∈ xs, all.count (key x) = 1) :
    (all.map fun a => xs.countP fun x => key x = a).sum = xs.length := by
  induction xs with
  | nil => simp
  | cons x xs ih =>
    rw [List.forall_mem_cons] at hall
    simp only [List.countP_cons, decide_eq_true_eq, List.sum_map_add, ih hall.2, sum_indicator,
      hall.1, List.length_cons]

/-- Counting by a key whose values are each listed once counts everything once. -/
theorem sum_countP_eq_length {α β : Type} [DecidableEq α] {all : List α}
    (hall : ∀ k, all.count k = 1) (key : β → α) (xs : List β) :
    (all.map fun a => xs.countP fun x => key x = a).sum = xs.length :=
  sum_countP_of_count_eq_one fun x _ => hall (key x)

/-- Every finding is strong or weak, and not both. -/
theorem sum_confidences (fs : List Finding) :
    (fs.countP fun f => f.confidence = .strong) + (fs.countP fun f => f.confidence = .weak) =
      fs.length := by
  have hsum := sum_countP_eq_length (fun k => by cases k <;> rfl : ∀ k, Confidence.all.count k = 1)
    Finding.confidence fs
  simpa [Confidence.all] using hsum

/-- The counts of the categories that occur add up to the number of findings. -/
theorem sum_ofCategories (fs : List Finding) :
    ((ofFindings fs).ofCategories.map (·.2)).sum = fs.length := by
  have hcount : ∀ f ∈ fs, (categoriesOf fs).count f.category = 1 := by
    intro f hf
    exact List.count_eq_one_of_mem (nodup_categoriesOf fs)
      (mem_categoriesOf.mpr (List.mem_map_of_mem hf))
  rw [ofCategories_ofFindings, List.map_map, ← sum_countP_of_count_eq_one hcount]
  rfl

/-! ## 2. Counts on display

A share is a number when there is nothing to share, and a text otherwise. In the text the count
stands between the last two parentheses, in decimal digits; the percentage before it has none. -/

/-- The count in a share: the digits between its last parenthesis and the closing one. A number is
the count itself. -/
def shownCount? : Json → Option Nat
  | .number (.natural n) => some n
  | .string s =>
    match s.toList.reverse with
    | ')' :: before => Number.natural? (before.takeWhile (· != '(')).reverse
    | _ => none
  | _ => none

/-- The count is read off the text of a share, whatever the percentage before it says. -/
theorem shownCount?_shareText (count total : Nat) :
    shownCount? (.string (shareText count total)) = some count := by
  have hdigits : ∀ c ∈ (Number.digits count).reverse, (c != '(') = true := by
    intro c hc
    have := Number.isDigit_of_mem_digits (List.mem_reverse.mp hc)
    rw [bne_iff_ne]
    rintro rfl
    exact absurd this (by decide)
  have htext : (shareText count total).toList.reverse =
      ')' :: ((Number.digits count).reverse ++
        '(' :: ' ' :: '%' :: (percent count total).oneDecimal.reverse) := by
    simp [shareText]
  rw [shownCount?, htext]
  simp only
  rw [List.takeWhile_append_of_pos hdigits, List.takeWhile_cons_of_neg (by decide),
    List.append_nil, List.reverse_reverse, Number.natural?_digits]

/-- What is shown of a count that is part of the total is the count. -/
theorem shownCount?_share {count total : Nat} (h : count ≤ total) :
    shownCount? (share count total) = some count := by
  by_cases htotal : total = 0
  · rw [share, if_pos htotal, show count = 0 by omega]
    rfl
  · rw [share, if_neg htotal, shownCount?_shareText]

/-- A share is the number zero only when there is nothing to share. -/
theorem share_eq_zero_iff {count total : Nat} : share count total = Json.ofNat 0 ↔ total = 0 := by
  by_cases h : total = 0 <;> simp [share, h, Json.ofNat]

/-- Under a name of the tally stands the share of its count, and nothing stands under any other
name. -/
theorem lookup_shares (t : Tally) (total : Nat) (name : String) :
    (t.shares total).lookup name = (t.get? name).map fun n => share n total := by
  induction t with
  | nil => rfl
  | cons e t ih =>
    rw [get?_cons]
    by_cases h : e.1.name = name
    · simp [shares, h]
    · have hne : (name == e.1.name) = false := by simpa using Ne.symm h
      simpa [shares, List.lookup_cons, h, hne] using ih

/-- Members with distinct names, written into an object one after another, stand there in their
order. -/
theorem foldl_insertMember {ms more : List (String × Json)}
    (h : ((ms ++ more).map (·.1)).Nodup) :
    more.foldl (fun acc m => Json.insertMember m.1 m.2 acc) ms = ms ++ more := by
  induction more generalizing ms with
  | nil => rw [List.foldl_nil, List.append_nil]
  | cons m more ih =>
    have hm : m.1 ∉ ms.map (·.1) := by
      intro hmem
      rw [List.map_append, List.map_cons] at h
      exact (List.nodup_append.mp h).2.2 _ hmem _ List.mem_cons_self rfl
    have happend : ms ++ m :: more = (ms ++ [m]) ++ more := by
      rw [List.append_assoc]
      rfl
    rw [List.foldl_cons, Json.insertMember_of_not_mem hm, happend]
    exact ih (happend ▸ h)

/-- The shares have the names of the tally, in their order. -/
theorem names_shares (t : Tally) (total : Nat) : (t.shares total).map (·.1) = t.names := by
  rw [shares, List.map_map]
  rfl

/-- Writing the shares into an object one after another merges none and loses none. -/
theorem foldl_insertMember_shares {t : Tally} (h : t.names.Nodup) (total : Nat) :
    t.foldl (fun ms e => Json.insertMember e.1.name (share e.2 total) ms) [] = t.shares total := by
  have hnodup : ((([] : Statistics) ++ t.shares total).map (·.1)).Nodup := by
    rw [List.nil_append, names_shares]
    exact h
  have hfold := foldl_insertMember hnodup
  rw [shares, List.foldl_map, List.nil_append] at hfold
  exact hfold

end Tally

/-- The count that statistics show under a name. -/
def Statistics.countAt? (s : Statistics) (name : String) : Option Nat :=
  (s.lookup name).bind Tally.shownCount?

/-! ## 3. The tally of a report

The facts about tallies of lists of findings, as one statement about a report. -/

/-- The tally counts the findings of the report: under the name of each confidence, and of each
category that occurs, stands the number of findings that have it, and nothing stands under any other
name. The confidences come first and the categories follow as they were first met. The counts of
either kind add up to the number of findings. Statistics for any total, written one after another,
show the same names in the same order. -/
structure Tally.Counts (t : Tally) (r : Report) : Prop where
  names_nodup : t.names.Nodup
  names : t.names = "STRONG" :: "WEAK" :: (categoriesOf r.findings).map Category.name
  confidence : ∀ k : Confidence, t.get? k.name = some (r.findings.countP fun f => f.confidence = k)
  category : ∀ k ∈ categoriesOf r.findings,
    t.get? k.name = some (r.findings.countP fun f => f.category = k)
  other : ∀ name, name ∉ t.names → t.get? name = none
  sum_confidences : ∃ strong weak, t.get? "STRONG" = some strong ∧ t.get? "WEAK" = some weak ∧
    strong + weak = r.count
  sum_categories : (t.ofCategories.map (·.2)).sum = r.count
  statistics : ∀ total,
    t.foldl (fun ms e => Json.insertMember e.1.name (share e.2 total) ms) [] = t.shares total ∧
      (t.shares total).map (·.1) = t.names

/-- **The tally of a report.** It counts every finding, once by confidence and once by category. -/
theorem Report.tally_counts (r : Report) : r.tally.Counts r := by
  have hnodup : r.tally.names.Nodup := Tally.nodup_names_ofFindings r.findings
  constructor
  case names_nodup => exact hnodup
  case names => exact Tally.names_ofFindings r.findings
  case confidence => exact Tally.get?_ofFindings_confidence r.findings
  case category =>
    intro k hk
    refine Tally.get?_of_mem hnodup (e := (.category k, _)) ?_
    rw [tally, Tally.entries_ofFindings]
    exact List.mem_append_right _ (List.mem_map_of_mem hk)
  case other => exact fun name h => (Tally.get?_eq_none_iff _ name).mpr h
  case sum_confidences =>
    exact ⟨_, _, Tally.get?_ofFindings_confidence r.findings .strong,
      Tally.get?_ofFindings_confidence r.findings .weak, Tally.sum_confidences r.findings⟩
  case sum_categories => exact Tally.sum_ofCategories r.findings
  case statistics =>
    exact fun total => ⟨Tally.foldl_insertMember_shares hnodup total, Tally.names_shares _ total⟩

end UpgradeScan
