/-
`Proofs/Report/Passes.lean` -- one selection after another.

A pass lets through the findings whose category, or whose confidence, is in its set, and drops the
files that it leaves without any. Passes are made in some order, and a file that one pass empties is
no longer there for the next, so a run of passes looks as if it depended on its order.

It does not. Two selections in a row are the selection by both tests (`keep_keep`): a file that the
first one drops is one that the second would have dropped, since a file without findings stays
without them. By induction over the passes, a run is one selection, by the test that asks for all
their sets at once (`through_cons`). What follows is read off that test. It only asks which passes
occur, so they commute and a repeated one does nothing (`through_eq_of_mem_iff`); and a larger set
in one of them accepts all that was accepted before (`occurrences_through_sublist`).

The run has to have a first pass. Without any, nothing is selected, and files that had no finding to
begin with are still there; with one pass they are gone, whatever its set is.
-/
import UpgradeScan.Report.Selection
import Mathlib.Data.List.Basic

set_option autoImplicit false

namespace UpgradeScan.Report

/-! ## 1. Selecting twice

A selection works file by file: it filters the findings of each and drops the files that are left
without one. Both steps are settled by the test, so that two selections can be compared by their
tests alone. -/

/-- Filtering the findings of one file twice is filtering them by both tests. -/
theorem keepIn_keepIn (s t : Finding → Bool) (f : FileReport) :
    keepIn t (keepIn s f) = keepIn (fun g => s g && t g) f := by
  simp only [keepIn, List.filter_filter, Bool.and_comm]

/-- A second selection works on what the first one left, as if it had been made at once. -/
theorem keep_keep (s t : Finding → Bool) (r : Report) :
    (r.keep s).keep t = r.keep fun g => s g && t g := by
  obtain ⟨path, files⟩ := r
  simp only [keep, Report.mk.injEq, true_and]
  induction files with
  | nil => rfl
  | cons f fs ih =>
    have hboth := keepIn_keepIn s t f
    by_cases hs : (keepIn s f).findings = []
    · -- the first selection drops the file; nothing in it passes both tests
      have hst : (keepIn (fun g => s g && t g) f).findings = [] := by
        rw [← hboth, keepIn, hs, List.filter_nil]
      simp [hs, hst, ih]
    · simp [hs, hboth, List.filter_cons, ih]

theorem keep_congr {s t : Finding → Bool} (h : ∀ g, s g = t g) (r : Report) : r.keep s = r.keep t :=
  congrArg (r.keep ·) (funext h)

/-- The findings of a report, each with the path of the file that it is listed under. -/
def occurrences (r : Report) : List (Path × Finding) :=
  r.files.flatMap fun f => f.findings.map fun g => (f.path, g)

/-- A selection takes no finding out of its file. -/
theorem occurrences_keep (t : Finding → Bool) (r : Report) :
    (r.keep t).occurrences = r.occurrences.filter fun o => t o.2 := by
  obtain ⟨path, files⟩ := r
  simp only [occurrences, keep]
  induction files with
  | nil => rfl
  | cons f fs ih =>
    have hfile : (f.findings.map fun g => (f.path, g)).filter (fun o => t o.2) =
        (keepIn t f).findings.map fun g => (f.path, g) := by
      rw [List.filter_map]
      rfl
    rw [List.flatMap_cons, List.filter_append, ← ih, hfile, List.map_cons]
    by_cases h : (keepIn t f).findings = []
    · simp [h]
    · rw [List.filter_cons_of_pos (by simpa using h), List.flatMap_cons]
      rfl

/-! ## 2. Passes

The two kinds of passes differ in what they look at, and in nothing else: each is the selection by a
test on single findings (`Pass.lets`). Sequences are taken apart from the front, as the fold over
them is. -/

/-- One pass over a report, with the set of what it lets through. -/
inductive Pass where
  | categories (allowed : List Category)
  | confidences (allowed : List Confidence)
  deriving DecidableEq, Repr

/-- The report after a pass. -/
def Pass.apply : Pass → Report → Report
  | .categories allowed, r => r.keepCategories allowed
  | .confidences allowed, r => r.keepConfidences allowed

/-- The report after several passes, the first one first. -/
def through (passes : List Pass) (r : Report) : Report := passes.foldl (fun r p => p.apply r) r

/-- The sets of categories that passes used. -/
def categorySets (passes : List Pass) : List (List Category) :=
  passes.filterMap fun
    | .categories allowed => some allowed
    | .confidences _ => none

/-- The sets of confidences that passes used. -/
def confidenceSets (passes : List Pass) : List (List Confidence) :=
  passes.filterMap fun
    | .categories _ => none
    | .confidences allowed => some allowed

/-- The finding lies in every set that was used. -/
def InAllSets (passes : List Pass) (g : Finding) : Prop :=
  (∀ s ∈ categorySets passes, g.category ∈ s) ∧ ∀ s ∈ confidenceSets passes, g.confidence ∈ s

instance (passes : List Pass) (g : Finding) : Decidable (InAllSets passes g) :=
  inferInstanceAs (Decidable (_ ∧ _))

/-- The second pass is of the same kind and lets through no less. -/
def Pass.Within : Pass → Pass → Prop
  | .categories s, .categories t => s ⊆ t
  | .confidences s, .confidences t => s ⊆ t
  | _, _ => False

/-- A finding passes. -/
def Pass.lets : Pass → Finding → Bool
  | .categories allowed, g => allowed.contains g.category
  | .confidences allowed, g => allowed.contains g.confidence

/-- Either kind of pass is a selection by its test. -/
theorem Pass.apply_eq_keep (p : Pass) (r : Report) : p.apply r = r.keep p.lets := by
  cases p <;> rfl

/-- A pass with a larger set lets through whatever the smaller one does. -/
theorem Pass.Within.lets {p q : Pass} (h : p.Within q) {g : Finding} (hp : p.lets g = true) :
    q.lets g = true := by
  cases p <;> cases q <;> simp_all only [Pass.Within, Pass.lets, List.contains_iff_mem]
  · exact h hp
  · exact h hp

/-- One more pass adds its own set to those that a finding has to lie in. -/
theorem inAllSets_cons_iff (p : Pass) (ps : List Pass) (g : Finding) :
    InAllSets (p :: ps) g ↔ p.lets g = true ∧ InAllSets ps g := by
  cases p <;>
    simp [InAllSets, categorySets, confidenceSets, Pass.lets, and_assoc, and_left_comm]

/-- To lie in every set that was used is to be let through by every pass; the order of the passes is
no part of it. -/
theorem inAllSets_iff_forall_lets (ps : List Pass) (g : Finding) :
    InAllSets ps g ↔ ∀ p ∈ ps, p.lets g = true := by
  induction ps with
  | nil => simp [InAllSets, categorySets, confidenceSets]
  | cons p ps ih => rw [inAllSets_cons_iff, ih, List.forall_mem_cons]

/-- Passes in a row are one selection. The first pass is taken apart because a sequence without
any does not drop the files that had no finding before. -/
theorem through_cons (p : Pass) (ps : List Pass) (r : Report) :
    through (p :: ps) r = r.keep fun g => decide (InAllSets (p :: ps) g) := by
  have hrun : ∀ (ps : List Pass) (t : Finding → Bool),
      ps.foldl (fun r p => p.apply r) (r.keep t) =
        r.keep fun g => t g && decide (InAllSets ps g) := by
    intro ps
    induction ps with
    | nil =>
      intro t
      refine keep_congr (fun g => ?_) r
      simp [InAllSets, categorySets, confidenceSets]
    | cons q qs ih =>
      intro t
      rw [List.foldl_cons, Pass.apply_eq_keep, keep_keep, ih]
      refine keep_congr (fun g => ?_) r
      simp only [inAllSets_cons_iff, Bool.decide_and, Bool.decide_eq_true, Bool.and_assoc]
  rw [through, List.foldl_cons, Pass.apply_eq_keep, hrun]
  refine keep_congr (fun g => ?_) r
  simp only [inAllSets_cons_iff, Bool.decide_and, Bool.decide_eq_true]

/-- Neither the order of the passes nor how often one is made matters. -/
theorem through_eq_of_mem_iff {p q : Pass} {ps qs : List Pass}
    (h : ∀ x, x ∈ p :: ps ↔ x ∈ q :: qs) (r : Report) :
    through (p :: ps) r = through (q :: qs) r := by
  rw [through_cons, through_cons]
  refine keep_congr (fun g => decide_eq_decide.mpr ?_) r
  simp only [inAllSets_iff_forall_lets, h]

/-- A larger set in one of the passes keeps every finding, in its file and in its place. -/
theorem occurrences_through_sublist {p q : Pass} (h : p.Within q) (before after : List Pass)
    (r : Report) : (through (before ++ p :: after) r).occurrences.Sublist
      (through (before ++ q :: after) r).occurrences := by
  have hsets : ∀ g, InAllSets (before ++ p :: after) g → InAllSets (before ++ q :: after) g := by
    intro g hg
    rw [inAllSets_iff_forall_lets, List.forall_mem_append, List.forall_mem_cons] at hg ⊢
    exact ⟨hg.1, h.lets hg.2.1, hg.2.2⟩
  have hkeep : ∀ x : Pass, through (before ++ x :: after) r =
      r.keep fun g => decide (InAllSets (before ++ x :: after) g) := by
    intro x
    cases before with
    | nil => exact through_cons x after r
    | cons b bs => exact through_cons b (bs ++ x :: after) r
  rw [hkeep, hkeep, occurrences_keep, occurrences_keep]
  refine List.monotone_filter_right _ fun o ho => ?_
  exact decide_eq_true (hsets o.2 (of_decide_eq_true ho))

/-- **Any sequence of passes is one selection.** It keeps the directory, of each file the findings
that lie in every set used, and the files that still have one, all in their order. So passes
commute, a repeated one does nothing, and a larger set loses no finding. -/
theorem through_eq_selection (p : Pass) (ps : List Pass) (r : Report) :
    through (p :: ps) r =
      { path := r.path
        files := (r.files.map fun f =>
          { f with findings := f.findings.filter fun g => decide (InAllSets (p :: ps) g) }).filter
            fun f => f.findings ≠ [] } ∧
    (∀ q : Pass, q.apply (p.apply r) = p.apply (q.apply r)) ∧
    p.apply (p.apply r) = p.apply r ∧
    ∀ (q : Pass) (before after : List Pass), p.Within q →
      (through (before ++ p :: after) r).occurrences.Sublist
        (through (before ++ q :: after) r).occurrences := by
  refine ⟨?_, fun q => ?_, ?_, fun q before after h => occurrences_through_sublist h before after r⟩
  · rw [through_cons]
    refine congrArg (Report.mk r.path) (List.filter_congr fun f _ => ?_)
    rw [Bool.eq_iff_iff, bne_iff_ne, decide_eq_true_iff]
  · have hsame : through [p, q] r = through [q, p] r :=
      through_eq_of_mem_iff (by simp [or_comm]) r
    exact hsame
  · have hsame : through [p, p] r = through [p] r := through_eq_of_mem_iff (by simp) r
    exact hsame

/-- Of two files, one with nothing in it, after a pass for each kind: a strong feature is dropped,
and comes back when features are let through. -/
theorem through_eq_selection_two_files :
    let strong : Category → Finding := fun c => ⟨c, .strong, "R.rst", ⟨"/a.php"⟩, 3, ""⟩
    let weak : Finding := ⟨.breaking, .weak, "R.rst", ⟨"/a.php"⟩, 5, ""⟩
    let r : Report :=
      ⟨⟨"/"⟩, [⟨⟨"/a.php"⟩, [strong .feature, weak, strong .breaking]⟩, ⟨⟨"/b.php"⟩, []⟩]⟩
    let narrow : Pass := .categories [.breaking]
    let wide : Pass := .categories [.feature, .breaking]
    narrow.Within wide ∧
    through [.confidences [.strong], narrow] r = ⟨⟨"/"⟩, [⟨⟨"/a.php"⟩, [strong .breaking]⟩]⟩ ∧
    (through [.confidences [.strong], narrow] r).occurrences.Sublist
      (through [.confidences [.strong], wide] r).occurrences := by
  intro strong weak r narrow wide
  have hwithin : narrow.Within wide := by
    change [Category.breaking] ⊆ [.feature, .breaking]
    decide
  refine ⟨hwithin, ?_, (through_eq_selection narrow [] r).2.2.2 wide [_] [] hwithin⟩
  rw [(through_eq_selection (.confidences [.strong]) [narrow] r).1]
  decide

end UpgradeScan.Report
