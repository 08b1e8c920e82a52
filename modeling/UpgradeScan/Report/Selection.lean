/-
`Report/Selection.lean` -- the part of a report that was asked for.

A selection keeps the findings that pass a test, in their order, and the files that still have one.
The directory stays even when nothing is left.

A file that had no finding to begin with is dropped as well, so to keep everything is not to leave
the report as it is. Both kinds of selection are the same function with another test.
-/
import UpgradeScan.Report.Basic

set_option autoImplicit false

namespace UpgradeScan.Report

/-- The file with the findings that pass. -/
def keepIn (test : Finding → Bool) (f : FileReport) : FileReport :=
  { f with findings := f.findings.filter test }

/-- The report with the findings that pass, without the files that are then empty. -/
def keep (test : Finding → Bool) (r : Report) : Report :=
  { r with files := (r.files.map (keepIn test)).filter fun f => f.findings != [] }

/-- The findings about one of the categories. -/
def keepCategories (allowed : List Category) (r : Report) : Report :=
  r.keep fun f => allowed.contains f.category

/-- The findings with one of the confidences. -/
def keepConfidences (allowed : List Confidence) (r : Report) : Report :=
  r.keep fun f => allowed.contains f.confidence

/-! ## Small facts

What a selection leaves, as seen from the directory and from the list of all findings. -/

/-- A selection is from the same directory. -/
@[simp] theorem path_keep (test : Finding → Bool) (r : Report) : (r.keep test).path = r.path := rfl

/-- The findings of a selection are those of the report that pass. -/
theorem findings_keep (test : Finding → Bool) (r : Report) :
    (r.keep test).findings = r.findings.filter test := by
  obtain ⟨p, files⟩ := r
  simp only [findings, keep]
  induction files with
  | nil => rfl
  | cons f fs ih =>
    simp only [List.map_cons, List.flatMap_cons, List.filter_append, ← ih]
    by_cases h : (keepIn test f).findings = []
    · have h' : f.findings.filter test = [] := h
      simp [h, h']
    · have h' : f.findings.filter test ≠ [] := h
      simp only [keepIn] at ih ⊢
      rw [List.filter_cons_of_pos (by simpa using h'), List.flatMap_cons]

end UpgradeScan.Report
