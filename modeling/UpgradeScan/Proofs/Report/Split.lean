/-
`Proofs/Report/Split.lean` -- reports put together from parts.

A list of files may be cut anywhere and each part be treated as a report of its own. Selecting works
on each file by itself, so the passes over the whole are the passes over the parts, one after the
other (`through_append`). A count is a number of findings, so the counts add up.

Only the names of a tally need care. They stand in the order in which categories are first met, and
a category of the second part may have been met in the first. So the names of the whole are those of
the first part, and then those of the second that the first one lacks (`Tally.names_append`); the
same holds of the deduplicated categories, from which it follows.

The second question is what the order of the files matters. For the counts it does not matter at
all, and neither does the order inside a file: both rearrangements permute the list of all findings,
and a count is that of a permutation (`Tally.get?_ofFindings_of_perm`). The order of the names does
depend on it, so nothing is said about the names of a rearranged report.
-/
import UpgradeScan.Proofs.Report.Passes
import UpgradeScan.Proofs.Report.Tally
import Mathlib.Data.List.Forall2
import Mathlib.Data.List.Perm.Basic

set_option autoImplicit false

namespace UpgradeScan

/-! ## 1. Tallies of two parts

A tally is made from a list of findings, so parts of a report are parts of that list. What is found
under a name is a number or nothing; nothing stands for none when numbers are added. -/

namespace Tally

/-- The categories of the second part that the first one lacks come after those of the first. -/
theorem categoriesOf_append (fs gs : List Finding) : categoriesOf (fs ++ gs) =
    categoriesOf fs ++ (categoriesOf gs).filter fun k => k ∉ categoriesOf fs := by
  rw [categoriesOf, List.map_append, List.eraseDups_append, List.removeAll, eraseDups_filter]
  refine congrArg (_ ++ ·) (List.filter_congr fun k _ => ?_)
  rw [List.elem_eq_mem, ← decide_not, decide_eq_decide, mem_categoriesOf]

/-- The names of the second part that the first one lacks come after those of the first. -/
theorem names_append (fs gs : List Finding) : (ofFindings (fs ++ gs)).names =
    (ofFindings fs).names ++ (ofFindings gs).names.filter fun k => k ∉ (ofFindings fs).names := by
  have hconfidences : (Confidence.all.map Confidence.name).filter
      (fun k => k ∉ (ofFindings fs).names) = [] := by
    rw [List.filter_eq_nil_iff]
    intro k hk
    rw [names_ofFindings]
    simp [List.mem_append_left _ hk]
  have hcategory : ∀ k : Category, k.name ∈ (ofFindings fs).names ↔ k ∈ categoriesOf fs := by
    intro k
    have hlabel : k.name = (Label.category k).name := rfl
    rw [names_eq, hlabel, List.mem_map_of_injective fun _ _ => Label.name_injective,
      labels_ofFindings]
    simp
  rw [names_ofFindings (fs ++ gs), names_ofFindings gs, List.filter_append, hconfidences,
    List.nil_append, List.filter_map, categoriesOf_append, List.map_append, ← List.append_assoc,
    ← names_ofFindings fs]
  simp only [Function.comp_def, hcategory]

/-- A name is in the tally with a count, or is not in it. -/
theorem get?_eq_ite (t : Tally) (name : String) :
    t.get? name = if name ∈ t.names then some ((t.get? name).getD 0) else none := by
  have hnone := t.get?_eq_none_iff name
  by_cases h : name ∈ t.names
  · rw [if_pos h]
    cases hget : t.get? name with
    | none => exact absurd h (hnone.mp hget)
    | some n => rfl
  · rw [if_neg h]
    exact hnone.mpr h

/-- The order of the findings does not matter for what is found under a name. -/
theorem get?_ofFindings_of_perm {fs gs : List Finding} (h : fs.Perm gs) (name : String) :
    (ofFindings fs).get? name = (ofFindings gs).get? name := by
  have hnames : name ∈ (ofFindings fs).names ↔ name ∈ (ofFindings gs).names := by
    have hmem : ∀ k, k ∈ categoriesOf fs ↔ k ∈ categoriesOf gs := by
      intro k
      rw [mem_categoriesOf, mem_categoriesOf, (h.map _).mem_iff]
    rw [names_ofFindings, names_ofFindings]
    simp only [List.mem_append, List.mem_map, hmem]
  rw [get?_eq_ite, get?_eq_ite (ofFindings gs), getD_get?_ofFindings, getD_get?_ofFindings,
    h.countP_eq]
  simp only [hnames]

end Tally

/-! ## 2. Reports of two parts

Files are cut into two lists, or rearranged together with their findings. Every statement about the
report of the parts is made at the path of the whole. -/

namespace Report

/-- Selecting in two parts of a list of files selects in the whole. -/
theorem keep_append (test : Finding → Bool) (p : Path) (A B : List FileReport) :
    (Report.mk p (A ++ B)).keep test =
      ⟨p, ((Report.mk p A).keep test).files ++ ((Report.mk p B).keep test).files⟩ := by
  simp only [keep, List.map_append, List.filter_append]

/-- Passes over a list of files are made part by part. -/
theorem through_append (passes : List Pass) (p : Path) (A B : List FileReport) :
    through passes ⟨p, A ++ B⟩ =
      ⟨p, (through passes ⟨p, A⟩).files ++ (through passes ⟨p, B⟩).files⟩ := by
  induction passes generalizing A B with
  | nil => rfl
  | cons q passes ih =>
    have hpart : ∀ C : List FileReport,
        q.apply ⟨p, C⟩ = ⟨p, ((Report.mk p C).keep q.lets).files⟩ := by
      intro C
      rw [Pass.apply_eq_keep]
      rfl
    have hstep : ∀ r : Report, through (q :: passes) r = through passes (q.apply r) := fun _ => rfl
    rw [hstep, hstep, hstep, Pass.apply_eq_keep, keep_append, ih, hpart A, hpart B]

/-- The findings of two parts, one after the other, are those of the whole. -/
theorem findings_append (p : Path) (A B : List FileReport) :
    (Report.mk p (A ++ B)).findings = (Report.mk p A).findings ++ (Report.mk p B).findings :=
  List.flatMap_append

/-- The same files in any order, each with its findings in any order. -/
def Reordered (A B : List FileReport) : Prop :=
  ∃ C, A.Perm C ∧ List.Forall₂ (fun f g => f.path = g.path ∧ f.findings.Perm g.findings) C B

/-- Rearranged files with rearranged findings have the same findings in all. -/
theorem Reordered.findings_perm {A B : List FileReport} (h : Reordered A B) (p : Path) :
    (Report.mk p A).findings.Perm (Report.mk p B).findings := by
  obtain ⟨C, hfiles, hinside⟩ := h
  refine (hfiles.flatMap_right _).trans ?_
  clear hfiles
  induction hinside with
  | nil => exact List.Perm.refl _
  | cons h _ ih =>
    rw [findings, List.flatMap_cons]
    exact h.2.append ih

/-- **Parts of a report.** Files that are cut into two lists are selected part by part; the number
of findings and the count under every name are sums; the names of the whole are those of the first
part and then those that only the second part has. Files in another order, or findings in another
order in their files, leave the number of findings and every count as they are. -/
theorem split_files (p : Path) (A B : List FileReport) :
    let whole := Report.mk p (A ++ B)
    let first := Report.mk p A
    let second := Report.mk p B
    (∀ passes, through passes whole =
      ⟨p, (through passes first).files ++ (through passes second).files⟩) ∧
    whole.count = first.count + second.count ∧
    (∀ name, (whole.tally.get? name).getD 0 =
      (first.tally.get? name).getD 0 + (second.tally.get? name).getD 0) ∧
    whole.tally.names =
      first.tally.names ++ second.tally.names.filter (fun k => k ∉ first.tally.names) ∧
    ∀ C, Reordered (A ++ B) C → (Report.mk p C).count = whole.count ∧
      ∀ name, (Report.mk p C).tally.get? name = whole.tally.get? name := by
  intro whole first second
  have hfindings : whole.findings = first.findings ++ second.findings := findings_append p A B
  refine ⟨fun passes => through_append passes p A B, ?_, ?_, ?_, ?_⟩
  · rw [count, hfindings, List.length_append]
    rfl
  · intro name
    rw [tally, tally, tally, hfindings, Tally.getD_get?_ofFindings, Tally.getD_get?_ofFindings,
      Tally.getD_get?_ofFindings, List.countP_append]
  · rw [tally, hfindings]
    exact Tally.names_append _ _
  · intro C h
    have hperm := h.findings_perm p
    exact ⟨hperm.length_eq.symm, fun name => (Tally.get?_ofFindings_of_perm hperm name).symm⟩

/-- Two files that share a category: it is named once, where the first one has it, and counted
twice. With the files and the findings of one of them turned around, features still count two. -/
theorem split_files_shared_category :
    let g : Category → Confidence → Finding := fun k l => ⟨k, l, "R.rst", ⟨"/a.php"⟩, 3, ""⟩
    let a : FileReport := ⟨⟨"/a.php"⟩, [g .breaking .strong, g .feature .weak]⟩
    let b : FileReport := ⟨⟨"/b.php"⟩, [g .feature .strong, g .deprecation .strong]⟩
    let b' : FileReport := ⟨⟨"/b.php"⟩, [g .deprecation .strong, g .feature .strong]⟩
    let whole : Report := ⟨⟨"/"⟩, [a] ++ [b]⟩
    Reordered ([a] ++ [b]) [b', a] ∧
    whole.tally.names = ["STRONG", "WEAK", "BREAKING", "FEATURE"] ++ ["DEPRECATION"] ∧
    (whole.tally.get? "FEATURE").getD 0 = 1 + 1 ∧
    (Report.mk ⟨"/"⟩ [b', a]).tally.get? "FEATURE" = some 2 := by
  intro g a b b' whole
  have hreordered : Reordered ([a] ++ [b]) [b', a] := by
    refine ⟨[b, a], List.Perm.swap b a [], List.Forall₂.cons ⟨rfl, ?_⟩ ?_⟩
    · exact List.Perm.swap _ _ []
    · exact List.Forall₂.cons ⟨rfl, List.Perm.refl _⟩ List.Forall₂.nil
  obtain ⟨-, -, hcount, hnames, hreorder⟩ := split_files ⟨"/"⟩ [a] [b]
  exact ⟨hreordered, hnames.trans (by decide), (hcount "FEATURE").trans (by decide),
    ((hreorder _ hreordered).2 "FEATURE").trans (by decide)⟩

end Report

end UpgradeScan
