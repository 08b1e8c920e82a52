/-
`Proofs/Report/Halves.lean` -- a report taken apart by categories.

The findings of some categories and the findings of all others are two reports, each without the
files that have none of its own. The question is what becomes of the statistics: whoever looks at
one half wants to see the numbers of the whole there, and whoever has both wants them to add up.

Neither is obvious from the code, which counts a half from scratch. It holds for two different
reasons. In the tally of a half the categories of the half stand as they stood in the whole, in
their order and with their counts, since no finding of theirs is left out
(`Tally.ofCategories_filter`). Nothing adds up there, because no category is in both halves. What is
counted without regard to the category, the confidences and the findings themselves, is spread over
both halves and does add up, because the tests of the two halves are each other's negation
(`Report.countP_halves`).

That no finding is lost or counted twice is stated about occurrences, so about findings together
with the files that they are listed under: `partition` of the whole gives both halves, each in the
order of the whole. The files need not be dealt out in the same way, since a file with findings of
both kinds is in both halves.
-/
import UpgradeScan.Proofs.Report.Passes
import UpgradeScan.Proofs.Report.Tally

set_option autoImplicit false

namespace UpgradeScan

/-! ## 1. The other categories

The other half is a selection like the first, by a list of categories. It is the complement among
all categories, so that the two lists never share one and miss none. -/

/-- The categories that are not among these. -/
def Category.others (allowed : List Category) : List Category :=
  Category.all.filter fun k => !allowed.contains k

/-- The test of the other half is the negation of the first. -/
theorem Category.contains_others (allowed : List Category) (k : Category) :
    (others allowed).contains k = !allowed.contains k := by
  rw [Bool.eq_iff_iff, List.contains_iff_mem, others, List.mem_filter]
  exact and_iff_right (mem_all k)

/-! ## 2. Findings left out by their category

A tally of the findings that are left is compared with the tally of all. Both are lists of entries
in the order of first findings, and leaving out whole categories does not change the order in which
the others are met. -/

namespace Tally

/-- Leaving out whole categories leaves the others in the order in which they are first met. -/
theorem categoriesOf_filter (p : Category → Bool) (fs : List Finding) :
    categoriesOf (fs.filter fun f => p f.category) = (categoriesOf fs).filter p := by
  rw [categoriesOf, categoriesOf, ← eraseDups_filter, List.filter_map]
  rfl

/-- The entries of the categories that are left are those of the whole tally. -/
theorem ofCategories_filter (allowed : List Category) (fs : List Finding) :
    (ofFindings (fs.filter fun f => allowed.contains f.category)).ofCategories =
      (ofFindings fs).ofCategories.filter fun e => e.1 ∈ allowed.map Label.category := by
  have hlabel : ∀ k : Category,
      decide (Label.category k ∈ allowed.map Label.category) = allowed.contains k := by
    simp
  rw [ofCategories_ofFindings, ofCategories_ofFindings, categoriesOf_filter, List.filter_map]
  simp only [Function.comp_def, hlabel]
  refine List.map_congr_left fun k hk => ?_
  have hk : allowed.contains k = true := (List.mem_filter.mp hk).2
  rw [List.countP_filter]
  -- every finding of the category is among those that are left
  refine congrArg (Prod.mk _) (List.countP_congr fun f _ => ?_)
  rw [Bool.and_eq_true, decide_eq_true_eq]
  exact and_iff_left_of_imp fun hf => hf ▸ hk

end Tally

/-! ## 3. Both halves

`Report.Halves` says what two reports have to do with a third when its findings are dealt out to
them. It is a structure, so that each fact has a name; that the two selections satisfy it is the
theorem at the end. -/

namespace Report

/-- The half of the other categories is what the test of the first one refuses. -/
theorem keepCategories_others (allowed : List Category) (r : Report) :
    r.keepCategories (Category.others allowed) = r.keep fun f => !allowed.contains f.category :=
  keep_congr (fun f => Category.contains_others allowed f.category) r

/-- The categories of a half have the entries that they have in the whole. -/
theorem ofCategories_keepCategories (allowed : List Category) (r : Report) :
    (r.keepCategories allowed).tally.ofCategories =
      r.tally.ofCategories.filter fun e => e.1 ∈ allowed.map Label.category := by
  have hfindings : (r.keepCategories allowed).findings =
      r.findings.filter fun f => allowed.contains f.category := findings_keep _ r
  rw [tally, hfindings, Tally.ofCategories_filter, tally]

/-- What a test counts in one half and in the other is what it counts in the whole. -/
theorem countP_halves (q : Finding → Bool) (allowed : List Category) (r : Report) :
    r.findings.countP q = (r.keepCategories allowed).findings.countP q +
      (r.keepCategories (Category.others allowed)).findings.countP q := by
  rw [keepCategories_others, keepCategories, findings_keep, findings_keep]
  exact List.countP_eq_countP_filter_add _ _ _

/-- The findings of a report are dealt out to two others by their categories. -/
structure Halves (allowed : List Category) (r kept rest : Report) : Prop where
  /-- The categories of a half are listed in the order of the whole and with its counts. -/
  categories : kept.tally.ofCategories =
    r.tally.ofCategories.filter fun e => e.1 ∈ allowed.map Label.category
  otherCategories : rest.tally.ofCategories =
    r.tally.ofCategories.filter fun e => e.1 ∈ (Category.others allowed).map Label.category
  confidence : ∀ k : Confidence, ∃ m n, kept.tally.get? k.name = some m ∧
    rest.tally.get? k.name = some n ∧ r.tally.get? k.name = some (m + n)
  count : kept.count + rest.count = r.count
  /-- Every finding stays in its file and goes to one half, in the order of the whole. -/
  dealt : r.occurrences.partition (fun o => allowed.contains o.2.category) =
    (kept.occurrences, rest.occurrences)
  together : (kept.occurrences ++ rest.occurrences).Perm r.occurrences

/-- **Taking a report apart by categories.** In the tally of one half the entries of categories are
those of the whole report, in their order, that are in the half. The counts of the two halves add up
to those of the whole, for each confidence and in all. Every finding goes to one of the halves and
not to the other. -/
theorem halves_of_categories (allowed : List Category) (r : Report) :
    Halves allowed r (r.keepCategories allowed) (r.keepCategories (Category.others allowed)) := by
  have hkept : (r.keepCategories allowed).occurrences =
      r.occurrences.filter fun o => allowed.contains o.2.category := occurrences_keep _ r
  have hrest : (r.keepCategories (Category.others allowed)).occurrences =
      r.occurrences.filter fun o => !allowed.contains o.2.category := by
    rw [keepCategories_others]
    exact occurrences_keep _ r
  constructor
  case categories => exact ofCategories_keepCategories allowed r
  case otherCategories => exact ofCategories_keepCategories (Category.others allowed) r
  case confidence =>
    intro k
    refine ⟨_, _, Tally.get?_ofFindings_confidence _ k, Tally.get?_ofFindings_confidence _ k, ?_⟩
    rw [tally, Tally.get?_ofFindings_confidence, countP_halves _ allowed r]
  case count =>
    have hall := countP_halves (fun _ => true) allowed r
    simp only [List.countP_true] at hall
    exact hall.symm
  case dealt =>
    rw [List.partition_eq_filter_filter, hkept, hrest]
    rfl
  case together =>
    rw [hkept, hrest]
    exact List.filter_append_perm _ _

end Report

end UpgradeScan
