/-
`Proofs/Report/Tally.lean` -- what a tally holds.

A tally is written by going through the findings once. Each finding adds one to the entry of its
confidence and one to the entry of its category, and an entry that is not there yet is put at the
end. What the finished tally holds should be said without that loop: both confidences stand first,
then the categories that occur, in the order of their first findings, and under each name stands the
number of the findings that have it.

The way there is to look at one more finding, which is the only step of the loop, and to argue by
induction from the end of the list. A tally is seen as a table: one more of a label changes what is
found under the name of that label and nothing else (`get?_add`), and adds the label at the end when
it was not there (`labels_add`). This settles the labels and the counts separately. The labels are
distinct throughout, and a list of entries with distinct labels is determined by its labels and by
what is found under their names, so that nothing is left to say (`entries_ofFindings`).

Labels are found by their names, which are texts, and the two kinds of labels share one space of
names. That no two of them collide is checked once (`Label.name_injective`); every lookup below
rests on it.
-/
import UpgradeScan.Report.Tally
import Mathlib.Data.List.Induction
import Mathlib.Data.List.Nodup

set_option autoImplicit false

namespace UpgradeScan

/-! ## 1. First occurrences

The categories of a tally stand in the order of their first findings, which is that of the
deduplicated list. Two facts about deduplicating are needed that are not about tallies. -/

section FirstOccurrences

variable {α : Type} [DecidableEq α]

/-- What passes a test is met for the first time in the same order. -/
theorem eraseDups_filter (p : α → Bool) (as : List α) :
    (as.filter p).eraseDups = as.eraseDups.filter p := by
  induction h : as.length using Nat.strongRecOn generalizing as with
  | _ n ih =>
    cases as with
    | nil => rfl
    | cons a as =>
      have hlt : (as.filter fun b => !b == a).length < n := by
        rw [← h, List.length_cons]
        exact Nat.lt_succ_of_le (List.length_filter_le _ as)
      have hrest := ih _ hlt (as.filter fun b => !b == a) rfl
      rw [List.eraseDups_cons]
      by_cases hp : p a = true
      · rw [List.filter_cons_of_pos hp, List.filter_cons_of_pos hp, List.eraseDups_cons, ← hrest,
          List.filter_filter, List.filter_filter]
        simp only [Bool.and_comm]
      · rw [List.filter_cons_of_neg hp, List.filter_cons_of_neg hp, ← hrest, List.filter_filter]
        -- where the first one fails, leaving out what equals it changes nothing
        congr 1
        refine List.filter_congr fun b _ => ?_
        by_cases hb : b = a
        · simp [hb, hp]
        · simp [hb]

/-- One more at the end is new, or changes nothing. -/
theorem eraseDups_concat (as : List α) (a : α) :
    (as ++ [a]).eraseDups = if a ∈ as then as.eraseDups else as.eraseDups ++ [a] := by
  rw [List.eraseDups_append]
  by_cases h : a ∈ as <;> simp [List.removeAll, List.eraseDups_cons, h]

end FirstOccurrences

/-! ## 2. A tally as a table

What is found under a name and which labels there are, after one more label. Findings are added two
labels at a time. -/

/-- No confidence has the name of a category, and no two of either share one. -/
theorem Label.name_injective {k l : Label} (h : k.name = l.name) : k = l := by
  revert h
  rcases k with (_ | _) | (_ | _ | _ | _) <;> rcases l with (_ | _) | (_ | _ | _ | _) <;> decide

namespace Tally

@[simp] theorem get?_nil (name : String) : get? [] name = none := rfl

theorem get?_cons (e : Label × Nat) (t : Tally) (name : String) :
    get? (e :: t) name = if e.1.name = name then some e.2 else get? t name := by
  by_cases h : e.1.name = name <;> simp [get?, h]

/-- One more of a label is seen under its name only. -/
theorem get?_add (l : Label) (t : Tally) (name : String) :
    (t.add l).get? name =
      if l.name = name then some ((t.get? name).getD 0 + 1) else t.get? name := by
  induction t with
  | nil => simp only [add, get?_cons, get?_nil, Option.getD_none, Nat.zero_add]
  | cons e t ih =>
    obtain ⟨k, n⟩ := e
    by_cases hk : k = l
    · subst hk
      by_cases hname : k.name = name <;> simp [add, get?_cons, hname]
    · have hne : k.name ≠ l.name := fun h => hk (Label.name_injective h)
      rw [add, if_neg hk, get?_cons, get?_cons, ih]
      by_cases hname : k.name = name
      · subst hname
        simp [hne.symm]
      · simp [hname]

/-- A label that was not there yet comes last. -/
theorem labels_add (l : Label) (t : Tally) :
    (t.add l).map (·.1) = if l ∈ t.map (·.1) then t.map (·.1) else t.map (·.1) ++ [l] := by
  induction t with
  | nil => rfl
  | cons e t ih =>
    obtain ⟨k, n⟩ := e
    by_cases hk : k = l
    · simp [add, hk]
    · rw [add, if_neg hk, List.map_cons, ih, List.map_cons]
      by_cases hl : l ∈ t.map (·.1) <;> simp [hl, Ne.symm hk]

/-- No label is ever in the table twice. -/
theorem nodup_add {t : Tally} (h : (t.map (·.1)).Nodup) (l : Label) :
    ((t.add l).map (·.1)).Nodup := by
  rw [labels_add]
  split
  · exact h
  · next hl =>
    rw [← List.concat_eq_append]
    exact h.concat hl

/-- One more finding at the end is added to the tally of those before it; this is the step of all
inductions here. -/
theorem ofFindings_append (fs : List Finding) (f : Finding) :
    ofFindings (fs ++ [f]) = (ofFindings fs).addFinding f := by
  simp only [ofFindings, List.foldl_append, List.foldl_cons, List.foldl_nil]

/-- The labels of a tally are distinct. -/
theorem nodup_labels_ofFindings (fs : List Finding) : ((ofFindings fs).map (·.1)).Nodup := by
  induction fs using List.reverseRecOn with
  | nil => decide
  | append_singleton fs f ih =>
    rw [ofFindings_append]
    exact nodup_add (nodup_add ih _) _

/-! ## 3. Names and counts

The whole tally, by induction from the end of the list of findings. The entries of the confidences
are there from the start, with zero; those of the categories come with their first findings. That is
why a lookup under a confidence always succeeds, and one under a category does when it occurs. -/

/-- The names under which counts are shown, in their order. -/
def names (t : Tally) : List String := t.map fun e => e.1.name

/-- The entries of categories. -/
def ofCategories (t : Tally) : Tally :=
  t.filter fun e => match e.1 with
    | .category _ => true
    | .confidence _ => false

/-- The categories that occur, in the order of their first findings. -/
def categoriesOf (fs : List Finding) : List Category := (fs.map (·.category)).eraseDups

/-- A category is listed when some finding has it. -/
theorem mem_categoriesOf {fs : List Finding} {k : Category} :
    k ∈ categoriesOf fs ↔ k ∈ fs.map (·.category) :=
  List.mem_eraseDups

theorem names_eq (t : Tally) : t.names = (t.map (·.1)).map Label.name := by
  rw [names, List.map_map]
  rfl

/-- Nothing is found exactly under what is no name of the tally. -/
theorem get?_eq_none_iff (t : Tally) (name : String) : t.get? name = none ↔ name ∉ t.names := by
  simp [get?, names, List.find?_eq_none]

/-- An entry is found under its name. -/
theorem get?_of_mem {t : Tally} (h : t.names.Nodup) {e : Label × Nat} (he : e ∈ t) :
    t.get? e.1.name = some e.2 := by
  induction t with
  | nil => cases he
  | cons d t ih =>
    rw [names, List.map_cons, List.nodup_cons] at h
    rw [get?_cons]
    rcases List.mem_cons.mp he with rfl | he
    · rw [if_pos rfl]
    · have hne : d.1.name ≠ e.1.name := fun heq => h.1 (heq ▸ List.mem_map_of_mem he)
      rw [if_neg hne, ih h.2 he]

/-- The labels of a run: both confidences, then the categories that occur. -/
theorem labels_ofFindings (fs : List Finding) : (ofFindings fs).map (·.1) =
    Confidence.all.map Label.confidence ++ (categoriesOf fs).map Label.category := by
  induction fs using List.reverseRecOn with
  | nil => rfl
  | append_singleton fs f ih =>
    have hconfidence : Label.confidence f.confidence ∈ (ofFindings fs).map (·.1) := by
      rw [ih]
      exact List.mem_append_left _ (List.mem_map_of_mem (Confidence.mem_all _))
    have hcategory : Label.category f.category ∈ (ofFindings fs).map (·.1) ↔
        f.category ∈ fs.map (·.category) := by
      rw [ih]
      simp [categoriesOf]
    have hnext : categoriesOf (fs ++ [f]) = if f.category ∈ fs.map (·.category)
        then categoriesOf fs else categoriesOf fs ++ [f.category] := by
      rw [categoriesOf, List.map_append, List.map_cons, List.map_nil, eraseDups_concat,
        categoriesOf]
    rw [ofFindings_append, addFinding, labels_add, labels_add, if_pos hconfidence, hnext]
    by_cases h : f.category ∈ fs.map (·.category)
    · rw [if_pos (hcategory.mpr h), if_pos h, ih]
    · rw [if_neg (mt hcategory.mp h), if_neg h, ih, List.map_append, List.append_assoc]
      rfl

/-- The names of a run: those of both confidences, then those of the categories that occur. -/
theorem names_ofFindings (fs : List Finding) : (ofFindings fs).names =
    Confidence.all.map Confidence.name ++ (categoriesOf fs).map Category.name := by
  rw [names_eq, labels_ofFindings, List.map_append, List.map_map, List.map_map]
  rfl

/-- The names of a tally are distinct, since its labels are. -/
theorem nodup_names_ofFindings (fs : List Finding) : (ofFindings fs).names.Nodup := by
  rw [names_eq]
  exact (nodup_labels_ofFindings fs).map fun _ _ => Label.name_injective

theorem nodup_categoriesOf (fs : List Finding) : (categoriesOf fs).Nodup := by
  have h := nodup_labels_ofFindings fs
  rw [labels_ofFindings] at h
  exact (List.nodup_append.mp h).2.1.of_map _

/-- The finding is counted under the name. -/
def CountedAs (name : String) (f : Finding) : Prop :=
  f.confidence.name = name ∨ f.category.name = name

instance (name : String) (f : Finding) : Decidable (CountedAs name f) :=
  inferInstanceAs (Decidable (_ ∨ _))

/-- Under the name of a confidence the findings with that confidence are counted, and no others: no
category has its name. -/
theorem countedAs_confidence_iff {k : Confidence} {f : Finding} :
    CountedAs k.name f ↔ f.confidence = k := by
  have hname : f.confidence.name = k.name ↔ f.confidence = k :=
    ⟨fun h => Label.confidence.inj (Label.name_injective (l := .confidence k) h), fun h => h ▸ rfl⟩
  have hother : f.category.name ≠ k.name := fun h =>
    nomatch Label.name_injective (k := .category f.category) (l := .confidence k) h
  rw [CountedAs, hname, or_iff_left hother]

/-- Under the name of a category the findings of that category are counted, and no others: no
confidence has its name. -/
theorem countedAs_category_iff {k : Category} {f : Finding} :
    CountedAs k.name f ↔ f.category = k := by
  have hname : f.category.name = k.name ↔ f.category = k :=
    ⟨fun h => Label.category.inj (Label.name_injective (l := .category k) h), fun h => h ▸ rfl⟩
  have hother : f.confidence.name ≠ k.name := fun h =>
    nomatch Label.name_injective (k := .confidence f.confidence) (l := .category k) h
  rw [CountedAs, hname, or_iff_right hother]

/-- One more finding is counted once under each of its two names. -/
theorem getD_get?_addFinding (t : Tally) (f : Finding) (name : String) :
    ((t.addFinding f).get? name).getD 0 =
      (t.get? name).getD 0 + if CountedAs name f then 1 else 0 := by
  have hne : (Label.confidence f.confidence).name ≠ (Label.category f.category).name := fun h =>
    nomatch Label.name_injective h
  have hconfidence : (Label.confidence f.confidence).name = f.confidence.name := rfl
  have hcategory : (Label.category f.category).name = f.category.name := rfl
  rw [hconfidence, hcategory] at hne
  rw [addFinding, get?_add, get?_add, hconfidence, hcategory]
  by_cases h1 : f.category.name = name
  · have h2 : f.confidence.name ≠ name := fun h2 => hne (h2.trans h1.symm)
    simp [CountedAs, h1, h2]
  · by_cases h2 : f.confidence.name = name
    · simp [CountedAs, h1, h2]
    · simp [CountedAs, h1, h2]

/-- Under every name stands the number of findings that are counted there. -/
theorem getD_get?_ofFindings (fs : List Finding) (name : String) :
    ((ofFindings fs).get? name).getD 0 = fs.countP fun f => CountedAs name f := by
  induction fs using List.reverseRecOn with
  | nil =>
    have hempty : ofFindings [] = [(.confidence .strong, 0), (.confidence .weak, 0)] := rfl
    rw [hempty, get?_cons, get?_cons, get?_nil]
    split
    · rfl
    · split <;> rfl
  | append_singleton fs f ih =>
    rw [ofFindings_append, getD_get?_addFinding, ih, List.countP_append, List.countP_singleton]
    simp

/-- Both confidences with their counts, then the categories that occur with theirs. -/
theorem entries_ofFindings (fs : List Finding) : ofFindings fs =
    Confidence.all.map (fun k => (.confidence k, fs.countP fun f => f.confidence = k)) ++
      (categoriesOf fs).map fun k => (.category k, fs.countP fun f => f.category = k) := by
  have hentry : ∀ e ∈ ofFindings fs, e = (e.1, fs.countP fun f => CountedAs e.1.name f) := by
    intro e he
    rw [← getD_get?_ofFindings, get?_of_mem (nodup_names_ofFindings fs) he]
    rfl
  calc ofFindings fs
      = (ofFindings fs).map fun e => (e.1, fs.countP fun f => CountedAs e.1.name f) :=
        (List.map_id _).symm.trans (List.map_congr_left hentry)
    _ = ((ofFindings fs).map (·.1)).map fun l => (l, fs.countP fun f => CountedAs l.name f) := by
        rw [List.map_map]
        rfl
    _ = _ := by
        rw [labels_ofFindings, List.map_append, List.map_map, List.map_map]
        simp only [Function.comp_def, Label.name, countedAs_confidence_iff, countedAs_category_iff]

/-- The categories that occur, with their counts. -/
theorem ofCategories_ofFindings (fs : List Finding) : (ofFindings fs).ofCategories =
    (categoriesOf fs).map fun k => (.category k, fs.countP fun f => f.category = k) := by
  rw [entries_ofFindings, ofCategories, List.filter_append, List.filter_map, List.filter_map]
  simp [Function.comp_def]

/-- A confidence has an entry from the start. -/
theorem get?_ofFindings_confidence (fs : List Finding) (k : Confidence) :
    (ofFindings fs).get? k.name = some (fs.countP fun f => f.confidence = k) := by
  refine get?_of_mem (nodup_names_ofFindings fs) (e := (.confidence k, _)) ?_
  rw [entries_ofFindings]
  exact List.mem_append_left _ (List.mem_map_of_mem (Confidence.mem_all k))

/-- A category without an entry was not seen. -/
theorem getD_get?_ofFindings_category (fs : List Finding) (k : Category) :
    ((ofFindings fs).get? k.name).getD 0 = fs.countP fun f => f.category = k := by
  rw [getD_get?_ofFindings]
  simp only [countedAs_category_iff]

end Tally

end UpgradeScan
