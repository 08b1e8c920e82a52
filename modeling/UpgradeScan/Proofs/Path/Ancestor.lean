/-
`Proofs/Path/Ancestor.lean` -- the paths above a path.

`Under p q` says that `q` is the parent of `p`, and a path is above another when parents lead from
the one to the other. Each parent has one component less (`parent?_cases`), and that is all that the
rest depends on: the climb from a path ends, two paths on it that have equally many components are
the same path, and the components of the paths on it are the prefixes of those of the path where it
begins, down to nothing or to the root (`exists_upTo_iff`).

The relations are the closures of one step, and the step is a function (`Under.rightUnique`). So the
paths above a path stand in a row, without a choice on the way, and a search that goes from a path
to its parent meets all of them in that order. "The nearest folder that has something" and "no
folder further down has it" are said with `Above` alone, with no list of folders and no search in
them.

A statement about a search of this kind is proved along the climb: `climbInduction` begins where
there is no parent and goes down by one step. It needs no measure where it is used, because the
number of components is counted here once.
-/
import UpgradeScan.Proofs.Path.Parent
import Mathlib.Logic.Relation

set_option autoImplicit false

namespace UpgradeScan.Path

open Relation (ReflTransGen TransGen)

/-- `q` is the parent of `p`. -/
def Under (p q : Path) : Prop := p.parent? = some q

/-- `q` is `p` or a path above it. -/
def UpTo (p q : Path) : Prop := ReflTransGen Under p q

/-- `q` is a path above `p`. -/
def Above (p q : Path) : Prop := TransGen Under p q

variable {p q r : Path}

/-! ## 1. One parent

What a path has as its parent is read off its components: it has none when they are empty or only
the root, and otherwise the last one goes. That a path keeps its root on the way up is what lets an
absolute path end at the root and nowhere else. -/

/-- A segment between slashes is neither the root nor the dot a path may begin with. -/
theorem ofSegment_ne (seg : List Char) :
    Component.ofSegment seg ≠ .root ∧ Component.ofSegment seg ≠ .here := by
  rw [Component.ofSegment]
  split
  · simp
  · simp

/-- **One component less.** A path has a parent unless it is empty or only a root. The parent has
all components but the last. -/
theorem parent?_cases (p : Path) :
    (p.parent? = none ∧ (p.components = [] ∨ p.components = [.root])) ∨
    ∃ q c, p.parent? = some q ∧ p.components = q.components ++ [c] ∧ c ≠ .root := by
  have hcomponents : p.components = (lead p.text.toList).1.components ++
      (p.segments.filter counts).map .ofSegment := by
    rw [components_eq, componentsOf]
    rfl
  rcases List.eq_nil_or_concat' (p.segments.filter counts) with hnil | ⟨xs, x, hxs⟩
  · -- Only what stands before the segments is left.
    rw [hnil, List.map_nil, List.append_nil] at hcomponents
    have hdrop : p.segments.reverse.dropWhile (fun s => !counts s) = [] := by
      rw [List.dropWhile_eq_nil_iff]
      intro seg hseg
      simpa using List.filter_eq_nil_iff.mp hnil seg (List.mem_reverse.mp hseg)
    rw [parent?, hdrop, hcomponents]
    cases (lead p.text.toList).1 with
    | root => exact .inl ⟨rfl, .inr rfl⟩
    | here => exact .inr ⟨⟨""⟩, .here, rfl, rfl, by simp⟩
    | plain => exact .inl ⟨rfl, .inl rfl⟩
  · rw [hxs, List.map_append, List.map_singleton, ← List.append_assoc] at hcomponents
    obtain ⟨hroot, hhere⟩ := ofSegment_ne x
    obtain ⟨q, hq, hcs, -⟩ := exists_parent hcomponents hroot hhere
    exact .inr ⟨q, _, hq, by rw [hcs]; exact hcomponents, hroot⟩

/-- The components of a path are those of its parent and one more. -/
theorem Under.components (h : Under p q) :
    ∃ c, p.components = q.components ++ [c] ∧ c ≠ .root := by
  rcases parent?_cases p with ⟨hnone, -⟩ | ⟨q', c, hq', hcomponents, hc⟩
  · exact nomatch hnone.symm.trans h
  · obtain rfl : q' = q := Option.some.inj (hq'.symm.trans h)
    exact ⟨c, hcomponents, hc⟩

theorem Under.rightUnique : Relator.RightUnique Under :=
  fun _ _ _ h h' => Option.some.inj (h.symm.trans h')

/-- The root stays where it is. -/
theorem Under.head?_components (h : Under p q) (hroot : p.components.head? = some .root) :
    q.components.head? = some .root := by
  obtain ⟨c, hcomponents, hc⟩ := h.components
  rw [hcomponents] at hroot
  cases hq : q.components with
  | nil =>
    rw [hq] at hroot
    exact absurd (Option.some.inj hroot) hc
  | cons a cs =>
    rw [hq] at hroot
    exact hroot

/-! ## 2. The climb

`UpTo` is the climb with the path itself, `Above` the climb without it. The lemmas compare two paths
on one climb: one of them lies on the climb from the other, their components are prefixes of those
of the path at the bottom, and the number of components tells which one is higher. -/

/-- A path above another begins with components of that one. -/
theorem UpTo.components_prefix (h : UpTo p q) : q.components <+: p.components := by
  induction h with
  | refl => exact List.prefix_rfl
  | tail _ hstep ih =>
    obtain ⟨c, hcomponents, -⟩ := Under.components hstep
    exact (hcomponents ▸ List.prefix_append _ [c]).trans ih

/-- What is above a path is on the climb from it. -/
theorem Above.upTo (h : Above p q) : UpTo p q := h.to_reflTransGen

/-- Every path above another has fewer components. -/
theorem Above.length_lt (h : Above p q) : q.components.length < p.components.length := by
  obtain ⟨r, hstep, hclimb⟩ := Relation.TransGen.head'_iff.mp h
  obtain ⟨c, hcomponents, -⟩ := Under.components hstep
  have hle := (UpTo.components_prefix hclimb).length_le
  rw [hcomponents, List.length_append, List.length_singleton]
  omega

theorem not_above_self (p : Path) : ¬ Above p p := fun h => Nat.lt_irrefl _ h.length_lt

/-- The climb begins with the path itself. -/
theorem upTo_iff : UpTo p q ↔ q = p ∨ Above p q := Relation.reflTransGen_iff_eq_or_transGen

/-- Below a path above `p` comes `p` itself or its parent. -/
theorem above_iff : Above p q ↔ ∃ r, Under p r ∧ UpTo r q := Relation.TransGen.head'_iff

/-- Of two paths on one climb the one is on the climb from the other. -/
theorem UpTo.total (h : UpTo p q) (h' : UpTo p r) : UpTo q r ∨ UpTo r q :=
  Relation.ReflTransGen.total_of_right_unique Under.rightUnique h h'

/-- On one climb the components tell the paths apart. -/
theorem UpTo.eq_of_components (h : UpTo p q) (h' : UpTo p r) (heq : q.components = r.components) :
    q = r := by
  rcases h.total h' with hclimb | hclimb
  · rcases upTo_iff.mp hclimb with rfl | habove
    · rfl
    · exact absurd (congrArg List.length heq) (Nat.ne_of_gt habove.length_lt)
  · rcases upTo_iff.mp hclimb with rfl | habove
    · rfl
    · exact absurd (congrArg List.length heq) (Nat.ne_of_lt habove.length_lt)

/-- A statement that holds where a path has no parent, and for a path if it holds for its parent,
holds for every path. -/
theorem climbInduction {motive : Path → Prop} (top : ∀ p : Path, p.parent? = none → motive p)
    (step : ∀ p q, Under p q → motive q → motive p) (p : Path) : motive p := by
  -- each parent has fewer components
  induction hn : p.components.length using Nat.strongRecOn generalizing p with
  | ind n ih =>
    cases hparent : p.parent? with
    | none => exact top p hparent
    | some q =>
      refine step p q hparent (ih _ ?_ q rfl)
      rw [← hn]
      exact Above.length_lt (.single hparent)

/-- **The climb ends.** On it there is a path without a parent. -/
theorem exists_top (p : Path) : ∃ top, UpTo p top ∧ top.parent? = none := by
  induction p using climbInduction with
  | top p hnone => exact ⟨p, .refl, hnone⟩
  | step p q hstep ih =>
    obtain ⟨top, hclimb, hnone⟩ := ih
    exact ⟨top, .head hstep hclimb, hnone⟩

/-- **The paths above.** Their components are the prefixes of those of the path, and an absolute
path keeps its root. -/
theorem exists_upTo_iff {p : Path} {cs : List Component} :
    (∃ q, UpTo p q ∧ q.components = cs) ↔
      cs <+: p.components ∧ (cs = [] → p.components.head? ≠ some .root) := by
  constructor
  · rintro ⟨q, hclimb, rfl⟩
    refine ⟨hclimb.components_prefix, fun hnil hroot => ?_⟩
    have hkept : q.components.head? = some .root := by
      clear hnil
      induction hclimb with
      | refl => exact hroot
      | tail _ hstep ih => exact Under.head?_components hstep ih
    rw [hnil] at hkept
    cases hkept
  · rintro ⟨hinitial, hroot⟩
    induction p using climbInduction with
    | top p hnone =>
      -- nothing but the root can be there, and it is kept
      refine ⟨p, .refl, ?_⟩
      rcases parent?_cases p with ⟨-, hempty | hlone⟩ | ⟨q, c, hq, -⟩
      · rw [hempty] at hinitial ⊢
        exact (List.prefix_nil.mp hinitial).symm
      · rw [hlone] at hinitial hroot ⊢
        cases cs with
        | nil => exact absurd rfl (hroot rfl)
        | cons a cs =>
          obtain ⟨rfl, hnil⟩ := List.cons_prefix_cons.mp hinitial
          rw [List.prefix_nil.mp hnil]
      · exact nomatch hnone.symm.trans hq
    | step p q hstep ih =>
      obtain ⟨c, hcomponents, -⟩ := hstep.components
      rw [hcomponents] at hinitial
      rcases List.prefix_concat_iff.mp hinitial with rfl | hinitial
      · exact ⟨p, .refl, hcomponents⟩
      · have hkept : q.components.head? = some .root → p.components.head? = some .root := by
          intro hq
          rw [hcomponents, List.head?_append, hq]
          rfl
        obtain ⟨r, hclimb, hr⟩ := ih hinitial fun hnil hq => hroot hnil (hkept hq)
        exact ⟨r, .head hstep hclimb, hr⟩

end UpgradeScan.Path
