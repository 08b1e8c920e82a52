/-
`Text/Split.lean` -- cutting a sequence at separators.

Three cuts are used: fields between separators, lines, and the replacement of a fixed word. Lines
are cut the same way in bytes and in characters: a newline ends a line, one carriage return directly
before it belongs to the line end, and a last line without a newline is kept as it stands. The cut
is therefore generic in the alphabet.

Cutting into fields loses nothing. The fields joined again are the sequence (`join_fields`), and a
list of fields without separators is got back from what was joined (`fields_join`). The other two
are looked at where they are used, since what they lose is the point of them.
-/

set_option autoImplicit false

namespace UpgradeScan.Text

variable {α : Type} [DecidableEq α]

/-! ## 1. Fields

There is always a field, also in an empty sequence. -/

/-- The fields between occurrences of `sep`; one more field than there are separators. -/
def fields (sep : α) : List α → List (List α)
  | [] => [[]]
  | c :: r =>
    if c = sep then [] :: fields sep r
    else match fields sep r with
      | [] => [[c]]
      | f :: fs => (c :: f) :: fs

/-- The fields again with `sep` between them. -/
def join (sep : List α) : List (List α) → List α
  | [] => []
  | [f] => f
  | f :: g :: fs => f ++ sep ++ join sep (g :: fs)

/-! ## 2. Lines

The pass over a sequence collects a line and drops the return at its end. -/

/-- The lines of a sequence: each ends before `nl`, or before `cr` directly followed by `nl`;
what follows the last `nl` is a line when it is not empty. -/
def lines (nl cr : α) : List α → List (List α)
  | [] => []
  | c :: r =>
    if c = nl then [] :: lines nl cr r
    else if c = cr ∧ r.head? = some nl then lines nl cr r
    else match lines nl cr r with
      | [] => [[c]]
      | l :: ls => (c :: l) :: ls

/-! ## 3. Words

A word is taken off the front, replaced, or looked for at the end. -/

/-- What is left of `s` after the word `w`, when `s` begins with it. -/
def dropWord? : (w s : List α) → Option (List α)
  | [], s => some s
  | _ :: _, [] => none
  | a :: w, b :: s => if a = b then dropWord? w s else none

/-- Every occurrence of the word `w`, found from the left without overlap, becomes `v`. The
first argument counts the places of an occurrence that are still to be passed over. -/
def replaceFrom (w v : List α) : Nat → List α → List α
  | _, [] => []
  | n + 1, _ :: r => replaceFrom w v n r
  | 0, c :: r =>
    match dropWord? w (c :: r) with
    | some _ => v ++ replaceFrom w v (w.length - 1) r
    | none => c :: replaceFrom w v 0 r

/-- Replacement of a non-empty word. -/
def replace (w v s : List α) : List α := replaceFrom w v 0 s

/-- `s` ends with `w`. -/
def endsWith (w s : List α) : Bool := w.reverse.isPrefixOf s.reverse

/-! ## 4. What the cuts keep

Facts about fields, with which a path can be cut and put together again. -/

/-- The empty sequence is one empty field. -/
@[simp] theorem fields_nil (sep : α) : fields sep [] = [[]] := rfl

/-- There is a field. -/
theorem fields_ne_nil (sep : α) (s : List α) : fields sep s ≠ [] := by
  cases s with
  | nil => simp
  | cons c r =>
    simp only [fields]
    split
    · simp
    · split <;> simp

/-- Joining the fields gives the text back. -/
theorem join_fields (sep : α) (s : List α) : join [sep] (fields sep s) = s := by
  induction s with
  | nil => rfl
  | cons c r ih =>
    by_cases h : c = sep
    · subst h
      simp only [fields, if_true]
      cases hf : fields c r with
      | nil => exact absurd hf (fields_ne_nil c r)
      | cons f fs => rw [hf] at ih; simp [join, ih]
    · simp only [fields, if_neg h]
      cases hf : fields sep r with
      | nil => exact absurd hf (fields_ne_nil sep r)
      | cons f fs =>
        rw [hf] at ih
        cases fs with
        | nil => simp only [join] at ih ⊢; rw [ih]
        | cons g gs => simp only [join] at ih ⊢; rw [← ih]; simp

/-- A separator cuts a text into its fields before and after. -/
theorem fields_append_cons (sep : α) (s t : List α) :
    fields sep (s ++ sep :: t) = fields sep s ++ fields sep t := by
  induction s with
  | nil => simp [fields]
  | cons c s ih =>
    by_cases h : c = sep
    · simp [fields, h, ih]
    · cases hf : fields sep s with
      | nil => exact absurd hf (fields_ne_nil sep s)
      | cons f fs => simp [fields, h, ih, hf]

/-- No separator is left in a field. -/
theorem not_mem_of_mem_fields {sep : α} {s f : List α} (h : f ∈ fields sep s) : sep ∉ f := by
  induction s generalizing f with
  | nil =>
    rw [fields_nil, List.mem_singleton] at h
    rw [h]
    exact List.not_mem_nil
  | cons c s ih =>
    by_cases hc : c = sep
    · simp only [fields, if_pos hc, List.mem_cons] at h
      rcases h with rfl | h
      · exact List.not_mem_nil
      · exact ih h
    · cases hf : fields sep s with
      | nil => exact absurd hf (fields_ne_nil sep s)
      | cons g gs =>
        rw [hf] at ih
        simp only [fields, if_neg hc, hf, List.mem_cons] at h
        rcases h with rfl | h
        · rw [List.mem_cons, not_or]
          exact ⟨Ne.symm hc, ih List.mem_cons_self⟩
        · exact ih (List.mem_cons_of_mem _ h)

/-- There is at most one field more than there are members. -/
theorem length_fields_le (sep : α) (s : List α) : (fields sep s).length ≤ s.length + 1 := by
  induction s with
  | nil => simp
  | cons c s ih =>
    by_cases h : c = sep
    · simpa [fields, h] using ih
    · cases hf : fields sep s with
      | nil => exact absurd hf (fields_ne_nil sep s)
      | cons f fs =>
        rw [hf, List.length_cons] at ih
        simp only [fields, if_neg h, hf, List.length_cons]
        omega

omit [DecidableEq α] in
/-- Two lists of fields, joined with one more separator between them. -/
theorem join_append (sep : List α) {fs gs : List (List α)} (hf : fs ≠ []) (hg : gs ≠ []) :
    join sep (fs ++ gs) = join sep fs ++ sep ++ join sep gs := by
  induction fs with
  | nil => exact absurd rfl hf
  | cons f fs ih =>
    cases fs with
    | nil =>
      obtain ⟨g, gs, rfl⟩ := List.exists_cons_of_ne_nil hg
      rfl
    | cons f' fs =>
      rw [List.cons_append, List.cons_append, join, ← List.cons_append, ih (List.cons_ne_nil _ _),
        join]
      simp only [List.append_assoc]

omit [DecidableEq α] in
/-- A joined text ends with its last field. -/
theorem exists_join_concat (sep : List α) (fs : List (List α)) (f : List α) :
    ∃ s, join sep (fs ++ [f]) = s ++ f := by
  cases fs with
  | nil => exact ⟨[], rfl⟩
  | cons g gs => exact ⟨_, join_append sep (List.cons_ne_nil _ _) (List.cons_ne_nil _ _)⟩

/-- Without a separator there is one field. -/
theorem fields_of_not_mem {sep : α} {f : List α} (h : sep ∉ f) : fields sep f = [f] := by
  induction f with
  | nil => rfl
  | cons c f ih =>
    rw [List.mem_cons, not_or] at h
    rw [fields, if_neg (Ne.symm h.1), ih h.2]

/-- The fields of a joined text are the fields that were joined. -/
theorem fields_join {sep : α} {fs : List (List α)} (hne : fs ≠ []) (h : ∀ f ∈ fs, sep ∉ f) :
    fields sep (join [sep] fs) = fs := by
  induction fs with
  | nil => exact absurd rfl hne
  | cons f fs ih =>
    have hf := fields_of_not_mem (h f List.mem_cons_self)
    cases fs with
    | nil => exact hf
    | cons g gs =>
      rw [join, List.append_assoc, List.singleton_append, fields_append_cons, hf,
        ih (List.cons_ne_nil _ _) fun x hx => h x (List.mem_cons_of_mem _ hx)]
      rfl

omit [DecidableEq α] in
/-- Fields are joined as the library does it. -/
theorem join_eq_intercalate (sep : List α) (fs : List (List α)) :
    join sep fs = sep.intercalate fs := by
  induction fs with
  | nil => rfl
  | cons f fs ih =>
    cases fs with
    | nil => simp [join, List.intercalate]
    | cons g gs => rw [join, ih]; simp [List.intercalate]

/-- What a word is taken off begins with it. -/
theorem dropWord?_eq_some_iff {w s r : List α} : dropWord? w s = some r ↔ s = w ++ r := by
  induction w generalizing s with
  | nil => simp [dropWord?]
  | cons a w ih =>
    cases s with
    | nil => simp [dropWord?]
    | cons b s =>
      by_cases h : a = b
      · simp [dropWord?, h, ih]
      · simp [dropWord?, h]
        intro hb; exact absurd hb.symm h

/-- Replacing a single letter replaces it at every place. -/
theorem replace_letter (c : α) (v s : List α) :
    replace [c] v s = s.flatMap fun x => if x = c then v else [x] := by
  rw [replace]
  induction s with
  | nil => rfl
  | cons x s ih =>
    rw [replaceFrom, List.flatMap_cons, List.length_singleton, Nat.sub_self, ih]
    by_cases h : x = c
    · subst h
      simp [dropWord?]
    · simp [dropWord?, h, Ne.symm h]

end UpgradeScan.Text
