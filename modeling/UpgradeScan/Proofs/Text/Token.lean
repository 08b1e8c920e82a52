/-
`Proofs/Text/Token.lean` -- what a token is, and which name it spells.

A token of a text is a piece that reaches from one separator, or from the beginning, to the next
one, or to the end, with none inside (`mem_fields_iff`). It spells a name when nothing but blanks
stands around that name, in whatever case its letters are (`sameLetters_trimmed_iff`). Neither says
how a text is cut.

A list of names that somebody types is cut at its commas, each piece is trimmed, and what is left is
compared with the known names without regard to case. The two definitions say the same from the side
of the text: where a piece stands in it, and what stands around the name in the piece. The order of
the pieces and their number do not come into it, so a list is understood in the same way wherever in
it a name is written.

Blanks are those of Unicode, while the case of letters is that of ASCII alone. The two do not get in
each other's way (`isBlank_toLower`): a letter in another case is no blank, and a blank has no other
case. Of the names it is only needed that no blank is in them, since trimming would then not stop at
their ends.
-/
import UpgradeScan.Text.Blank
import UpgradeScan.Text.Split
import Mathlib.Data.List.DropRight

set_option autoImplicit false

namespace UpgradeScan.Text

/-! ## 1. Tokens

The fields of a text are the longest pieces of it without a separator. A piece is given with both
its neighbours, which are a separator or an end of the text, and the proof in either direction is by
induction along the separators. -/

section Tokens

variable {α : Type} {sep : α} {s t : List α}

/-- A piece without a separator that has one, or an end of the text, on each side. -/
def TokenOf (sep : α) (s t : List α) : Prop :=
  sep ∉ t ∧ ∃ before after, s = before ++ (t ++ after) ∧
    (before = [] ∨ ∃ x, before = x ++ [sep]) ∧ (after = [] ∨ ∃ y, after = sep :: y)

variable [DecidableEq α]

/-- Every field is a token. -/
theorem tokenOf_of_mem_fields (h : t ∈ fields sep s) : TokenOf sep s t := by
  refine ⟨not_mem_of_mem_fields h, ?_⟩
  obtain ⟨fs, gs, hfields⟩ := List.append_of_mem h
  have hs : s = join [sep] (fs ++ t :: gs) := by rw [← hfields, join_fields]
  have hafter : ∃ after, join [sep] (t :: gs) = t ++ after ∧
      (after = [] ∨ ∃ y, after = sep :: y) := by
    cases gs with
    | nil => exact ⟨[], (List.append_nil t).symm, .inl rfl⟩
    | cons g gs =>
      refine ⟨sep :: join [sep] (g :: gs), ?_, .inr ⟨_, rfl⟩⟩
      rw [join, List.append_assoc, List.singleton_append]
  obtain ⟨after, hjoin, hend⟩ := hafter
  cases fs with
  | nil => exact ⟨[], after, by rw [hs, List.nil_append, hjoin, List.nil_append], .inl rfl, hend⟩
  | cons f fs =>
    refine ⟨join [sep] (f :: fs) ++ [sep], after, ?_, .inr ⟨_, rfl⟩, hend⟩
    rw [hs, join_append [sep] (List.cons_ne_nil f fs) (List.cons_ne_nil t gs), hjoin]

/-- **Tokens.** The fields of a text are its tokens. -/
theorem mem_fields_iff : t ∈ fields sep s ↔ TokenOf sep s t := by
  refine ⟨tokenOf_of_mem_fields, ?_⟩
  rintro ⟨ht, before, after, rfl, hbefore, hafter⟩
  -- what follows the separator before it begins with the token as a field
  have hmem : t ∈ fields sep (t ++ after) := by
    rcases hafter with rfl | ⟨y, rfl⟩
    · rw [List.append_nil, fields_of_not_mem ht]
      exact List.mem_singleton_self t
    · rw [fields_append_cons, fields_of_not_mem ht]
      exact List.mem_cons_self
  rcases hbefore with rfl | ⟨x, rfl⟩
  · exact hmem
  · rw [List.append_assoc, List.singleton_append, fields_append_cons]
    exact List.mem_append_right _ hmem

end Tokens

/-! ## 2. Names in tokens

Trimming is undone by putting blanks around, and what is left is determined by the token as long as
the name has no blank at its ends. -/

/-- Nothing but blanks. -/
def AllBlank (s : List Char) : Prop := ∀ c ∈ s, isBlank c = true

/-- The token is the name, with blanks around it and with its ASCII letters in any case. -/
def Spells (t name : List Char) : Prop :=
  ∃ l m r, t = l ++ (m ++ r) ∧ AllBlank l ∧ AllBlank r ∧
    m.map Char.toLower = name.map Char.toLower

variable {m r l t name : List Char}

/-- A token is what is left of it, with the blanks that were cut off around it. -/
theorem exists_of_trim (t : List Char) :
    ∃ l r, t = l ++ (trim t ++ r) ∧ AllBlank l ∧ AllBlank r := by
  refine ⟨t.takeWhile isBlank, (trimLeft t).rtakeWhile isBlank, ?_, ?_, ?_⟩
  · have hright : trim t ++ (trimLeft t).rtakeWhile isBlank = trimLeft t :=
      List.rdropWhile_append_rtakeWhile
    rw [hright]
    exact (List.takeWhile_append_dropWhile).symm
  · exact fun c hc => List.mem_takeWhile_imp hc
  · exact fun c hc => List.mem_rtakeWhile_imp hc

/-- Nothing is cut off a text without blanks. -/
theorem dropWhile_isBlank_of_none (h : ∀ c ∈ m, isBlank c = false) : m.dropWhile isBlank = m := by
  cases m with
  | nil => rfl
  | cons c m =>
    have hc : isBlank c = false := h c List.mem_cons_self
    rw [List.dropWhile_cons_of_neg (by rw [hc]; exact Bool.false_ne_true)]

/-- Around a text without blanks, blanks are cut off. -/
theorem trim_append (hl : AllBlank l) (hr : AllBlank r) (hm : ∀ c ∈ m, isBlank c = false) :
    trim (l ++ (m ++ r)) = m := by
  have hleft : trimLeft (l ++ (m ++ r)) = (m ++ r).dropWhile isBlank :=
    List.dropWhile_append_of_pos hl
  have hright : trimRight (m ++ r) = m := by
    have hr' : ∀ c ∈ r.reverse, isBlank c = true := fun c hc => hr c (List.mem_reverse.mp hc)
    have hm' : ∀ c ∈ m.reverse, isBlank c = false := fun c hc => hm c (List.mem_reverse.mp hc)
    rw [trimRight, List.reverse_append, List.dropWhile_append_of_pos hr',
      dropWhile_isBlank_of_none hm', List.reverse_reverse]
  rw [trim, hleft]
  cases m with
  | nil => rw [List.nil_append, List.dropWhile_eq_nil_iff.mpr hr, trimRight_nil]
  | cons c m =>
    have hc : isBlank c = false := hm c List.mem_cons_self
    rw [List.cons_append, List.dropWhile_cons_of_neg (by rw [hc]; exact Bool.false_ne_true)]
    exact hright

/-- Between the first capital and the last small letter there is no blank. -/
theorem isBlank_of_letter {c : Char} (h : 0x41 ≤ c.toNat ∧ c.toNat ≤ 0x7A) : isBlank c = false := by
  simp only [isBlank, Bool.or_eq_false_iff, Bool.and_eq_false_iff, decide_eq_false_iff_not,
    beq_eq_false_iff_ne]
  omega

/-- A letter in another case is no blank, and a blank has no other case. -/
theorem isBlank_toLower (c : Char) : isBlank c.toLower = isBlank c := by
  by_cases h : c.val ≥ 'A'.val ∧ c.val ≤ 'Z'.val
  · have hval : c.toLower.val = c.val + ('a'.val - 'A'.val) := congrArg Char.val (dif_pos h)
    have hnat : c.toLower.toNat = c.toNat + 32 := by
      simp only [Char.toNat, hval]
      simp only [ge_iff_le, UInt32.le_iff_toNat_le, UInt32.toNat_add, Char.reduceVal,
        UInt32.reduceSub, UInt32.reduceToNat] at h ⊢
      omega
    have hcapital : 0x41 ≤ c.toNat ∧ c.toNat ≤ 0x5A := h
    rw [isBlank_of_letter (by omega), isBlank_of_letter (by omega)]
  · have hsame : c.toLower = c := dif_neg h
    rw [hsame]

/-- **Names.** What is left of a token when it is trimmed is a name up to the case of letters
exactly when the token spells the name. -/
theorem sameLetters_trimmed_iff {name t : String} (hname : ∀ c ∈ name.toList, isBlank c = false) :
    sameLetters name (trimmed t) = true ↔ Spells t.toList name.toList := by
  rw [sameLetters, trimmed, String.toList_ofList, beq_iff_eq]
  constructor
  · intro h
    obtain ⟨l, r, ht, hl, hr⟩ := exists_of_trim t.toList
    exact ⟨l, _, r, ht, hl, hr, h.symm⟩
  · rintro ⟨l, m, r, ht, hl, hr, hm⟩
    -- there is no blank in the name, so there is none in what spells it
    have hblank : m.map isBlank = name.toList.map isBlank := by
      have h := congrArg (List.map isBlank) hm
      simpa only [List.map_map, Function.comp_def, isBlank_toLower] using h
    have hm' : ∀ c ∈ m, isBlank c = false := by
      intro c hc
      have hmem : isBlank c ∈ name.toList.map isBlank := hblank ▸ List.mem_map_of_mem hc
      obtain ⟨d, hd, heq⟩ := List.mem_map.mp hmem
      rw [← heq, hname d hd]
    rw [ht, trim_append hl hr hm']
    exact hm.symm

end UpgradeScan.Text
