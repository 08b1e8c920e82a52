/-
`Proofs/NameList.lean` -- what a comma list of names stands for.

A comma list is read token by token, and a token that names nothing is dropped without a word, so a
list never fails. What it stands for is a set: the things that its tokens name. Three facts make it
one. The result is in the order of the closed list and has nothing twice (`Names.nodup_ofList`), so
that two lists that stand for the same things are equal (`Names.ofList_eq`); joining two lists by a
comma joins what they stand for (`Names.mem_ofList_append`); and so neither the order of the tokens
nor how often one occurs matters, nor any token that names nothing (`Names.ofList_intercalate_eq`).

A single name is read by a different function, which can refuse. Section 3 relates the two: a text
is accepted as a name exactly when it has no comma and stands for one thing as a list
(`Names.ofName?_iff`). The comma has to be asked for. `"weak,"` stands for one thing as a list,
since the token behind the comma names nothing, and is no name.

Everything is proved of an arbitrary closed list; what is used of its names is that they are not
empty and have no blank and no comma in them.
-/
import UpgradeScan.Proofs.Change
import UpgradeScan.Proofs.Text.Token

set_option autoImplicit false

namespace UpgradeScan

namespace Names

section Lists

variable {α : Type} (N : Names α) {s t : String} {c : α}

/-! ## 1. Tokens

`commaList` cuts at every comma and the readers trim what is between. In terms of characters: a
token is a stretch between two commas or an end of the text, and it spells a name when it is that
name, in any case, with blanks around it. -/

theorem isBlank_of_mem {x : Char} (h : x ∈ (N.name c).toList) : Text.isBlank x = false := by
  have hplain := List.all_eq_true.mp (N.plain c) x h
  rw [Bool.and_eq_true, Bool.not_eq_true'] at hplain
  exact hplain.1

theorem toLower_ne_of_mem {x : Char} (h : x ∈ (N.name c).toList) : x.toLower ≠ ',' := by
  have hplain := List.all_eq_true.mp (N.plain c) x h
  rw [Bool.and_eq_true, bne_iff_ne] at hplain
  exact hplain.2

/-- A text is read as what it spells the name of: trimming it takes nothing of the name away. -/
theorem ofName?_eq_some_iff_spells :
    N.ofName? s = some c ↔ Text.Spells s.toList (N.name c).toList :=
  N.ofName?_eq_some_iff.trans (Text.sameLetters_trimmed_iff fun _ => N.isBlank_of_mem)

/-- No text that is read as a name has a comma. -/
theorem not_mem_of_ofName? (h : N.ofName? s = some c) : ',' ∉ s.toList := by
  obtain ⟨l, m, r, hs, hl, hr, hm⟩ := N.ofName?_eq_some_iff_spells.mp h
  intro hcomma
  rw [hs, List.mem_append, List.mem_append] at hcomma
  rcases hcomma with hin | hin | hin
  · exact absurd (hl _ hin) (by decide)
  · have hlower : ',' ∈ m.map Char.toLower := List.mem_map.mpr ⟨',', hin, by decide⟩
    rw [hm] at hlower
    obtain ⟨x, hx, heq⟩ := List.mem_map.mp hlower
    exact N.toLower_ne_of_mem hx heq
  · exact absurd (hr _ hin) (by decide)

variable [DecidableEq α]

/-- What a list stands for is what some token of it spells. -/
theorem mem_ofList_iff_spells :
    c ∈ N.ofList s ↔ ∃ t, Text.TokenOf ',' s.toList t ∧ Text.Spells t (N.name c).toList := by
  rw [ofList, List.mem_filter, List.any_eq_true]
  constructor
  · rintro ⟨-, t, ht, hread⟩
    obtain ⟨f, hf, rfl⟩ := List.mem_map.mp ht
    have hspells := N.ofName?_eq_some_iff_spells.mp (beq_iff_eq.mp hread)
    rw [String.toList_ofList] at hspells
    exact ⟨f, Text.mem_fields_iff.mp hf, hspells⟩
  · rintro ⟨t, ht, hspells⟩
    refine ⟨N.mem_all c, String.ofList t, List.mem_map_of_mem (Text.mem_fields_iff.mpr ht), ?_⟩
    rw [beq_iff_eq, N.ofName?_eq_some_iff_spells, String.toList_ofList]
    exact hspells

/-- Nothing is kept twice, however often a list names it. -/
theorem nodup_ofList (s : String) : (N.ofList s).Nodup := by
  rw [ofList]
  exact N.nodup.filter _

/-- The order is that of all names, so lists that stand for the same things are equal. -/
theorem ofList_eq (h : ∀ c, c ∈ N.ofList s ↔ c ∈ N.ofList t) : N.ofList s = N.ofList t := by
  rw [ofList, ofList]
  refine List.filter_congr fun c _ => ?_
  have hc := h c
  rw [ofList, ofList, List.mem_filter, List.mem_filter, and_iff_right (N.mem_all c),
    and_iff_right (N.mem_all c)] at hc
  exact Bool.eq_iff_iff.mpr hc

/-! ## 2. Lists joined

The tokens of two lists with a comma between them are those of both. The empty text is a list of one
empty token, and no name is empty, so it stands for nothing; that is the base case when lists are
joined one by one. -/

/-- Joining two lists by a comma joins what they stand for. -/
theorem mem_ofList_append (a b : String) :
    c ∈ N.ofList (a ++ "," ++ b) ↔ c ∈ N.ofList a ∨ c ∈ N.ofList b := by
  have htext : (a ++ "," ++ b).toList = a.toList ++ ',' :: b.toList := by simp
  simp only [N.mem_ofList_iff_spells, ← Text.mem_fields_iff, htext, Text.fields_append_cons,
    List.mem_append, or_and_right, exists_or]

/-- The empty list stands for nothing. -/
theorem ofList_empty : N.ofList "" = [] := by
  refine List.eq_nil_iff_forall_not_mem.mpr fun c hc => ?_
  obtain ⟨t, ⟨-, x, y, hsplit, -⟩, l, m, r, rfl, -, -, hm⟩ := N.mem_ofList_iff_spells.mp hc
  obtain ⟨-, h⟩ := List.append_eq_nil_iff.mp hsplit.symm
  simp only [List.append_eq_nil_iff] at h
  obtain ⟨⟨-, rfl, -⟩, -⟩ := h
  exact N.nonempty c (String.toList_eq_nil_iff.mp (List.map_eq_nil_iff.mp hm.symm))

/-- Texts with commas between them stand for what any of them stands for. -/
theorem mem_ofList_intercalate (ts : List String) :
    c ∈ N.ofList (",".intercalate ts) ↔ ∃ t ∈ ts, c ∈ N.ofList t := by
  induction ts with
  | nil =>
    rw [String.intercalate_nil, N.ofList_empty]
    simp only [List.not_mem_nil, false_and, exists_false]
  | cons t ts ih =>
    rw [List.exists_mem_cons_iff]
    cases ts with
    | nil => simp only [String.intercalate_singleton, List.not_mem_nil, false_and, exists_false,
        or_false]
    | cons u us => rw [String.intercalate_cons_cons, N.mem_ofList_append, ih]

/-- Only the texts that name something matter, and neither their order nor how often they occur. -/
theorem ofList_intercalate_eq {ts us : List String}
    (h : ∀ t, N.ofList t ≠ [] → (t ∈ ts ↔ t ∈ us)) :
    N.ofList (",".intercalate ts) = N.ofList (",".intercalate us) := by
  refine N.ofList_eq fun c => ?_
  rw [N.mem_ofList_intercalate, N.mem_ofList_intercalate]
  refine exists_congr fun t => and_congr_left fun hc => h t (List.ne_nil_of_mem hc)

/-! ## 3. Single names

A text without commas is a list of one token, namely itself, and the two readers can be compared on
it. -/

/-- A list without commas is its only token. -/
theorem ofList_of_no_comma (h : ',' ∉ s.toList) : N.ofList s = (N.ofName? s).toList := by
  have hlist : commaList s = [s] := by
    rw [commaList, Text.fields_of_not_mem h, List.map_singleton, String.ofList_toList]
  rw [ofList, hlist]
  simp only [List.any_cons, List.any_nil, Bool.or_false]
  cases N.ofName? s with
  | none => exact List.filter_eq_nil_iff.mpr fun c _ => by simp
  | some d =>
    have hcount : N.all.count d = 1 := by rw [N.nodup.count, if_pos (N.mem_all d)]
    have hfilter : (N.all.filter fun c => some d == some c) = N.all.filter (· == d) :=
      List.filter_congr fun c _ => by simp [eq_comm]
    rw [hfilter, List.filter_beq, hcount]
    rfl

/-- **Names and lists.** A text is read as a name exactly when it has no comma and, as a list,
stands for that one thing. -/
theorem ofName?_iff : N.ofName? s = some c ↔ ',' ∉ s.toList ∧ N.ofList s = [c] := by
  constructor
  · intro h
    have hcomma := N.not_mem_of_ofName? h
    exact ⟨hcomma, by rw [N.ofList_of_no_comma hcomma, h]; rfl⟩
  · rintro ⟨hcomma, h⟩
    rw [N.ofList_of_no_comma hcomma] at h
    exact Option.toList_eq_singleton_iff.mp h

/-- It is refused exactly when it has a comma or stands for nothing. -/
theorem ofName?_eq_none_iff : N.ofName? s = none ↔ ',' ∈ s.toList ∨ N.ofList s = [] := by
  by_cases hcomma : ',' ∈ s.toList
  · refine iff_of_true ?_ (.inl hcomma)
    exact Option.eq_none_iff_forall_ne_some.mpr fun c h => N.not_mem_of_ofName? h hcomma
  · rw [or_iff_right hcomma, N.ofList_of_no_comma hcomma, Option.toList_eq_nil_iff]

end Lists

end Names

/-! ## 4. A list as a set

What has been shown, as one statement about a list reader and the names it goes by, so that it can
be said of each of the readers without mentioning the structure they are made from. -/

section Sets

variable {α : Type}

/-- A comma list stands for a set of things, which are kept in one order. -/
structure ListsNames (name : α → String) (ofList : String → List α) : Prop where
  nodup : ∀ s, (ofList s).Nodup
  /-- A thing is in the set when some token is its name, in any case and with blanks around it. -/
  mem_iff : ∀ s c, c ∈ ofList s ↔
    ∃ t, Text.TokenOf ',' s.toList t ∧ Text.Spells t (name c).toList
  /-- Two lists with a comma between them stand for the union. -/
  append : ∀ a b c, c ∈ ofList (a ++ "," ++ b) ↔ c ∈ ofList a ∨ c ∈ ofList b
  /-- Of the texts between commas only those matter that stand for something, and only whether they
  are there. -/
  tokens : ∀ ts us : List String, (∀ t, ofList t ≠ [] → (t ∈ ts ↔ t ∈ us)) →
    ofList (",".intercalate ts) = ofList (",".intercalate us)

/-- Every closed list is read in this way. -/
theorem Names.listsNames [DecidableEq α] (N : Names α) : ListsNames N.name N.ofList where
  nodup := N.nodup_ofList
  mem_iff _ _ := N.mem_ofList_iff_spells
  append a b _ := N.mem_ofList_append a b
  tokens _ _ := N.ofList_intercalate_eq

end Sets

end UpgradeScan
