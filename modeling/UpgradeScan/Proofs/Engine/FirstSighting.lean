/-
`Proofs/Engine/FirstSighting.lean` -- a reader stops at the first thing that a judge sees.

A judge lists all defects of a value and a reader stops at one. `Heeds P r x seen` relates the
result `x` of a reader to what was seen: where nothing was seen it is something with `P`, read up to
`r`, and otherwise it is the defect that was seen first. `Obeys read judge D` says so of a reader
and a judge at every value of the domain `D`, after any blanks and before anything that ends a
value.

The relation chains. What is read after a place heeds what is seen there and then (`Heeds.chain`):
if something was seen before, the reader has stopped and what comes next does not matter; if not,
only what comes next does. That one lemma replaces the case analysis over where in a document the
first defect is, and the proofs here go along the parts of a value with it.

It is proved of every place that holds one value and carried over to lists. The members of an entry
come in `Proofs/Engine/FirstDefect.lean`.
-/
import UpgradeScan.Proofs.Engine.Entries
import UpgradeScan.Proofs.Engine.Sightings

set_option autoImplicit false

namespace UpgradeScan.EngineText

open UpgradeScan.JsonText

/-! ## 1. Results and what was seen

Results and lists of sightings, compared without regard to what was read. -/

/-- Nothing was seen and the reader goes on, or it stops at the first thing that was seen. -/
inductive Heeds {α : Type} (P : α → Prop) (r : Bytes) : Reading α → List Sighting → Prop
  | ok {a : α} (h : P a) : Heeds P r (.ok (a, r)) []
  | error (s : Sighting) (seen : List Sighting) : Heeds P r (.error s.defect) (s :: seen)

section Heeds

variable {α β : Type} {P : α → Prop} {Q : β → Prop} {r r' : Bytes} {x : Reading α}
  {y : Reading β} {seen seen' : List Sighting}

/-- What comes next is read only where nothing was seen before. -/
theorem Heeds.chain (h : Heeds P r x seen)
    (hok : ∀ a, P a → x = .ok (a, r) → Heeds Q r' y seen')
    (herr : ∀ d, x = .error d → y = .error d) : Heeds Q r' y (seen ++ seen') := by
  cases h with
  | ok ha => exact hok _ ha rfl
  | error s seen =>
    rw [herr s.defect rfl]
    exact .error s (seen ++ seen')

/-- What is known of the result may be weakened. -/
theorem Heeds.imp {P' : α → Prop} (h : Heeds P r x seen) (hP : ∀ a, P a → P' a) :
    Heeds P' r x seen := by
  cases h with
  | ok ha => exact .ok (hP _ ha)
  | error s seen => exact .error s seen

/-- A result that is only filed away heeds the same. -/
theorem Heeds.filed (h : Heeds P r x seen) (put : α → β)
    (hok : ∀ a, P a → x = .ok (a, r) → y = .ok (put a, r) ∧ Q (put a))
    (herr : ∀ d, x = .error d → y = .error d) : Heeds Q r y seen := by
  cases h with
  | ok ha =>
    obtain ⟨rfl, hq⟩ := hok _ ha rfl
    exact .ok hq
  | error s seen =>
    rw [herr s.defect rfl]
    exact .error s seen

end Heeds

/-- The reader heeds the judge at every value of the domain. -/
def Obeys {α : Type} (read : Bytes → Reading α) (judge : Judge) (D : Tree → Prop) : Prop :=
  ∀ {v : Tree}, D v → ∀ (n : Nat) {w r : Bytes}, Blanks w → Ends r →
    Heeds (fun _ => True) r (read (w ++ (v.text ++ r))) (judge n v)

/-- A reader heeds a judge on any smaller domain. -/
theorem Obeys.mono {α : Type} {read : Bytes → Reading α} {judge : Judge} {D D' : Tree → Prop}
    (h : Obeys read judge D) (hD : ∀ v, D' v → D v) : Obeys read judge D' :=
  fun hv => h (hD _ hv)

/-! ## 2. What is found at a value

What kind of value stands at a place is seen from its first byte, and the reader decides by that
byte. For a value that is whole, the kind it reports is the kind of the value. -/

/-- A number is read as what its digits stand for. -/
theorem number_text {t r : Bytes} {x : Numeral} {n : JsonNumber} (ht : NumeralText t x)
    (hn : x.value? = some n) (hr : Ends r) : number (t ++ r) = some (n, r) := by
  rw [number, numeral_complete ht hr]
  simp only [hn, Option.map_some]

/-- The defect names the kind of the value that stands there. -/
theorem misfit_text (e : Expected) (v : Tree) {r : Bytes} (hr : Ends r) :
    misfit e (v.text ++ r) = .wrongKind v.found e := by
  cases v with
  | null => rfl
  | bool b => cases b <;> rfl
  | number t x n ht hn =>
    have hnum := number_text ht hn hr
    obtain ⟨b, u, rfl, hb, hne⟩ := ht.exists_first
    rw [List.cons_append] at hnum
    simp only [misfit, Tree.text, Tree.found, List.cons_append, hnum, Option.map_some,
      if_neg (hne 0x6E (by decide) (by decide)), if_neg (hne 0x74 (by decide) (by decide)),
      if_neg (hne 0x66 (by decide) (by decide)), if_neg (hne 0x22 (by decide) (by decide)),
      Bool.or_eq_true, decide_eq_true_eq, if_pos hb]
  | string t s h =>
    obtain ⟨u, rfl, hu⟩ := h
    have hstring : string (u ++ 0x22 :: r) = some (s, r) := string_eq_some_iff.mpr ⟨u, hu, rfl⟩
    simp [misfit, Tree.text, Tree.found, hstring]
  | list items => rfl
  | object members => rfl

section Values

variable {v : Tree} {w r : Bytes}

/-- Where a string is found it is read. -/
theorem readText_string (e : Expected) {s : String} (hv : v.found = .string s) (hw : Blanks w)
    (hr : Ends r) : readText e (w ++ (v.text ++ r)) = .ok (s, r) := by
  cases v with
  | string t s' h =>
    obtain rfl := Found.string.inj hv
    exact (reads_text e).complete h hw hr
  | _ => cases hv

/-- Where anything else is found, its kind is reported. -/
theorem readText_misfit (e : Expected) (hv : ∀ s, v.found ≠ .string s) (hw : Blanks w)
    (hr : Ends r) : readText e (w ++ (v.text ++ r)) = .error (.wrongKind v.found e) := by
  obtain ⟨b, u, hbu, hb⟩ := v.exists_heads
  have hskip := v.opens.skipSpace hw r
  unfold readText
  split
  -- no other value begins with a quote
  · next t ht =>
    rw [hskip, hbu, List.cons_append] at ht
    obtain ⟨s, hs⟩ := hb.string.mp (List.cons.inj ht).1
    exact absurd hs (hv s)
  · rw [hskip, misfit_text e v hr]

end Values

/-! ## 3. Places that hold one value

Each reader of one value with the judge of its place. A reader that succeeds where the judge sees
nothing, and fails with the defect that it sees, heeds it (`obeys_single`). -/

/-- A place is judged by what is found there. -/
theorem obeys_single {α : Type} {read : Bytes → Reading α} {defect? : Found → Option Defect}
    (h : ∀ {v : Tree} {w r : Bytes}, Blanks w → Ends r →
      (defect? v.found = none → ∃ a, read (w ++ (v.text ++ r)) = .ok (a, r)) ∧
      ∀ d, defect? v.found = some d → read (w ++ (v.text ++ r)) = .error d) :
    Obeys read (single defect?) (fun _ => True) := by
  intro v _ n w r hw hr
  obtain ⟨hnone, hsome⟩ := h (v := v) hw hr
  rw [single]
  cases hd : defect? v.found with
  | none =>
    obtain ⟨a, ha⟩ := hnone hd
    rw [ha]
    exact .ok trivial
  | some d =>
    rw [hsome d hd]
    exact .error ⟨n, d⟩ []

/-- What is no string is of the wrong kind for a text. -/
theorem textDefect?_of_ne (e : Expected) {f : Found} (h : ∀ s, f ≠ .string s) :
    textDefect? e f = some (.wrongKind f e) := by
  cases f with
  | string s => exact absurd rfl (h s)
  | _ => rfl

/-- A place for a text. -/
theorem obeys_text (e : Expected) :
    Obeys (readText e) (single (textDefect? e)) (fun _ => True) := by
  refine obeys_single fun {v w r} hw hr => ?_
  by_cases hv : ∃ s, v.found = .string s
  · obtain ⟨s, hs⟩ := hv
    simp [hs, readText_string e hs hw hr, textDefect?]
  · have hne : ∀ s, v.found ≠ .string s := not_exists.mp hv
    simp [textDefect?_of_ne e hne, readText_misfit e hne hw hr]

/-- A place for a path. -/
theorem obeys_path : Obeys readPath (single (textDefect? .path)) (fun _ => True) := by
  intro v hv n w r hw hr
  refine (obeys_text .path hv n hw hr).filed Path.mk (fun s _ hs => ?_) fun d hd => ?_
  · rw [readPath, hs]
    exact ⟨rfl, trivial⟩
  · rw [readPath, hd]

/-- What is no null has to be a path. -/
theorem readOptionalPath_of_ne {v : Tree} {w r : Bytes} (hv : v.found ≠ .null) (hw : Blanks w) :
    (∀ p u, readPath (v.text ++ r) = .ok (p, u) →
      readOptionalPath (w ++ (v.text ++ r)) = .ok (some p, u)) ∧
    ∀ d, readPath (v.text ++ r) = .error d →
      readOptionalPath (w ++ (v.text ++ r)) = .error d := by
  obtain ⟨b, u, hbu, hb⟩ := v.exists_heads
  have hskip := v.opens.skipSpace hw r
  unfold readOptionalPath
  split
  -- no other value begins with the letter of null
  · next t ht =>
    rw [hskip, hbu, List.cons_append] at ht
    exact absurd (hb.null.mp (List.cons.inj ht).1) hv
  · rw [hskip]
    exact ⟨fun p u h => by simp only [h], fun d h => by simp only [h]⟩

/-- A place for a path that may be left open: `null` is accepted, and everything else is judged as a
path. -/
theorem obeys_optionalPath :
    Obeys readOptionalPath (single optionalPathDefect?) (fun _ => True) := by
  intro v hv n w r hw hr
  by_cases hnull : v.found = .null
  · cases v with
    | null =>
      have hread := reads_optionalPath.complete (a := none) (.inl ⟨rfl, rfl⟩) hw hr
      rw [Tree.text, hread]
      exact .ok trivial
    | _ => cases hnull
  · obtain ⟨hok, herr⟩ := readOptionalPath_of_ne (r := r) hnull hw
    have hpath := obeys_path (v := v) hv n blanks_nil hr
    have hsame : single optionalPathDefect? n v = single (textDefect? .path) n v := by
      cases v with
      | null => exact absurd rfl hnull
      | _ => rfl
    rw [List.nil_append] at hpath
    rw [hsame]
    exact hpath.filed some (fun p _ hp => ⟨hok p r hp, trivial⟩) herr

/-- A name is a text that is looked up, so what is wrong with it is what the look-up says. -/
theorem obeys_name {α : Type} (N : Names α) :
    Obeys (readName N) (single (nameDefect? (N.all.map N.name) N.unknown)) (fun _ => True) := by
  refine obeys_single fun {v w r} hw hr => ?_
  -- A text is looked up after it was trimmed; anything else fails before the lookup.
  by_cases hv : ∃ s, v.found = .string s
  · obtain ⟨s, hs⟩ := hv
    have htext := readText_string .text hs hw hr
    rw [hs, nameDefect?]
    cases hany : (N.all.map N.name).any fun a => Text.sameLetters a (Text.trimmed s) with
    | true =>
      obtain ⟨a, ha, hsame⟩ := List.any_eq_true.mp hany
      obtain ⟨c, -, rfl⟩ := List.mem_map.mp ha
      simp [readName, htext, N.read_eq_ok_iff.mpr hsame]
    | false =>
      have hread : N.read s = .error (N.unknown (Text.trimmed s)) :=
        N.read_eq_error fun c hc => List.any_eq_false.mp hany _ (List.mem_map_of_mem hc)
      simp [readName, htext, hread]
  · have hne : ∀ s, v.found ≠ .string s := not_exists.mp hv
    have hdefect : nameDefect? (N.all.map N.name) N.unknown v.found =
        some (.wrongKind v.found .text) := by
      rw [← textDefect?_of_ne .text hne]
      cases hf : v.found with
      | string s => exact absurd hf (hne s)
      | _ => rfl
    simp [hdefect, readName, readText_misfit .text hne hw hr]

theorem obeys_category : Obeys readCategory
    (single (nameDefect? (Category.all.map Category.name) .category)) (fun _ => True) :=
  obeys_name Category.names

theorem obeys_confidence : Obeys readConfidence
    (single (nameDefect? (Confidence.all.map Confidence.name) .confidence)) (fun _ => True) :=
  obeys_name Confidence.names

/-- A place for a line. A number that is negative and one that is no integer have defects of their
own. -/
theorem obeys_line : Obeys readLine (single lineDefect?) (fun _ => True) := by
  refine obeys_single fun {v w r} hw hr => ?_
  obtain ⟨b, u, hbu, hb⟩ := v.exists_heads
  have hskip := v.opens.skipSpace hw r
  rw [hbu, List.cons_append] at hskip ⊢
  -- The reader looks at one byte only; that byte tells a number from everything else.
  by_cases hv : ∃ n, v.found = .number n
  · obtain ⟨n, hn⟩ := hv
    have hnum : number (b :: (u ++ r)) = some (n, r) := by
      cases v with
      | number t x m ht hm =>
        obtain rfl := Found.number.inj hn
        rw [← List.cons_append, ← hbu]
        exact number_text ht hm hr
      | _ => cases hn
    have hfirst : (b = 0x2D || isDigit b) = true := by
      rw [Bool.or_eq_true, decide_eq_true_eq]
      exact hb.number.mpr ⟨n, hn⟩
    simp only [readLine, hskip, if_pos hfirst, hnum, hn]
    cases n with
    | natural n => simp [lineDefect?]
    | negative n => simp [lineDefect?]
    | real x => simp [lineDefect?]
  · have hfirst : ¬ (b = 0x2D || isDigit b) = true := by
      rw [Bool.or_eq_true, decide_eq_true_eq]
      exact fun h => hv (hb.number.mp h)
    have hdefect : lineDefect? v.found = some (.wrongKind v.found .lineNumber) := by
      cases hf : v.found with
      | number n => exact absurd ⟨n, hf⟩ hv
      | _ => rfl
    have hmisfit := misfit_text .lineNumber v hr
    rw [hbu, List.cons_append] at hmisfit
    have hread : readLine (w ++ b :: (u ++ r)) = .error (.wrongKind v.found .lineNumber) := by
      simp only [readLine, hskip, if_neg hfirst, hmisfit]
    simp [hread, hdefect]

/-! ## 4. Lists

Items are stretches one after the other, so they chain. -/

section Lists

variable {α : Type} {item : Bytes → Reading α} {judge : Judge} {D : Tree → Prop}

/-- One step for each item: the reader stops at it or goes on behind it. -/
theorem heeds_items (O : Obeys item judge D) :
    ∀ {first : Bool} (u : ItemTrees first) {n : Nat} (place : Nat) (r : Bytes),
      u.text.length ≤ n → (∀ v ∈ u.trees, D v) →
      Heeds (fun _ => True) r (readItems item n first (u.text ++ r)) (itemSightings judge place u)
  | first, .close w hw, n, _, r, hn, _ => by
    have hend : readEnd (0x5D :: r) = .ok r := readEnd_eq_ok_iff.mpr ⟨[], blanks_nil, rfl⟩
    rw [ItemTrees.text, List.length_append, List.length_singleton] at hn
    obtain ⟨n, rfl⟩ := Nat.exists_eq_add_one.mpr (by omega : 0 < n)
    rw [readItems, ItemTrees.text, List.append_assoc, List.singleton_append,
      readItem_end item first hw]
    simp only [hend]
    exact .ok trivial
  | first, .item l hl v rest, n, place, r, hn, hD => by
    have hpos := v.opens.length_pos
    rw [ItemTrees.text, List.length_append, List.length_append] at hn
    obtain ⟨n, rfl⟩ := Nat.exists_eq_add_one.mpr (by omega : 0 < n)
    rw [ItemTrees.trees, List.forall_mem_cons] at hD
    obtain ⟨w, hw, hok, herr⟩ := readItem_lead item hl v.opens (rest.text ++ r)
    rw [readItems, ItemTrees.text, List.append_assoc, List.append_assoc, itemSightings]
    refine (O hD.1 (place + l.length) hw (rest.ends r)).chain (fun a _ ha => ?_) fun d hd => ?_
    · have hrest := heeds_items O rest (n := n) (place + l.length + v.text.length) r (by omega)
        hD.2
      rw [hok a _ ha]
      refine hrest.filed (a :: ·) (fun as _ has => ?_) fun d hd => ?_
      · simp only [has, and_self]
      · simp only [hd]
    · rw [herr d hd]

/-- **Lists.** A list is read up to the first thing that is wrong in its items. -/
theorem obeys_list (O : Obeys item judge D) :
    Obeys (readList item) (listOf judge) (fun v => ∀ i ∈ v.items, D i) := by
  intro v hv n w r hw hr
  obtain ⟨b, u, hbu, hb⟩ := v.exists_heads
  have hskip := v.opens.skipSpace hw r
  by_cases hlist : v.found = .list
  · cases v with
    | list items =>
      rw [Tree.text, List.cons_append] at hskip
      rw [Tree.text, List.cons_append, listOf]
      simp only [readList, hskip]
      refine heeds_items O items (n + 1) r ?_ hv
      rw [List.length_append]
      omega
    | _ => cases hlist
  · have hmisfit : readList item (w ++ (v.text ++ r)) = .error (.wrongKind v.found .list) := by
      unfold readList
      split
      -- no other value begins with the bracket
      · next t ht =>
        rw [hskip, hbu, List.cons_append] at ht
        exact absurd (hb.list.mp (List.cons.inj ht).1) hlist
      · rw [hskip, misfit_text .list v hr]
    rw [hmisfit, listOf_of_ne judge n hlist]
    exact .error ⟨n, _⟩ []

end Lists

end UpgradeScan.EngineText
