/-
`Proofs/Json/Layout.lean` -- what stands between brackets, apart from what is read there.

Lists and objects, the items of a report and the members of an entry are all laid out in the same
way: parts with commas between them, and blanks anywhere. What is proved about this layout is proved
here once, for parts of any kind.

Every reader of lists or objects looks at one byte after blanks and then takes the next part, so
what it needs of the layout is the same. Blanks may be put in front (`Parts.blanks`), a part is
followed by a byte that ends it (`Parts.ends`), and a reader that has taken a part finds either the
bracket or a comma (`Parts.skipSpace_nil`, `Parts.skipSpace_next`). A property of the parts can be
carried along, which is how the layout of one kind of text becomes that of another (`Parts.map`,
`Parts.imp`).

The relation `Parts` distinguishes the first part from the others, because a comma stands before all
but the first. `Lead` puts the two cases together: it is what stands before a part, and with it a
layout that is not empty is taken apart in one way (`parts_cons_iff`).
-/
import UpgradeScan.Proofs.Json.Token

set_option autoImplicit false

namespace UpgradeScan.JsonText

/-! ## 1. Parts

Induction on the layout. The flag and the text change from part to part; the bracket and the kind of
parts do not. -/

/-- A bracket that closes. -/
def IsCloser (b : UInt8) : Prop := b = 0x5D ∨ b = 0x7D

instance (b : UInt8) : Decidable (IsCloser b) := inferInstanceAs (Decidable (_ ∨ _))

section Parts

variable {α β : Type} {close : UInt8} {P : Bytes → α → Prop} {Q : Bytes → β → Prop}

/-- Blanks may be put in front of what stands between brackets. -/
theorem Parts.blanks {first : Bool} {w u : Bytes} {as : List α} (hw : Blanks w)
    (h : Parts close P first u as) : Parts close P first (w ++ u) as := by
  cases h with
  | close hw' =>
    rw [← List.append_assoc]
    exact .close (hw.append hw')
  | first hw' hv h =>
    rw [← List.append_assoc]
    exact .first (hw.append hw') hv h
  | next hw' hw'' hv h =>
    rw [← List.append_assoc]
    exact .next (hw.append hw') hw'' hv h

/-- What comes after a comma is laid out as what comes first. -/
theorem Parts.after_comma {w u : Bytes} {a : α} {as : List α} (hw : Blanks w)
    (h : Parts close P true u (a :: as)) : Parts close P false (w ++ 0x2C :: u) (a :: as) := by
  cases h with
  | first hw' hv h => exact .next hw hw' hv h

/-- Every part has a text. -/
theorem Parts.exists_text {first : Bool} {u : Bytes} {as : List α}
    (h : Parts close P first u as) {a : α} (ha : a ∈ as) : ∃ v, P v a := by
  induction h with
  | close hw => cases ha
  | first hw hv h ih =>
    rcases List.mem_cons.mp ha with rfl | ha
    · exact ⟨_, hv⟩
    · exact ih ha
  | next hw hw' hv h ih =>
    rcases List.mem_cons.mp ha with rfl | ha
    · exact ⟨_, hv⟩
    · exact ih ha

/-- What the parts stand for may change, part by part. -/
theorem Parts.map {first : Bool} {u : Bytes} {as : List α} (f : α → β)
    (h : Parts close P first u as) (imp : ∀ v a, a ∈ as → P v a → Q v (f a)) :
    Parts close Q first u (as.map f) := by
  induction h with
  | close hw => exact .close hw
  | first hw hv h ih =>
    exact .first hw (imp _ _ List.mem_cons_self hv)
      (ih fun v a ha => imp v a (List.mem_cons_of_mem _ ha))
  | next hw hw' hv h ih =>
    exact .next hw hw' (imp _ _ List.mem_cons_self hv)
      (ih fun v a ha => imp v a (List.mem_cons_of_mem _ ha))

/-- Parts that were mapped stand for what they were mapped from. -/
theorem Parts.of_map {first : Bool} {u : Bytes} {bs : List β} (f : β → α)
    (h : Parts close P first u (bs.map f)) : Parts close (fun v b => P v (f b)) first u bs := by
  generalize has : bs.map f = as at h
  induction h generalizing bs with
  | close hw =>
    rw [List.map_eq_nil_iff.mp has]
    exact .close hw
  | first hw hv h ih =>
    obtain ⟨b, bs, rfl, rfl, rfl⟩ := List.map_eq_cons_iff.mp has
    exact .first hw hv (ih rfl)
  | next hw hw' hv h ih =>
    obtain ⟨b, bs, rfl, rfl, rfl⟩ := List.map_eq_cons_iff.mp has
    exact .next hw hw' hv (ih rfl)

/-- Parts are parts of another kind when each of them is. -/
theorem Parts.imp {first : Bool} {u : Bytes} {as : List α} {P' : Bytes → α → Prop}
    (h : Parts close P first u as) (imp : ∀ v a, a ∈ as → P v a → P' v a) :
    Parts close P' first u as := by
  have := h.map id imp
  rwa [List.map_id] at this

theorem Parts.length_pos {first : Bool} {u : Bytes} {as : List α}
    (h : Parts close P first u as) : 0 < u.length := by
  induction h <;> simp only [List.length_append, List.length_cons] <;> omega

end Parts

theorem ends_cons {b : UInt8} {s : Bytes} (h : isSpace b = true ∨ b = 0x2C ∨ IsCloser b) :
    Ends (b :: s) := h

/-- Blanks and then a comma or a closing bracket end a value. -/
theorem ends_blanks {w : Bytes} {b : UInt8} {s : Bytes} (hw : Blanks w)
    (hb : b = 0x2C ∨ IsCloser b) : Ends (w ++ b :: s) := by
  cases w with
  | nil => exact ends_cons (.inr hb)
  | cons a w => exact ends_cons (.inl (hw a List.mem_cons_self))

/-- So do blanks before the end. -/
theorem ends_of_blanks {w : Bytes} (hw : Blanks w) : Ends w := by
  cases w with
  | nil => trivial
  | cons a w => exact ends_cons (.inl (hw a List.mem_cons_self))

/-- What comes after a part ends it. -/
theorem Parts.ends {α : Type} {close : UInt8} {P : Bytes → α → Prop} {u : Bytes} {as : List α}
    (hc : IsCloser close) (h : Parts close P false u as) (r : Bytes) : Ends (u ++ r) := by
  cases h with
  | close hw =>
    rw [List.append_assoc]
    exact ends_blanks hw (.inr hc)
  | next hw hw' hv h =>
    rw [List.append_assoc]
    exact ends_blanks hw (.inl rfl)

/-- What stands before a part: blanks, and a comma among them unless the part is the first. -/
def Lead : Bool → Bytes → Prop
  | true, w => Blanks w
  | false, w => ∃ u v, Blanks u ∧ Blanks v ∧ w = u ++ 0x2C :: v

section Lead

variable {α : Type} {close : UInt8} {P : Bytes → α → Prop} {first : Bool}

/-- Without parts there are blanks and the bracket. -/
theorem parts_nil_iff {u : Bytes} :
    Parts close P first u [] ↔ ∃ w, Blanks w ∧ u = w ++ [close] := by
  constructor
  · rintro ⟨hw⟩
    exact ⟨_, hw, rfl⟩
  · rintro ⟨w, hw, rfl⟩
    exact .close hw

/-- With parts there is the first one, behind what leads to it, and the rest. -/
theorem parts_cons_iff {u : Bytes} {a : α} {as : List α} :
    Parts close P first u (a :: as) ↔
      ∃ w v s, Lead first w ∧ P v a ∧ Parts close P false s as ∧ u = w ++ (v ++ s) := by
  constructor
  · intro h
    cases h with
    | first hw hv h => exact ⟨_, _, _, hw, hv, h, rfl⟩
    | next hw hw' hv h => exact ⟨_, _, _, ⟨_, _, hw, hw', rfl⟩, hv, h, by simp⟩
  · rintro ⟨w, v, s, hw, hv, h, rfl⟩
    cases first with
    | true => exact .first hw hv h
    | false =>
      obtain ⟨x, y, hx, hy, rfl⟩ := hw
      rw [List.append_assoc, List.cons_append]
      exact .next hx hy hv h

end Lead

section After

variable {α : Type} {close : UInt8} {P : Bytes → α → Prop} {s : Bytes}

/-- What a reader finds after the last part. -/
theorem Parts.skipSpace_nil {first : Bool} (hc : IsCloser close) (h : Parts close P first s [])
    (r : Bytes) : skipSpace (s ++ r) = close :: r := by
  have hclose : isSpace close = false := by rcases hc with rfl | rfl <;> decide
  obtain ⟨w, hw, rfl⟩ := parts_nil_iff.mp h
  rw [List.append_assoc, skipSpace_append _ hw, List.singleton_append, skipSpace_cons _ hclose]

/-- What a reader finds after a part that more parts follow. -/
theorem Parts.skipSpace_next {a : α} {as : List α} (h : Parts close P false s (a :: as))
    (r : Bytes) : ∃ u, Parts close P true u (a :: as) ∧ u.length < s.length ∧
      skipSpace (s ++ r) = 0x2C :: (u ++ r) := by
  obtain ⟨l, v, x, ⟨w, w', hw, hw', rfl⟩, hv, hx, rfl⟩ := parts_cons_iff.mp h
  refine ⟨w' ++ (v ++ x), parts_cons_iff.mpr ⟨w', v, x, hw', hv, hx, rfl⟩, ?_, ?_⟩
  · simp only [List.length_append, List.length_cons]
    omega
  · simp only [List.append_assoc, List.cons_append]
    rw [skipSpace_append _ hw, skipSpace_cons _ (by decide)]

end After

/-! ## 2. How texts begin

A reader that skips blanks must not skip the beginning of what it reads, and must not take it for a
comma or a bracket. -/

/-- A text begins with a byte that is no blank, no comma and no closing bracket. -/
def Opens (t : Bytes) : Prop :=
  ∃ b u, t = b :: u ∧ isSpace b = false ∧ b ≠ 0x2C ∧ ¬ IsCloser b

/-- Blanks before a text are skipped, and nothing of the text is. -/
theorem Opens.skipSpace {w t : Bytes} (hw : Blanks w) (h : Opens t) (r : Bytes) :
    skipSpace (w ++ (t ++ r)) = t ++ r := by
  obtain ⟨b, u, rfl, hb, -⟩ := h
  rw [skipSpace_append _ hw]
  exact skipSpace_cons _ hb

theorem Opens.length_pos {t : Bytes} (h : Opens t) : 0 < t.length := by
  obtain ⟨b, u, rfl, -⟩ := h
  exact Nat.succ_pos _

theorem opens_cons {b : UInt8} (u : Bytes) (hb : isSpace b = false) (hcomma : b ≠ 0x2C)
    (hc : ¬ IsCloser b) : Opens (b :: u) := ⟨b, u, rfl, hb, hcomma, hc⟩

/-- A digit opens a text. -/
theorem opens_of_isDigit {b : UInt8} (u : Bytes) (h : isDigit b = true) : Opens (b :: u) := by
  refine opens_cons u (isSpace_of_isDigit h) (ne_of_isDigit h (by decide)) ?_
  rintro (hc | hc)
  · exact ne_of_isDigit h (by decide) hc
  · exact ne_of_isDigit h (by decide) hc

theorem opens_quoted {t : Bytes} (h : QuotedForm t) : Opens t := by
  obtain ⟨u, rfl, -⟩ := h
  exact opens_cons _ (by decide) (by decide) (by decide)

theorem opens_list {α : Type} {P : Bytes → α → Prop} {t : Bytes} {as : List α}
    (h : ListText P t as) : Opens t := by
  obtain ⟨u, rfl, -⟩ := h
  exact opens_cons _ (by decide) (by decide) (by decide)

theorem opens_object {κ : Type} {K : Bytes → κ → Prop} {t : Bytes} {ms : List (κ × Bytes)}
    (h : ObjectText K t ms) : Opens t := by
  obtain ⟨u, rfl, -⟩ := h
  exact opens_cons _ (by decide) (by decide) (by decide)

/-- A member opens as its key does. -/
theorem opens_member {κ : Type} {K : Bytes → κ → Prop} {t : Bytes} {m : κ × Bytes}
    (hK : ∀ t k, K t k → Opens t) (h : MemberText K t m) : Opens t := by
  obtain ⟨k, w, w', hk, -, -, rfl⟩ := h
  obtain ⟨b, u, rfl, hb⟩ := hK _ _ hk
  exact ⟨b, _, rfl, hb⟩

/-- An object whose keys are texts and whose values are values is a value. -/
theorem value_of_objectText {t : Bytes} {ms : List (String × Bytes)}
    (h : ObjectText Quoted t ms) (hms : ∀ m ∈ ms, Value m.2) : Value t := by
  obtain ⟨u, rfl, hu⟩ := h
  have main : ∀ first, Parts 0x7D (MemberText Quoted) first u ms →
      ∃ ms', Parts 0x7D (MemberText (Form QuotedForm)) first u ms' ∧ ∀ m ∈ ms', Value m.2 := by
    intro first hparts
    clear hu
    -- the keys change what they stand for, so the parts are laid out anew
    induction ms generalizing first u with
    | nil =>
      obtain ⟨w, hw, rfl⟩ := parts_nil_iff.mp hparts
      exact ⟨[], .close hw, by simp⟩
    | cons m ms ih =>
      obtain ⟨l, v, s, hl, ⟨k, w, w', hk, hw, hw', rfl⟩, hs, rfl⟩ := parts_cons_iff.mp hparts
      obtain ⟨ms', hparts', hms'⟩ := ih (fun m hm => hms m (List.mem_cons_of_mem _ hm)) s false hs
      refine ⟨(k, m.2) :: ms', parts_cons_iff.mpr ⟨l, _, s, hl,
        ⟨k, w, w', ⟨rfl, quotedForm_of_quoted hk⟩, hw, hw', rfl⟩, hparts', rfl⟩, ?_⟩
      intro m' hm'
      rcases List.mem_cons.mp hm' with rfl | hm'
      · exact hms m List.mem_cons_self
      · exact hms' m' hm'
  obtain ⟨ms', hparts, hms'⟩ := main true hu
  exact .object ⟨u, rfl, hparts⟩ hms'

end UpgradeScan.JsonText
