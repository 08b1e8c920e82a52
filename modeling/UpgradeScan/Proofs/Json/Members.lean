/-
`Proofs/Json/Members.lean` -- the members of an object are determined by its text.

The grammar says which bytes are an object with given members. It does not say that they are so in
one way only, and for a statement about "the member of that name" this has to be known. A grammar
over bytes can be ambiguous: blanks may stand in many places, and a value may contain everything
that ends one.

That it is not follows from the readers, which are functions. A key ends where the reader of strings
stops. A value ends where it is passed over: the reader that passes over values accepts every value
before anything that ends one, so two values that begin the same bytes end at the same place
(`Value.eq_of_append_eq`). Then a member is determined (`ValueMember.eq_of_append_eq`), and by
induction all members are (`objectText_unique`). So the text of a member is a thing that one can
speak of, whoever reads it (`HasMember`).

The induction over the parts does not look at what the parts are. It asks of them that they open as
values do and that each can be read in one way before something that ends it (`Determined`), so it
serves for the items of a list as well.
-/
import UpgradeScan.Proofs.Json.Printed
import UpgradeScan.Proofs.Json.Skip

set_option autoImplicit false

namespace UpgradeScan.JsonText

/-! ## 1. One member

The key and the value of a member, each with its own end. -/

/-- A key, a colon and a value, whose text is that of a value. -/
def ValueMember (t : Bytes) (m : String × Bytes) : Prop := MemberText Quoted t m ∧ Value m.2

/-- A member begins with the quote of its key. -/
theorem ValueMember.opens {t : Bytes} {m : String × Bytes} (h : ValueMember t m) : Opens t :=
  opens_member (fun _ _ hk => opens_quoted (quotedForm_of_quoted hk)) h.1

/-- A value ends at one place only. -/
theorem Value.eq_of_append_eq {v v' r r' : Bytes} (h : Value v) (h' : Value v') (hr : Ends r)
    (hr' : Ends r') (heq : v ++ r = v' ++ r') : v = v' ∧ r = r' := by
  have hskip : skip (v ++ r) = some r := skip_complete blanks_nil h hr
  have hskip' : skip (v' ++ r') = some r' := skip_complete blanks_nil h' hr'
  rw [heq, hskip'] at hskip
  obtain rfl := Option.some.inj hskip
  exact ⟨List.append_cancel_right heq, rfl⟩

/-- Before something that ends a value, one member can be read in one way only. -/
theorem ValueMember.eq_of_append_eq {t t' r r' : Bytes} {m m' : String × Bytes}
    (h : ValueMember t m) (h' : ValueMember t' m') (hr : Ends r) (hr' : Ends r')
    (heq : t ++ r = t' ++ r') : m = m' ∧ r = r' := by
  obtain ⟨k, v⟩ := m
  obtain ⟨k', v'⟩ := m'
  obtain ⟨⟨_, w, x, ⟨q, rfl, hq⟩, hw, hx, rfl⟩, hv⟩ := h
  obtain ⟨⟨_, w', x', ⟨q', rfl, hq'⟩, hw', hx', rfl⟩, hv'⟩ := h'
  simp only [List.append_assoc, List.cons_append, List.nil_append, List.cons.injEq,
    true_and] at heq
  -- the key, by the reader of strings
  have hstring : string (q ++ 0x22 :: (w ++ 0x3A :: (x ++ (v ++ r)))) =
      some (k, w ++ 0x3A :: (x ++ (v ++ r))) := string_eq_some_iff.mpr ⟨q, hq, rfl⟩
  have hstring' : string (q' ++ 0x22 :: (w' ++ 0x3A :: (x' ++ (v' ++ r')))) =
      some (k', w' ++ 0x3A :: (x' ++ (v' ++ r'))) := string_eq_some_iff.mpr ⟨q', hq', rfl⟩
  rw [heq, hstring'] at hstring
  obtain ⟨rfl, hafter⟩ := Prod.mk.inj (Option.some.inj hstring)
  -- the colon, after blanks
  have hcolon := congrArg skipSpace hafter
  rw [skipSpace_append _ hw, skipSpace_append _ hw', skipSpace_cons _ (by decide),
    skipSpace_cons _ (by decide), List.cons.injEq] at hcolon
  -- the value, after blanks
  have hvalue := congrArg skipSpace hcolon.2
  rw [hv.opens.skipSpace hx, hv'.opens.skipSpace hx'] at hvalue
  obtain ⟨rfl, rfl⟩ := hv'.eq_of_append_eq hv hr' hr hvalue
  exact ⟨rfl, rfl⟩

/-! ## 2. All parts

Parts are compared from the front. What stands before a part is blanks and perhaps a comma, and it
ends where the part opens. -/

/-- What stands before a part ends where the part opens. -/
theorem Lead.eq_of_append_eq {first : Bool} {w w' t t' r r' : Bytes} (hw : Lead first w)
    (hw' : Lead first w') (ht : Opens t) (ht' : Opens t')
    (heq : w ++ (t ++ r) = w' ++ (t' ++ r')) : t ++ r = t' ++ r' := by
  cases first with
  | true =>
    have hskip := congrArg skipSpace heq
    rwa [ht.skipSpace hw, ht'.skipSpace hw'] at hskip
  | false =>
    obtain ⟨x, y, hx, hy, rfl⟩ := hw
    obtain ⟨x', y', hx', hy', rfl⟩ := hw'
    simp only [List.append_assoc, List.cons_append] at heq
    have hcomma := congrArg skipSpace heq
    rw [skipSpace_append _ hx, skipSpace_append _ hx', skipSpace_cons _ (by decide),
      skipSpace_cons _ (by decide), List.cons.injEq] at hcomma
    have hskip := congrArg skipSpace hcomma.2
    rwa [ht.skipSpace hy, ht'.skipSpace hy'] at hskip

/-- Where a part opens there is no closing bracket. -/
theorem Lead.append_ne_close {first : Bool} {w t r x : Bytes} {close : UInt8} (hc : IsCloser close)
    (hw : Lead first w) (ht : Opens t) (hx : Blanks x) : w ++ (t ++ r) ≠ x ++ [close] := by
  have hclose : isSpace close = false ∧ close ≠ 0x2C := by rcases hc with rfl | rfl <;> decide
  intro heq
  have hskip := congrArg skipSpace heq
  rw [skipSpace_append _ hx, skipSpace_cons _ hclose.1] at hskip
  cases first with
  | true =>
    rw [ht.skipSpace hw] at hskip
    obtain ⟨b, s, rfl, -, -, hb⟩ := ht
    rw [List.cons_append, List.cons.injEq] at hskip
    exact hb (hskip.1 ▸ hc)
  | false =>
    obtain ⟨y, z, hy, -, rfl⟩ := hw
    rw [List.append_assoc, skipSpace_append _ hy, List.cons_append,
      skipSpace_cons _ (by decide)] at hskip
    exact hclose.2 (List.cons.inj hskip).1.symm

/-- Before something that ends it, a part can be read in one way only. -/
structure Determined {α : Type} (P : Bytes → α → Prop) : Prop where
  opens : ∀ {t a}, P t a → Opens t
  eq_of_append_eq : ∀ {t t' r r' a a'}, P t a → P t' a' → Ends r → Ends r' → t ++ r = t' ++ r' →
    a = a' ∧ r = r'

/-- A member is determined before something that ends it. -/
theorem determined_member : Determined ValueMember where
  opens := ValueMember.opens
  eq_of_append_eq := ValueMember.eq_of_append_eq

section Parts

variable {α : Type} {P : Bytes → α → Prop} {close : UInt8}

/-- What comes after a part ends it, also when nothing comes after the layout. -/
theorem ends_of_parts (hc : IsCloser close) {u : Bytes} {as : List α}
    (h : Parts close P false u as) : Ends u := by
  have hends := h.ends hc []
  rwa [List.append_nil] at hends

/-- Induction on the parts: the first is the same on both sides, and so is what follows it. -/
theorem parts_unique (D : Determined P) (hc : IsCloser close) {first : Bool} {u : Bytes}
    {as as' : List α} (h : Parts close P first u as) (h' : Parts close P first u as') :
    as = as' := by
  -- Both rows are followed from the left. Where one of them closes, the other cannot go on,
  -- since no item begins with a closing bracket.
  induction as generalizing first u as' with
  | nil =>
    obtain ⟨x, hx, rfl⟩ := parts_nil_iff.mp h
    cases as' with
    | nil => rfl
    | cons a' as' =>
      obtain ⟨w, t, s, hw, ht, -, hu⟩ := parts_cons_iff.mp h'
      exact absurd hu.symm (hw.append_ne_close hc (D.opens ht) hx)
  | cons a as ih =>
    obtain ⟨w, t, s, hw, ht, hs, rfl⟩ := parts_cons_iff.mp h
    cases as' with
    | nil =>
      obtain ⟨x, hx, hu⟩ := parts_nil_iff.mp h'
      exact absurd hu (hw.append_ne_close hc (D.opens ht) hx)
    | cons a' as' =>
      obtain ⟨w', t', s', hw', ht', hs', hu⟩ := parts_cons_iff.mp h'
      have heq := hw.eq_of_append_eq hw' (D.opens ht) (D.opens ht') hu
      obtain ⟨rfl, rfl⟩ :=
        D.eq_of_append_eq ht ht' (ends_of_parts hc hs) (ends_of_parts hc hs') heq
      rw [ih hs hs']

/-- A list can be divided into items in one way only. -/
theorem listText_unique (D : Determined P) {t : Bytes} {as as' : List α} (h : ListText P t as)
    (h' : ListText P t as') : as = as' := by
  obtain ⟨u, rfl, hu⟩ := h
  obtain ⟨u', heq, hu'⟩ := h'
  obtain rfl := (List.cons.inj heq).2
  exact parts_unique D (.inl rfl) hu hu'

end Parts

/-! ## 3. The member of a name

With one division there is one member at each place. A name may still be there twice, so `HasMember`
is a relation and not a function. -/

/-- The bytes are an object, and under this name it has a value with this text. -/
def HasMember (t : Bytes) (name : String) (v : Bytes) : Prop :=
  ∃ ms, ObjectText Quoted t ms ∧ (∀ m ∈ ms, Value m.2) ∧ (name, v) ∈ ms

/-- **One division.** An object can be divided into members in one way only. -/
theorem objectText_unique {t : Bytes} {ms ms' : List (String × Bytes)}
    (h : ObjectText Quoted t ms) (hms : ∀ m ∈ ms, Value m.2) (h' : ObjectText Quoted t ms')
    (hms' : ∀ m ∈ ms', Value m.2) : ms = ms' := by
  obtain ⟨u, rfl, hu⟩ := h
  obtain ⟨u', heq, hu'⟩ := h'
  obtain rfl := (List.cons.inj heq).2
  exact parts_unique determined_member (.inr rfl) (hu.imp fun _ m hm ht => ⟨ht, hms m hm⟩)
    (hu'.imp fun _ m hm ht => ⟨ht, hms' m hm⟩)

/-- The text of a member of a printed object is the printed value. -/
theorem hasMember_printed_iff {ms : List (String × Json)} (h : ∀ m ∈ ms, Fits m.2) (depth : Nat)
    {name : String} {v : Bytes} : HasMember (printed depth (.object ms)) name v ↔
      ∃ j, (name, j) ∈ ms ∧ v = printed (depth + 1) j := by
  have hvalues : ∀ m ∈ ms.map fun m => (m.1, printed (depth + 1) m.2), Value m.2 := by
    intro m hm
    obtain ⟨x, hx, rfl⟩ := List.mem_map.mp hm
    exact value_printed (h x hx) _
  constructor
  · rintro ⟨ms', hobject, hms', hmem⟩
    rw [objectText_unique hobject hms' (objectText_pretty depth ms) hvalues] at hmem
    obtain ⟨⟨k, j⟩, hj, heq⟩ := List.mem_map.mp hmem
    cases heq
    exact ⟨j, hj, rfl⟩
  · rintro ⟨j, hj, rfl⟩
    exact ⟨_, objectText_pretty depth ms, hvalues, List.mem_map.mpr ⟨(name, j), hj, rfl⟩⟩

end UpgradeScan.JsonText
