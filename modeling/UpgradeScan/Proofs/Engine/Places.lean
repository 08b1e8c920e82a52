/-
`Proofs/Engine/Places.lean` -- one reader, one kind of text.

The reader of reports is made of small readers, each for the value that stands in one place, and
every one of them gives back what it read and the bytes that are left. `Reads read S` says that such
a reader accepts exactly the texts of the relation `S`, with blanks in front, and gives back what
they stand for. It is one statement in two directions. Whatever is accepted was spelled (`sound`);
whatever is spelled is accepted, before anything that can follow a value (`complete`).

The second direction needs a condition on what follows. A number ends where no further digit comes,
so it cannot be read before just any bytes; `Ends` says what may come, and it is a blank, a comma, a
bracket or the end.

`Reads` is proved of every place that holds one value, and is carried over from the items of a list
to the list. It also makes a spelling unambiguous: two values with one text would both have to be
what the reader gives (`Reads.functional`). So nothing further is needed to see that a document is
not the document of two reports.
-/
import UpgradeScan.Proofs.Change
import UpgradeScan.Proofs.Engine.Spelling
import UpgradeScan.Proofs.Json.Skip

set_option autoImplicit false

namespace UpgradeScan.EngineText

open UpgradeScan.JsonText

/-! ## 1. Readers and texts

The interface between readers and relations. `opens` says that a text begins as a value does, so
that blanks before it are not part of it. -/

/-- The reader accepts the texts of `S`, after blanks and before anything that ends them. -/
structure Reads {α : Type} (read : Bytes → Reading α) (S : Bytes → α → Prop) : Prop where
  opens : ∀ {t a}, S t a → Opens t
  sound : ∀ {s r a}, read s = .ok (a, r) → ∃ w t, Blanks w ∧ S t a ∧ s = w ++ (t ++ r)
  complete : ∀ {t a}, S t a → ∀ {w r}, Blanks w → Ends r → read (w ++ (t ++ r)) = .ok (a, r)

section Reads

variable {α : Type} {read : Bytes → Reading α} {S : Bytes → α → Prop}

/-- A text stands for one thing at most. -/
theorem Reads.functional (R : Reads read S) {t : Bytes} {a a' : α} (h : S t a) (h' : S t a') :
    a = a' := by
  -- the reader gives both of them
  have e := R.complete h blanks_nil (r := []) trivial
  have e' := R.complete h' blanks_nil (r := []) trivial
  rw [e] at e'
  exact (Prod.mk.inj (Except.ok.inj e')).1

end Reads

/-! ## 2. Places that hold one value

Each reader of one value is held to its relation. The two kinds of names are one reader with two
lists. -/

/-- A result of the token level is passed on as it is. -/
theorem orMalformed_eq_ok_iff {α : Type} {o : Option α} {a : α} :
    orMalformed o = .ok a ↔ o = some a := by
  cases o with
  | none => simp [orMalformed]
  | some b => simp [orMalformed]

theorem opens_text {t : Bytes} {s : String} (h : Quoted t s) : Opens t :=
  opens_quoted (quotedForm_of_quoted h)

/-- A string is read as what stands between its quotes, with its escapes resolved. -/
theorem reads_text (e : Expected) : Reads (readText e) Quoted where
  opens := opens_text
  sound := by
    intro s r a h
    unfold readText at h
    split at h
    · next t ht =>
      obtain ⟨w, hw, rfl⟩ := exists_of_skipSpace ht
      obtain ⟨u, hu, rfl⟩ := string_eq_some_iff.mp (orMalformed_eq_ok_iff.mp h)
      exact ⟨w, _, hw, ⟨u, rfl, hu⟩, by simp⟩
    · cases h
  complete := by
    rintro t a ⟨u, rfl, hu⟩ w r hw hr
    have hskip : skipSpace (w ++ (0x22 :: (u ++ [0x22]) ++ r)) = 0x22 :: (u ++ 0x22 :: r) := by
      rw [(opens_text ⟨u, rfl, hu⟩).skipSpace hw]
      simp
    simp only [readText, hskip]
    exact orMalformed_eq_ok_iff.mpr (string_eq_some_iff.mpr ⟨u, hu, rfl⟩)

/-- A path is a string. -/
theorem reads_path : Reads readPath PathText where
  opens := opens_text
  sound := by
    intro s r a h
    unfold readPath at h
    split at h
    · next v t hv =>
      obtain ⟨rfl, rfl⟩ := Prod.mk.inj (Except.ok.inj h)
      exact (reads_text .path).sound hv
    · cases h
  complete := by
    intro t a h w r hw hr
    rw [readPath, (reads_text .path).complete h hw hr]

/-- A path may be `null`, which is not the same as a path that is left out. -/
theorem reads_optionalPath : Reads readOptionalPath OptionalPathText where
  opens := by
    rintro t o (⟨rfl, -⟩ | ⟨p, hp, -⟩)
    · exact Value.opens .null
    · exact opens_text hp
  sound := by
    intro s r o h
    unfold readOptionalPath at h
    split at h
    -- the letter of `null`, which no string begins with
    · next t ht =>
      obtain ⟨w, hw, rfl⟩ := exists_of_skipSpace ht
      split at h
      · next u hu =>
        obtain ⟨rfl, rfl⟩ := Prod.mk.inj (Except.ok.inj h)
        obtain rfl := word?_eq_some_iff.mp hu
        exact ⟨w, _, hw, .inl ⟨rfl, rfl⟩, rfl⟩
      · cases h
    · split at h
      · next p u hu =>
        obtain ⟨rfl, rfl⟩ := Prod.mk.inj (Except.ok.inj h)
        obtain ⟨w, t, hw, ht, hs⟩ := reads_path.sound hu
        obtain ⟨w', hw', hs'⟩ := exists_blanks s
        refine ⟨w' ++ w, t, hw'.append hw, .inr ⟨p, ht, rfl⟩, ?_⟩
        rw [List.append_assoc, ← hs, ← hs']
      · cases h
  complete := by
    rintro t o (⟨rfl, rfl⟩ | ⟨p, hp, rfl⟩) w r hw hr
    · rw [readOptionalPath, (Value.opens .null).skipSpace hw]
      rfl
    · obtain ⟨u, rfl, hu⟩ := hp
      have hread := reads_path.complete (a := p) ⟨u, rfl, hu⟩ blanks_nil hr
      rw [List.nil_append] at hread
      rw [readOptionalPath, (opens_text ⟨u, rfl, hu⟩).skipSpace hw]
      -- a string does not begin with the letter of `null`
      split
      · next heq => exact absurd (List.cons.inj heq).1 (by decide)
      · rw [hread]

/-- A name is a text that is looked up, so it is read when the look-up knows it. -/
theorem reads_name {α : Type} (N : Names α) : Reads (readName N) (fun t c =>
    ∃ v, Quoted t v ∧ Text.sameLetters (N.name c) (Text.trimmed v) = true) where
  opens := fun ⟨_, hv, _⟩ => opens_text hv
  sound := by
    intro s r c h
    unfold readName at h
    split at h
    · cases h
    · next v t hv =>
      split at h
      · next d hd =>
        obtain ⟨rfl, rfl⟩ := Prod.mk.inj (Except.ok.inj h)
        obtain ⟨w, t, hw, ht, hs⟩ := (reads_text .text).sound hv
        exact ⟨w, t, hw, ⟨v, ht, N.read_eq_ok_iff.mp hd⟩, hs⟩
      · cases h
  complete := by
    rintro t c ⟨v, hv, hc⟩ w r hw hr
    rw [readName, (reads_text .text).complete hv hw hr]
    simp only [N.read_eq_ok_iff.mpr hc]

theorem reads_category : Reads readCategory CategoryText := reads_name Category.names

theorem reads_confidence : Reads readConfidence ConfidenceText := reads_name Confidence.names

theorem opens_line {t : Bytes} {n : Nat} (h : LineText t n) : Opens t := by
  obtain ⟨-, rfl⟩ := h
  rw [encode_digits]
  exact opens_numeral (numeralText_natural n)

/-- A line is read as the natural number that its digits are. -/
theorem reads_line : Reads readLine LineText where
  opens := opens_line
  sound := by
    intro s r n h
    unfold readLine at h
    split at h
    · cases h
    · next b t hbt =>
      obtain ⟨w, hw, rfl⟩ := exists_of_skipSpace hbt
      split at h
      · split at h
        · cases h
        · next m u hm =>
          obtain ⟨rfl, rfl⟩ := Prod.mk.inj (Except.ok.inj h)
          obtain ⟨hlt, hs⟩ := number_natural_sound hm
          exact ⟨w, _, hw, ⟨hlt, rfl⟩, by rw [encode_digits, hs]⟩
        · cases h
        · cases h
      · cases h
  complete := by
    intro t n h w r hw hr
    have hskip := (opens_line h).skipSpace hw r
    obtain ⟨hlt, rfl⟩ := h
    rw [encode_digits] at hskip ⊢
    -- a line has no sign, so its first byte is a digit
    obtain ⟨b, u, hbu, hb⟩ := exists_digitBytes (isWhole_decimal n).1
    have hnum := number_natural_complete hlt hr
    rw [hbu, List.cons_append] at hskip hnum
    rw [readLine, hbu, List.cons_append, hskip]
    dsimp only
    rw [if_pos (by simp [hb]), hnum]

/-! ## 3. Items of a list

A list is read item by item until its bracket. The number of steps that the reader is given is
bounded by the bytes that are left, and every item takes at least one. -/

/-- A list ends with a bracket, after blanks. -/
theorem readEnd_eq_ok_iff {s r : Bytes} :
    readEnd s = .ok r ↔ ∃ w, Blanks w ∧ s = w ++ 0x5D :: r := by
  constructor
  · intro h
    unfold readEnd at h
    split at h
    · next t ht =>
      obtain rfl := Except.ok.inj h
      exact exists_of_skipSpace ht
    · cases h
  · rintro ⟨w, hw, rfl⟩
    have hskip : skipSpace (w ++ 0x5D :: r) = 0x5D :: r := by
      rw [skipSpace_append _ hw, skipSpace_cons _ (by decide)]
    simp only [readEnd, hskip]

section Items

variable {α : Type} {item : Bytes → Reading α} {S : Bytes → α → Prop} {first : Bool}

/-- Where there is no item, the list ends. -/
theorem readItem_none {s r : Bytes} (h : readItem item first s = .ok (none, r)) :
    ∃ w t, Blanks w ∧ r = 0x5D :: t ∧ s = w ++ r := by
  unfold readItem at h
  split at h
  · cases h
  · next b t hbt =>
    obtain ⟨w, hw, rfl⟩ := exists_of_skipSpace hbt
    split at h
    · next hb =>
      obtain ⟨-, rfl⟩ := Prod.mk.inj (Except.ok.inj h)
      exact ⟨w, t, hw, by rw [hb], rfl⟩
    · dsimp only at h
      split at h
      · cases h
      · split at h
        · cases h
        · cases h

/-- An item that was read stood behind a comma, or at the beginning. -/
theorem readItem_some (R : Reads item S) {s r : Bytes} {a : α}
    (h : readItem item first s = .ok (some a, r)) :
    ∃ w v, Lead first w ∧ S v a ∧ s = w ++ (v ++ r) := by
  unfold readItem at h
  split at h
  · cases h
  · next b t hbt =>
    obtain ⟨w, hw, rfl⟩ := exists_of_skipSpace hbt
    split at h
    · cases h
    · dsimp only at h
      split at h
      · cases h
      · next x hx =>
        split at h
        · next c u hc =>
          obtain ⟨hca, rfl⟩ := Prod.mk.inj (Except.ok.inj h)
          obtain rfl := Option.some.inj hca
          obtain ⟨w', v, hw', hv, rfl⟩ := R.sound hc
          -- an item that is not the first has a comma before it
          cases first with
          | true =>
            rw [if_pos rfl] at hx
            rw [Except.ok.inj hx]
            exact ⟨w ++ w', v, hw.append hw', hv, by rw [List.append_assoc]⟩
          | false =>
            rw [if_neg (by decide)] at hx
            split at hx
            · next hcomma =>
              rw [hcomma, Except.ok.inj hx]
              exact ⟨_, v, ⟨w, w', hw, hw', rfl⟩, hv, by simp⟩
            · cases hx
        · cases h

/-- An item is read after what stands before it, whatever comes of it. -/
theorem readItem_lead (item : Bytes → Reading α) {l v : Bytes} (hl : Lead first l) (hv : Opens v)
    (r : Bytes) :
    ∃ w, Blanks w ∧
      (∀ a u, item (w ++ (v ++ r)) = .ok (a, u) →
        readItem item first (l ++ (v ++ r)) = .ok (some a, u)) ∧
      ∀ d, item (w ++ (v ++ r)) = .error d →
        readItem item first (l ++ (v ++ r)) = .error d := by
  cases first with
  | true =>
    have hskip := hv.skipSpace hl r
    obtain ⟨b, u, rfl, -, -, hb⟩ := hv
    refine ⟨[], blanks_nil, ?_⟩
    rw [readItem, hskip, List.cons_append, List.nil_append]
    dsimp only
    rw [if_neg fun h => hb (.inl h), if_pos rfl]
    exact ⟨fun a u h => by simp only [h], fun d h => by simp only [h]⟩
  | false =>
    obtain ⟨x, y, hx, hy, rfl⟩ := hl
    refine ⟨y, hy, ?_⟩
    rw [readItem, List.append_assoc, skipSpace_append _ hx, List.cons_append,
      skipSpace_cons _ (by decide)]
    dsimp only
    rw [if_neg (by decide), if_neg (by decide), if_pos rfl]
    exact ⟨fun a u h => by simp only [h], fun d h => by simp only [h]⟩

/-- An item that stands there is read. -/
theorem readItem_complete (R : Reads item S) {w v r : Bytes} {a : α} (hw : Lead first w)
    (hv : S v a) (hr : Ends r) : readItem item first (w ++ (v ++ r)) = .ok (some a, r) := by
  obtain ⟨w', hw', hok, -⟩ := readItem_lead item hw (R.opens hv) r
  exact hok a r (R.complete hv hw' hr)

/-- Where the bracket stands there is no item. -/
theorem readItem_end (item : Bytes → Reading α) (first : Bool) {w : Bytes} (hw : Blanks w)
    (r : Bytes) :
    readItem item first (w ++ 0x5D :: r) = .ok (none, 0x5D :: r) := by
  rw [readItem, skipSpace_append _ hw, skipSpace_cons _ (by decide)]
  exact if_pos rfl

/-- Items that were read are the parts of a list. -/
theorem readItems_sound (R : Reads item S) {n : Nat} {s r : Bytes} {as : List α}
    (h : readItems item n first s = .ok (as, r)) :
    ∃ u, Parts 0x5D S first u as ∧ s = u ++ r := by
  -- Induction on the bound of the loop, one item at a time.
  induction n generalizing first s as with
  | zero => cases h
  | succ n ih =>
    unfold readItems at h
    split at h
    · cases h
    · next t ht =>
      split at h
      · next u hu =>
        obtain ⟨rfl, rfl⟩ := Prod.mk.inj (Except.ok.inj h)
        obtain ⟨w, -, hw, -, rfl⟩ := readItem_none ht
        obtain ⟨w', hw', rfl⟩ := readEnd_eq_ok_iff.mp hu
        exact ⟨_, .close (hw.append hw'), by simp⟩
      · cases h
    · next a t ht =>
      split at h
      · next as' u hu =>
        obtain ⟨rfl, rfl⟩ := Prod.mk.inj (Except.ok.inj h)
        obtain ⟨w, v, hw, hv, rfl⟩ := readItem_some R ht
        obtain ⟨x, hx, rfl⟩ := ih hu
        exact ⟨_, parts_cons_iff.mpr ⟨w, v, x, hw, hv, hx, rfl⟩, by simp⟩
      · cases h

/-- The parts of a list are read, whatever follows the list. -/
theorem readItems_complete (R : Reads item S) {as : List α} {u : Bytes}
    (h : Parts 0x5D S first u as) {n : Nat} (hn : u.length ≤ n) (r : Bytes) :
    readItems item n first (u ++ r) = .ok (as, r) := by
  have hpos := h.length_pos
  obtain ⟨n, rfl⟩ := Nat.exists_eq_add_one.mpr (by omega : 0 < n)
  induction as generalizing first u n with
  | nil =>
    obtain ⟨w, hw, rfl⟩ := parts_nil_iff.mp h
    have hend : readEnd (0x5D :: r) = .ok r := readEnd_eq_ok_iff.mpr ⟨[], blanks_nil, rfl⟩
    rw [readItems, List.append_assoc, List.singleton_append, readItem_end item first hw]
    dsimp only
    rw [hend]
  | cons a as ih =>
    obtain ⟨w, v, s, hw, hv, hs, rfl⟩ := parts_cons_iff.mp h
    have hlen := hs.length_pos
    have hv1 := (R.opens hv).length_pos
    simp only [List.length_append] at hn
    -- the item has a byte of its own, so fuel is left for the items after it
    obtain ⟨n, rfl⟩ := Nat.exists_eq_add_one.mpr (by omega : 0 < n)
    rw [readItems, List.append_assoc, List.append_assoc,
      readItem_complete R hw hv (hs.ends (.inl rfl) r)]
    dsimp only
    rw [ih hs hlen n (by omega)]

/-- **Lists.** A list is read when its items are. -/
theorem reads_list (R : Reads item S) : Reads (readList item) (ListText S) where
  opens := opens_list
  sound := by
    intro s r as h
    unfold readList at h
    split at h
    · next t ht =>
      obtain ⟨w, hw, rfl⟩ := exists_of_skipSpace ht
      obtain ⟨u, hu, rfl⟩ := readItems_sound R h
      exact ⟨w, _, hw, ⟨u, rfl, hu⟩, rfl⟩
    · cases h
  complete := by
    rintro t as ⟨u, rfl, hu⟩ w r hw hr
    rw [readList, skipSpace_append _ hw, List.cons_append, skipSpace_cons _ (by decide)]
    refine readItems_complete R hu ?_ r
    rw [List.length_append]
    omega

end Items

end UpgradeScan.EngineText
