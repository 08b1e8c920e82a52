/-
`Proofs/Json/Skip.lean` -- a value that is passed over is a value, of any kind and depth.

A document of the engine may have members that the reader does not know, and it passes over their
values without building them. What it passes over must be a value and nothing else: if it took too
little, the rest would be read as part of the report; if it took too much, a member would be lost.
Both directions are proved, for values of any kind and depth.

The readers of items and of members run in the same way: a part, then a bracket that closes, or a
comma and more. `Loop` states that once, and both directions are proved of it by induction, on the
steps that are left for soundness and on the layout for completeness. The functions themselves are
written in another form, with one match for each of them, so it is shown first that they are such
loops (`loop_items`, `loop_members`).

Passing over a value is recursive, through lists and objects of any depth, and is given a number of
steps. A text is never shorter than the number of steps that it takes, so its length is enough, and
there is no depth at which a value is refused (`skipValue_complete`). What is decoded is less than
what is read: a key need not be well-formed text, and a number may have any magnitude.
-/
import UpgradeScan.Proofs.Json.Layout
import UpgradeScan.Proofs.Json.Number

set_option autoImplicit false

namespace UpgradeScan.JsonText

/-! ## 1. Loops

A loop over parts, whatever the parts are, with the two directions. The parts that a loop passes
over are read by a function of which only the same two directions are known. -/

section Loop

/-- What is done after a part: the end, or one more after a comma. -/
def afterPart (close : UInt8) (more : Bytes → Option Bytes) (s : Bytes) : Option Bytes :=
  match skipSpace s with
  | [] => none
  | b :: r => if b = close then some r else if b = 0x2C then more r else none

/-- What is done after an opening bracket: the end, or the first part. -/
def afterOpen (close : UInt8) (more : Bytes → Option Bytes) (s : Bytes) : Option Bytes :=
  match skipSpace s with
  | [] => more []
  | b :: r => if b = close then some r else more (b :: r)

/-- `loop` passes over parts, `part` over one of them. -/
structure Loop (close : UInt8) (part loop : Nat → Bytes → Option Bytes) : Prop where
  zero : ∀ s, loop 0 s = none
  succ : ∀ n s, loop (n + 1) s = (part n s).bind (afterPart close (loop n))

variable {α : Type} {close : UInt8} {part loop : Nat → Bytes → Option Bytes}
  {P : Bytes → α → Prop}

/-- What a loop has passed over are parts, at least one of them, up to the closing bracket. -/
theorem Loop.sound (L : Loop close part loop) {n : Nat} {s r : Bytes}
    (hpart : ∀ m < n, ∀ s t, part m s = some t →
      ∃ w v a, Blanks w ∧ P v a ∧ s = w ++ (v ++ t))
    (h : loop n s = some r) : ∃ u a as, Parts close P true u (a :: as) ∧ s = u ++ r := by
  induction n generalizing s with
  | zero =>
    rw [L.zero] at h
    cases h
  | succ n ih =>
    rw [L.succ] at h
    obtain ⟨t, ht, hrest⟩ := Option.bind_eq_some_iff.mp h
    obtain ⟨w, v, a, hw, hv, rfl⟩ := hpart n (Nat.lt_succ_self n) s t ht
    unfold afterPart at hrest
    split at hrest
    -- the document ends too early
    · cases hrest
    · next b u hu =>
      obtain ⟨w', hw', rfl⟩ := exists_of_skipSpace hu
      split at hrest
      · next hb =>
        obtain rfl := Option.some.inj hrest
        exact ⟨_, a, [], .first hw hv (.close hw'), by simp [hb]⟩
      · split at hrest
        · next hb =>
          obtain ⟨x, a', as, hx, rfl⟩ :=
            ih (fun m hm => hpart m (Nat.lt_succ_of_lt hm)) hrest
          exact ⟨_, a, a' :: as, .first hw hv (hx.after_comma hw'), by simp [hb]⟩
        · cases hrest

/-- The same from the opening bracket on, where there may be none. -/
theorem Loop.open_sound (L : Loop close part loop) {n : Nat} {s r : Bytes}
    (hpart : ∀ m < n, ∀ s t, part m s = some t →
      ∃ w v a, Blanks w ∧ P v a ∧ s = w ++ (v ++ t))
    (h : afterOpen close (loop n) s = some r) : ∃ u as, Parts close P true u as ∧ s = u ++ r := by
  obtain ⟨w, hw, hs⟩ := exists_blanks s
  unfold afterOpen at h
  split at h
  -- the loop reads on from the first byte that is no blank
  · next hnil =>
    obtain ⟨u, a, as, hu, hur⟩ := L.sound hpart h
    exact ⟨_, _, hu.blanks hw, by rw [hs, hnil, hur, List.append_assoc]⟩
  · next b t hb =>
    split at h
    -- an empty list or object
    · next hclose =>
      obtain rfl := Option.some.inj h
      exact ⟨_, [], .close hw, by rw [hs, hb, hclose, List.append_assoc]; rfl⟩
    · obtain ⟨u, a, as, hu, hur⟩ := L.sound hpart h
      exact ⟨_, _, hu.blanks hw, by rw [hs, hb, hur, List.append_assoc]⟩

section Complete

variable (hc : IsCloser close) (hopen : ∀ v a, P v a → Opens v)
  (hpart : ∀ v a, P v a → ∀ n w r, v.length ≤ n → Blanks w → Ends r →
    part n (w ++ (v ++ r)) = some r)

include hc hpart

/-- One step of a loop, over a part that more parts follow. -/
theorem Loop.step (L : Loop close part loop) {w v u : Bytes} {a : α} {as : List α} {n : Nat}
    (hw : Blanks w) (hv : P v a) (h : Parts close P false u as) (hn : v.length ≤ n) (r : Bytes) :
    loop (n + 1) (w ++ (v ++ (u ++ r))) = afterPart close (loop n) (u ++ r) := by
  rw [L.succ, hpart v a hv n w _ hn hw (h.ends hc r)]
  rfl

/-- After a part the loop runs to the closing bracket. Induction on the parts that are left: either
the bracket comes next, or a comma and one step more. -/
theorem Loop.rest_complete (L : Loop close part loop) {u : Bytes} {as : List α}
    (h : Parts close P false u as) {n : Nat} (hn : u.length ≤ n) (r : Bytes) :
    afterPart close (loop n) (u ++ r) = some r := by
  induction as generalizing u n with
  | nil =>
    rw [afterPart, h.skipSpace_nil hc r]
    exact if_pos rfl
  | cons a as ih =>
    obtain ⟨u', hu', hlen, hskip⟩ := h.skipSpace_next r
    obtain ⟨w, v, s, hw, hv, hs, rfl⟩ := parts_cons_iff.mp hu'
    simp only [List.length_append] at hlen
    obtain ⟨n, rfl⟩ := Nat.exists_eq_add_one.mpr (by omega : 0 < n)
    have hcomma : (0x2C : UInt8) ≠ close := by rcases hc with rfl | rfl <;> decide
    rw [afterPart, hskip]
    dsimp only
    rw [if_neg hcomma, if_pos rfl, List.append_assoc, List.append_assoc,
      L.step hc hpart hw hv hs (by omega)]
    exact ih hs (by omega)

include hopen

/-- After an opening bracket the loop runs to the closing one. -/
theorem Loop.open_complete (L : Loop close part loop) {u : Bytes} {as : List α}
    (h : Parts close P true u as) {n : Nat} (hn : u.length ≤ n) (r : Bytes) :
    afterOpen close (loop n) (u ++ r) = some r := by
  cases as with
  | nil =>
    rw [afterOpen, h.skipSpace_nil hc r]
    exact if_pos rfl
  | cons a as =>
    obtain ⟨w, v, s, hw, hv, hs, rfl⟩ := parts_cons_iff.mp h
    simp only [List.length_append] at hn
    have hlen := hs.length_pos
    have hpos := (hopen v a hv).length_pos
    obtain ⟨n, rfl⟩ := Nat.exists_eq_add_one.mpr (by omega : 0 < n)
    have hskip := (hopen v a hv).skipSpace hw (s ++ r)
    have hstep := L.step hc hpart blanks_nil hv hs (by omega : v.length ≤ n) r
    -- the first byte of a part is no bracket, so the loop begins at the part
    obtain ⟨b, x, rfl, -, -, hbc⟩ := hopen v a hv
    have hne : b ≠ close := fun h0 => hbc (h0 ▸ hc)
    rw [List.nil_append, List.cons_append] at hstep
    rw [List.cons_append] at hskip
    rw [afterOpen, List.append_assoc, List.append_assoc, List.cons_append, hskip]
    dsimp only
    rw [if_neg hne, hstep]
    exact L.rest_complete hc hpart hs (by omega) r

end Complete

end Loop

/-! ## 2. The loops of the reader

The items and the members of the reader, as loops. -/

/-- A member that is passed over. -/
def skipPart (n : Nat) (s : Bytes) : Option Bytes :=
  match skipSpace s with
  | 0x22 :: r =>
    match skipContent 0 r with
    | none => none
    | some t =>
      match skipSpace t with
      | 0x3A :: u => skipValue n u
      | _ => none
  | _ => none

/-- What follows a part in one of the two loops is told by three cases: the bracket, a comma, and
anything else. -/
theorem eq_afterPart {close : UInt8} {more : Bytes → Option Bytes} {s : Bytes} {o : Option Bytes}
    (hclose : ∀ r, skipSpace s = close :: r → o = some r)
    (hcomma : ∀ r, skipSpace s = 0x2C :: r → o = more r)
    (hother : (∀ r, skipSpace s ≠ close :: r) → (∀ r, skipSpace s ≠ 0x2C :: r) → o = none) :
    afterPart close more s = o := by
  unfold afterPart
  split
  · next h =>
    exact (hother (fun r hr => nomatch h.symm.trans hr) fun r hr => nomatch h.symm.trans hr).symm
  · next b r h =>
    split
    · next hb => exact (hclose r (by rw [h, hb])).symm
    · next hb =>
      split
      · next hb' => exact (hcomma r (by rw [h, hb'])).symm
      · next hb' => exact (hother (fun r' hr => hb (List.cons.inj (h.symm.trans hr)).1)
          fun r' hr => hb' (List.cons.inj (h.symm.trans hr)).1).symm

/-- After an item comes the bracket or a comma. -/
theorem afterPart_list (more : Bytes → Option Bytes) (s : Bytes) :
    afterPart 0x5D more s =
      match skipSpace s with
      | 0x5D :: r => some r
      | 0x2C :: r => more r
      | _ => none := by
  refine eq_afterPart (fun r h => by rw [h]; rfl) (fun r h => by rw [h]; rfl)
    fun hclose hcomma => ?_
  split
  · next r h => exact absurd h (hclose r)
  · next r h => exact absurd h (hcomma r)
  · rfl

/-- After a member comes the brace or a comma. -/
theorem afterPart_object (more : Bytes → Option Bytes) (s : Bytes) :
    afterPart 0x7D more s =
      match skipSpace s with
      | 0x7D :: r => some r
      | 0x2C :: r => more r
      | _ => none := by
  refine eq_afterPart (fun r h => by rw [h]; rfl) (fun r h => by rw [h]; rfl)
    fun hclose hcomma => ?_
  split
  · next r h => exact absurd h (hclose r)
  · next r h => exact absurd h (hcomma r)
  · rfl

/-- What follows an opening bracket is told by two cases: the closing bracket and anything else. -/
theorem eq_afterOpen {close : UInt8} {more : Bytes → Option Bytes} {s : Bytes} {o : Option Bytes}
    (hclose : ∀ r, skipSpace s = close :: r → o = some r)
    (hother : (∀ r, skipSpace s ≠ close :: r) → o = more (skipSpace s)) :
    afterOpen close more s = o := by
  unfold afterOpen
  split
  · next h =>
    rw [hother (fun r hr => nomatch h.symm.trans hr), h]
  · next b r h =>
    split
    · next hb => exact (hclose r (by rw [h, hb])).symm
    · next hb =>
      rw [hother fun r' hr => hb (List.cons.inj (h.symm.trans hr)).1, h]

/-- After an opening bracket comes the closing one or an item. -/
theorem afterOpen_list (more : Bytes → Option Bytes) (s : Bytes) :
    afterOpen 0x5D more s =
      match skipSpace s with
      | 0x5D :: r => some r
      | t => more t := by
  refine eq_afterOpen (fun r h => by rw [h]; rfl) fun hclose => ?_
  split
  · next r h => exact absurd h (hclose r)
  · rfl

/-- After an opening brace comes the closing one or a member. -/
theorem afterOpen_object (more : Bytes → Option Bytes) (s : Bytes) :
    afterOpen 0x7D more s =
      match skipSpace s with
      | 0x7D :: r => some r
      | t => more t := by
  refine eq_afterOpen (fun r h => by rw [h]; rfl) fun hclose => ?_
  split
  · next r h => exact absurd h (hclose r)
  · rfl

/-- The reader that passes over items is a loop. -/
theorem loop_items : Loop 0x5D skipValue skipItems where
  zero _ := rfl
  succ n s := by
    unfold skipItems
    cases skipValue n s with
    | none => rfl
    | some t => exact (afterPart_list _ t).symm

section Part

variable {n : Nat} {s r t u : Bytes}

/-- A key and a colon are passed over, and what follows is a value. -/
theorem skipPart_of_colon (hr : skipSpace s = 0x22 :: r) (ht : skipContent 0 r = some t)
    (hu : skipSpace t = 0x3A :: u) : skipPart n s = skipValue n u := by
  simp only [skipPart, hr, ht, hu]

theorem skipPart_of_no_colon (hr : skipSpace s = 0x22 :: r) (ht : skipContent 0 r = some t)
    (hu : ∀ u, skipSpace t = 0x3A :: u → False) : skipPart n s = none := by
  simp only [skipPart, hr, ht]

theorem skipPart_of_no_key (hr : skipSpace s = 0x22 :: r) (ht : skipContent 0 r = none) :
    skipPart n s = none := by
  simp only [skipPart, hr, ht]

/-- What is no key is refused. -/
theorem skipPart_of_no_quote (hr : ∀ r, skipSpace s = 0x22 :: r → False) :
    skipPart n s = none := by
  unfold skipPart
  split
  · next r hr' => exact absurd hr' (hr r)
  · rfl

end Part

/-- The reader that passes over members is a loop. -/
theorem loop_members : Loop 0x7D skipPart skipMembers where
  zero _ := rfl
  succ n s := by
    unfold skipMembers
    split
    · next r hr =>
      cases ht : skipContent 0 r with
      | none =>
        rw [skipPart_of_no_key hr ht]
        rfl
      | some t =>
        dsimp only
        split
        · next u hu =>
          rw [skipPart_of_colon hr ht hu]
          cases skipValue n u with
          | none => rfl
          | some v => exact (afterPart_object _ v).symm
        · next hu =>
          rw [skipPart_of_no_colon hr ht hu]
          rfl
    · next hr =>
      rw [skipPart_of_no_quote hr]
      rfl

/-! ## 3. Values

The two directions for values. Soundness is by induction on the steps, completeness by induction on
the value. -/

/-- One step decides the kind of a value by its first byte. -/
theorem skipValue_succ (n : Nat) (s : Bytes) :
    skipValue (n + 1) s =
      match skipSpace s with
      | [] => none
      | b :: r =>
        if b = 0x6E then word? restOfNull r
        else if b = 0x74 then word? restOfTrue r
        else if b = 0x66 then word? restOfFalse r
        else if b = 0x22 then skipContent 0 r
        else if b = 0x2D || isDigit b then (numeral (b :: r)).map (·.2)
        else if b = 0x5B then afterOpen 0x5D (skipItems n) r
        else if b = 0x7B then afterOpen 0x7D (skipMembers n) r
        else none := by
  unfold skipValue
  cases skipSpace s with
  | nil => rfl
  | cons b r =>
    dsimp only
    by_cases hlist : b = 0x5B
    · subst hlist
      exact (afterOpen_list (skipItems n) r).symm
    · by_cases hobject : b = 0x7B
      · subst hobject
        exact (afterOpen_object (skipMembers n) r).symm
      · simp only [if_neg hlist, if_neg hobject]

/-- A member is passed over with its key, which need not be well-formed text. -/
theorem skipPart_sound {n : Nat} {s r : Bytes}
    (hvalue : ∀ s r, skipValue n s = some r → ∃ w v, Blanks w ∧ Value v ∧ s = w ++ (v ++ r))
    (h : skipPart n s = some r) :
    ∃ w v m, Blanks w ∧ (MemberText (Form QuotedForm) v m ∧ Value m.2) ∧ s = w ++ (v ++ r) := by
  unfold skipPart at h
  split at h
  · next t ht =>
    obtain ⟨w, hw, rfl⟩ := exists_of_skipSpace ht
    split at h
    · cases h
    · next x hx =>
      obtain ⟨k, hk, rfl⟩ := skipContent_eq_some_iff.mp hx
      split at h
      · next u hu =>
        obtain ⟨w', hw', rfl⟩ := exists_of_skipSpace hu
        obtain ⟨w'', v, hw'', hv, rfl⟩ := hvalue _ _ h
        refine ⟨w, _, (0x22 :: (k ++ [0x22]), v), hw,
          ⟨⟨_, w', w'', ⟨rfl, k, rfl, hk⟩, hw', hw'', rfl⟩, hv⟩, ?_⟩
        simp
      · cases h
  · cases h

/-- A member is passed over when its value is. -/
theorem skipPart_complete {v : Bytes} {m : Bytes × Bytes} {n : Nat} {w r : Bytes}
    (hvalue : ∀ n w r, m.2.length ≤ n → Blanks w → Ends r →
      skipValue n (w ++ (m.2 ++ r)) = some r)
    (hv : MemberText (Form QuotedForm) v m) (hn : v.length ≤ n) (hw : Blanks w) (hr : Ends r) :
    skipPart n (w ++ (v ++ r)) = some r := by
  obtain ⟨_, w', w'', ⟨rfl, k, hk, hcontent⟩, hw', hw'', rfl⟩ := hv
  simp only [List.length_append, List.length_cons] at hn
  -- the key, the colon and the value, each after its blanks
  have hkey : skipSpace (w ++ ((m.1 ++ (w' ++ 0x3A :: (w'' ++ m.2))) ++ r)) =
      0x22 :: (k ++ 0x22 :: (w' ++ 0x3A :: (w'' ++ (m.2 ++ r)))) := by
    rw [hk, skipSpace_append _ hw]
    simp only [List.append_assoc, List.cons_append, List.nil_append]
    exact skipSpace_cons _ (by decide)
  have hcolon : skipSpace (w' ++ 0x3A :: (w'' ++ (m.2 ++ r))) = 0x3A :: (w'' ++ (m.2 ++ r)) := by
    rw [skipSpace_append _ hw']
    exact skipSpace_cons _ (by decide)
  simp only [skipPart, hkey, skipContent_complete hcontent, hcolon]
  exact hvalue n w'' r (by omega) hw'' hr

/-- A list of values is a value. -/
theorem value_of_list {u : Bytes} {ts : List Bytes}
    (h : Parts 0x5D (Form Value) true u ts) : Value (0x5B :: u) := by
  refine .list ⟨u, rfl, h.imp fun v a _ hv => hv.1⟩ fun a ha => ?_
  obtain ⟨v, -, hv⟩ := h.exists_text ha
  exact hv

/-- An object with values is a value. -/
theorem value_of_object {u : Bytes} {ms : List (Bytes × Bytes)}
    (h : Parts 0x7D (fun v m => MemberText (Form QuotedForm) v m ∧ Value m.2) true u ms) :
    Value (0x7B :: u) := by
  refine .object ⟨u, rfl, h.imp fun v a _ hv => hv.1⟩ fun m hm => ?_
  obtain ⟨v, -, hv⟩ := h.exists_text hm
  exact hv

/-- **Soundness.** What is passed over is a value after blanks. -/
theorem skipValue_sound {n : Nat} {s r : Bytes} (h : skipValue n s = some r) :
    ∃ w v, Blanks w ∧ Value v ∧ s = w ++ (v ++ r) := by
  induction n using Nat.strongRecOn generalizing s r with
  | _ n ih =>
    cases n with
    | zero => cases h
    | succ n =>
      rw [skipValue_succ] at h
      split at h
      · cases h
      · next b t hbt =>
        obtain ⟨w, hw, rfl⟩ := exists_of_skipSpace hbt
        refine ⟨w, ?_⟩
        -- one case for each byte that begins a value
        split at h
        · next hb =>
          obtain rfl := word?_eq_some_iff.mp h
          exact ⟨_, hw, .null, by rw [hb]; rfl⟩
        split at h
        · next hb =>
          obtain rfl := word?_eq_some_iff.mp h
          exact ⟨_, hw, .yes, by rw [hb]; rfl⟩
        split at h
        · next hb =>
          obtain rfl := word?_eq_some_iff.mp h
          exact ⟨_, hw, .no, by rw [hb]; rfl⟩
        split at h
        · next hb =>
          obtain ⟨u, hu, rfl⟩ := skipContent_eq_some_iff.mp h
          exact ⟨_, hw, .string ⟨u, rfl, hu⟩, by simp [hb]⟩
        split at h
        · obtain ⟨⟨x, r'⟩, hx, rfl⟩ := Option.map_eq_some_iff.mp h
          obtain ⟨v, hv, hvr⟩ := numeral_sound hx
          exact ⟨v, hw, .number hv, by rw [hvr]⟩
        split at h
        · next hb =>
          obtain ⟨u, ts, hu, rfl⟩ := loop_items.open_sound (P := Form Value)
            (fun m hm s t hst => by
              obtain ⟨w, v, hw, hv, hs⟩ := ih m (Nat.lt_succ_of_lt hm) hst
              exact ⟨w, v, v, hw, ⟨rfl, hv⟩, hs⟩) h
          exact ⟨_, hw, value_of_list hu, by rw [hb]; rfl⟩
        split at h
        · next hb =>
          obtain ⟨u, ms, hu, rfl⟩ := loop_members.open_sound
            (P := fun v m => MemberText (Form QuotedForm) v m ∧ Value m.2)
            (fun m hm s t hst => skipPart_sound
              (fun s r hsr => ih m (Nat.lt_succ_of_lt hm) hsr) hst) h
          exact ⟨_, hw, value_of_object hu, by rw [hb]; rfl⟩
        · cases h

/-- A number begins with a digit or a minus sign. -/
theorem opens_numeral {t : Bytes} {x : Numeral} (h : NumeralText t x) : Opens t := by
  obtain ⟨f, p, hw, -, -, rfl⟩ := h
  obtain ⟨b, u, hbu, hb⟩ := exists_digitBytes hw.1
  rw [hbu]
  cases x.negative with
  | true => exact opens_cons _ (by decide) (by decide) (by decide)
  | false => exact opens_of_isDigit _ hb

/-- A value begins with a byte that is no blank, no comma and no closing bracket. -/
theorem Value.opens {v : Bytes} (h : Value v) : Opens v := by
  cases h with
  | null => exact opens_cons _ (by decide) (by decide) (by decide)
  | yes => exact opens_cons _ (by decide) (by decide) (by decide)
  | no => exact opens_cons _ (by decide) (by decide) (by decide)
  | string h => exact opens_quoted h
  | number h => exact opens_numeral h
  | list h => exact opens_list h
  | object h => exact opens_object h

/-- A number is passed over in one step, whatever its magnitude. -/
theorem skipValue_numeral {t : Bytes} {x : Numeral} (h : NumeralText t x) {n : Nat} {w r : Bytes}
    (hw : Blanks w) (hr : Ends r) : skipValue (n + 1) (w ++ (t ++ r)) = some r := by
  have hx := numeral_complete h hr
  have hop := (opens_numeral h).skipSpace hw r
  obtain ⟨b, u, rfl, hb, hne⟩ := h.exists_first
  rw [skipValue_succ, hop, List.cons_append]
  dsimp only
  rw [if_neg (hne _ (by decide) (by decide)), if_neg (hne _ (by decide) (by decide)),
    if_neg (hne _ (by decide) (by decide)), if_neg (hne _ (by decide) (by decide)),
    if_pos (by simpa using hb), ← List.cons_append, hx]
  rfl

/-- Where there are steps for all bytes of a text that is not empty, there is a first one. -/
theorem exists_succ_of_length_cons_le {b : UInt8} {t : Bytes} {n : Nat}
    (h : (b :: t).length ≤ n) : ∃ m, n = m + 1 ∧ t.length ≤ m := by
  simp only [List.length_cons] at h
  exact ⟨n - 1, by omega, by omega⟩

/-- **Completeness.** A value of any kind and depth is passed over, when what follows ends it.
The steps it takes are no more than its bytes. -/
theorem skipValue_complete {v : Bytes} (h : Value v) :
    ∀ n w r, v.length ≤ n → Blanks w → Ends r → skipValue n (w ++ (v ++ r)) = some r := by
  -- Each step takes a first byte, so the bytes that are left always pay for the steps below.
  induction h with
  | null =>
    intro n w r hn hw hr
    obtain ⟨m, rfl, -⟩ := exists_succ_of_length_cons_le hn
    rw [skipValue_succ, skipSpace_append _ hw]
    rfl
  | yes =>
    intro n w r hn hw hr
    obtain ⟨m, rfl, -⟩ := exists_succ_of_length_cons_le hn
    rw [skipValue_succ, skipSpace_append _ hw]
    rfl
  | no =>
    intro n w r hn hw hr
    obtain ⟨m, rfl, -⟩ := exists_succ_of_length_cons_le hn
    rw [skipValue_succ, skipSpace_append _ hw]
    rfl
  | string h =>
    intro n w r hn hw hr
    obtain ⟨u, rfl, hu⟩ := h
    obtain ⟨m, rfl, -⟩ := exists_succ_of_length_cons_le hn
    rw [skipValue_succ, (opens_quoted ⟨u, rfl, hu⟩).skipSpace hw, List.cons_append,
      List.append_assoc]
    exact skipContent_complete hu r
  | number h =>
    intro n w r hn hw hr
    obtain ⟨b, u, rfl, -⟩ := opens_numeral h
    obtain ⟨m, rfl, -⟩ := exists_succ_of_length_cons_le hn
    exact skipValue_numeral h hw hr
  | @list t ts h hts ih =>
    intro n w r hn hw hr
    obtain ⟨u, rfl, hu⟩ := h
    obtain ⟨m, rfl, hm⟩ := exists_succ_of_length_cons_le hn
    rw [skipValue_succ, (Value.list ⟨u, rfl, hu⟩ hts).opens.skipSpace hw, List.cons_append]
    refine loop_items.open_complete (.inl rfl) (P := fun v a => v = a ∧ a ∈ ts) ?_ ?_
      (hu.imp fun v a ha hv => ⟨hv, ha⟩) hm r
    · rintro v a ⟨rfl, hv⟩
      exact (hts v hv).opens
    · rintro v a ⟨rfl, hv⟩
      exact ih v hv
  | @object t ms h hms ih =>
    intro n w r hn hw hr
    obtain ⟨u, rfl, hu⟩ := h
    obtain ⟨m, rfl, hm⟩ := exists_succ_of_length_cons_le hn
    rw [skipValue_succ, (Value.object ⟨u, rfl, hu⟩ hms).opens.skipSpace hw, List.cons_append]
    refine loop_members.open_complete (.inr rfl)
      (P := fun v a => MemberText (Form QuotedForm) v a ∧ a ∈ ms) ?_ ?_
      (hu.imp fun v a ha hv => ⟨hv, ha⟩) hm r
    -- a member begins with its key
    · rintro v a ⟨hv, -⟩
      refine opens_member ?_ hv
      rintro t k ⟨rfl, hk⟩
      exact opens_quoted hk
    · rintro v a ⟨hv, ha⟩ n w r hn hw hr
      exact skipPart_complete (ih a ha) hv hn hw hr

/-- What is passed over at the start of a document. -/
theorem skip_sound {s r : Bytes} (h : skip s = some r) :
    ∃ w v, Blanks w ∧ Value v ∧ s = w ++ (v ++ r) := skipValue_sound h

/-- A value at the start of a document is passed over. -/
theorem skip_complete {w v r : Bytes} (hw : Blanks w) (h : Value v) (hr : Ends r) :
    skip (w ++ (v ++ r)) = some r := by
  refine skipValue_complete h _ w r ?_ hw hr
  simp only [List.length_append]
  omega

end UpgradeScan.JsonText
