/-
`Proofs/Engine/Members.lean` -- the members of an object, in any order.

An object may have its members in any order, may have members that nobody asked for, and must not
have one twice. The reader goes through them from left to right and keeps, for each member that
counts, whether it was given and what it was. So its result must be compared with a description in
which there is no order: under each name that counts, the one value that stands there.

The reader of an object is a run: each member is one step from what was read before it to what is
read then. `Steps` holds one step of a reader to a relation, and `Run` chains them. A member that
counts is a field (`Field`): it has a name, a reader, and a place of its own, which only the member
of that name fills and which it finds empty. `Keeps` says this of a reader and a list of fields, and
is all that is asked of the three kinds of entries.

From that, whatever the order, the place holds at the end what the one member of that name spells
(`Keeps.held`). The argument is that a field is filled once and stays: after its member was read the
place is full, so the member cannot come again, and the others do not touch it. The other way round,
members with at most one of each field always have a run (`Keeps.exists_run`), by induction on the
members.
-/
import UpgradeScan.Proofs.Engine.Places
import Mathlib.Data.List.Nodup

set_option autoImplicit false

namespace UpgradeScan.EngineText

open UpgradeScan.JsonText

/-! ## 1. Steps and runs

One step for each member, chained from left to right. What a step does is left open here. -/

section Runs

variable {σ : Type}

/-- From one state to the next, along the members. -/
inductive Run (T : String → σ → Bytes → σ → Prop) : σ → List (String × Bytes) → σ → Prop
  | nil {st : σ} : Run T st [] st
  | cons {st st' st'' : σ} {k : String} {v : Bytes} {ms : List (String × Bytes)}
      (h : T k st v st') (hs : Run T st' ms st'') : Run T st ((k, v) :: ms) st''

/-- The reader of one member does what `T` says, after the name of the member. -/
structure Steps (member : String → σ → Bytes → Reading σ) (T : String → σ → Bytes → σ → Prop) :
    Prop where
  sound : ∀ {k st st' s r}, member k st s = .ok (st', r) →
    ∃ w w' v, Blanks w ∧ Blanks w' ∧ T k st v st' ∧ s = w ++ 0x3A :: (w' ++ (v ++ r))
  complete : ∀ {k st st' v}, T k st v st' → ∀ {w w' r}, Blanks w → Blanks w' → Ends r →
    member k st (w ++ 0x3A :: (w' ++ (v ++ r))) = .ok (st', r)

variable {member : String → σ → Bytes → Reading σ} {T : String → σ → Bytes → σ → Prop}

/-- Members that were read are the parts of an object, and reading them was a run. -/
theorem readMembers_sound (M : Steps member T) {n : Nat} {first : Bool} {st st' : σ}
    {s r : Bytes} (h : readMembers member n first st s = .ok (st', r)) :
    ∃ u ms, Parts 0x7D (MemberText Quoted) first u ms ∧ Run T st ms st' ∧ s = u ++ r := by
  induction n generalizing first st s with
  | zero => cases h
  | succ n ih =>
    unfold readMembers at h
    split at h
    · cases h
    · next b t hbt =>
      obtain ⟨w, hw, rfl⟩ := exists_of_skipSpace hbt
      split at h
      -- the closing brace
      · next hb =>
        obtain ⟨rfl, rfl⟩ := Prod.mk.inj (Except.ok.inj h)
        exact ⟨_, [], .close hw, .nil, by simp [hb]⟩
      · dsimp only at h
        split at h
        · next x hx =>
          -- the name stands after the blanks, and after a comma unless it is the first
          have hlead : ∃ l, Lead first l ∧ w ++ b :: t = l ++ 0x22 :: x := by
            cases first with
            | true =>
              rw [if_pos rfl] at hx
              exact ⟨w, hw, by rw [Option.some.inj hx]⟩
            | false =>
              rw [if_neg (by decide)] at hx
              split at hx
              · next hcomma =>
                obtain ⟨w', hw', rfl⟩ := exists_of_skipSpace (Option.some.inj hx)
                exact ⟨_, ⟨w, w', hw, hw', rfl⟩, by simp [hcomma]⟩
              · cases hx
          obtain ⟨l, hl, hs⟩ := hlead
          split at h
          · cases h
          · next k y hk =>
            obtain ⟨kt, hkt, rfl⟩ := string_eq_some_iff.mp hk
            split at h
            · next st1 z hz =>
              obtain ⟨w1, w2, v, hw1, hw2, hT, rfl⟩ := M.sound hz
              obtain ⟨u, ms, hu, hrun, rfl⟩ := ih h
              refine ⟨_, (k, v) :: ms, parts_cons_iff.mpr ⟨l, _, u, hl,
                ⟨_, w1, w2, ⟨kt, rfl, hkt⟩, hw1, hw2, rfl⟩, hu, rfl⟩, .cons hT hrun, ?_⟩
              rw [hs]
              simp
            · cases h
        · cases h

/-- What is left at a name, after what stands before it. -/
theorem readMembers_name (member : String → σ → Bytes → Reading σ) {first : Bool} {l t : Bytes}
    (hl : Lead first l) (n : Nat) (st : σ) :
    readMembers member (n + 1) first st (l ++ 0x22 :: t) =
      match string t with
      | none => .error .malformed
      | some (k, u) =>
        match member k st u with
        | .ok (st, v) => readMembers member n false st v
        | .error e => .error e := by
  cases first with
  | true =>
    have hskip : skipSpace (l ++ 0x22 :: t) = 0x22 :: t := by
      rw [skipSpace_append _ hl, skipSpace_cons _ (by decide)]
    rw [readMembers, hskip]
    rfl
  | false =>
    obtain ⟨x, y, hx, hy, rfl⟩ := hl
    have hcomma : skipSpace (x ++ 0x2C :: y ++ 0x22 :: t) = 0x2C :: (y ++ 0x22 :: t) := by
      rw [List.append_assoc, skipSpace_append _ hx, List.cons_append,
        skipSpace_cons _ (by decide)]
    have hname : skipSpace (y ++ 0x22 :: t) = 0x22 :: t := by
      rw [skipSpace_append _ hy, skipSpace_cons _ (by decide)]
    rw [readMembers, hcomma]
    dsimp only
    rw [if_neg (by decide), if_neg (by decide), if_pos rfl, hname]
    rfl

/-- A member is read after its key, whatever comes of it. -/
theorem readMembers_key (member : String → σ → Bytes → Reading σ) {first : Bool} {l t : Bytes}
    {k : String} (hl : Lead first l) (hk : Quoted t k) (n : Nat) (st : σ) (r : Bytes) :
    (∀ st' u, member k st r = .ok (st', u) →
      readMembers member (n + 1) first st (l ++ (t ++ r)) = readMembers member n false st' u) ∧
    ∀ d, member k st r = .error d →
      readMembers member (n + 1) first st (l ++ (t ++ r)) = .error d := by
  obtain ⟨x, rfl, hx⟩ := hk
  have hkey : string (x ++ 0x22 :: r) = some (k, r) := string_eq_some_iff.mpr ⟨x, hx, rfl⟩
  have hname := readMembers_name member (t := x ++ 0x22 :: r) hl n st
  rw [hkey] at hname
  simp only [List.cons_append, List.append_assoc, List.nil_append]
  rw [hname]
  exact ⟨fun st' u h => by simp only [h], fun d h => by simp only [h]⟩

/-- The parts of an object that have a run are read, whatever follows the object. -/
theorem readMembers_complete (M : Steps member T) {ms : List (String × Bytes)} {first : Bool}
    {u : Bytes} {st st' : σ} (h : Parts 0x7D (MemberText Quoted) first u ms)
    (hrun : Run T st ms st') {n : Nat} (hn : u.length ≤ n) (r : Bytes) :
    readMembers member n first st (u ++ r) = .ok (st', r) := by
  -- Induction on the run. Each member takes some bytes, so its step of fuel is paid for.
  have hpos := h.length_pos
  obtain ⟨n, rfl⟩ := Nat.exists_eq_add_one.mpr (by omega : 0 < n)
  induction hrun generalizing first u n with
  | nil =>
    obtain ⟨w, hw, rfl⟩ := parts_nil_iff.mp h
    rw [readMembers, List.append_assoc, skipSpace_append _ hw, List.singleton_append,
      skipSpace_cons _ (by decide)]
    exact if_pos rfl
  | @cons st st1 st2 k v ms hT hs ih =>
    obtain ⟨l, m, s, hl, ⟨kt, w, w', hk, hw, hw', rfl⟩, hrest, rfl⟩ := parts_cons_iff.mp h
    have hlen := hrest.length_pos
    simp only [List.length_append, List.length_cons] at hn
    obtain ⟨n, rfl⟩ := Nat.exists_eq_add_one.mpr (by omega : 0 < n)
    have hmember := M.complete hT hw hw' (hrest.ends (.inr rfl) r)
    simp only [List.append_assoc, List.cons_append]
    rw [(readMembers_key member hl hk _ st _).1 st1 _ hmember]
    exact ih hrest hlen n (by omega)

end Runs

/-! ## 2. Single members

A member is a key, a colon and a value. Either its value is kept, once, or it is passed over. -/

section Member

variable {α σ : Type} {value : Bytes → Reading α} {S : Bytes → α → Prop}

/-- The value of a member stands behind a colon. -/
theorem afterColon_eq_ok_iff {s r : Bytes} :
    afterColon s = .ok r ↔ ∃ w, Blanks w ∧ s = w ++ 0x3A :: r := by
  constructor
  · intro h
    unfold afterColon at h
    split at h
    · next t ht =>
      obtain rfl := Except.ok.inj h
      exact exists_of_skipSpace ht
    · cases h
  · rintro ⟨w, hw, rfl⟩
    have hskip : skipSpace (w ++ 0x3A :: r) = 0x3A :: r := by
      rw [skipSpace_append _ hw, skipSpace_cons _ (by decide)]
    simp only [afterColon, hskip]

/-- Blanks may stand before the colon. -/
theorem afterColon_append {w : Bytes} (hw : Blanks w) (r : Bytes) :
    afterColon (w ++ 0x3A :: r) = .ok r := afterColon_eq_ok_iff.mpr ⟨w, hw, rfl⟩

/-- A member that is kept was not given before. -/
theorem store_sound (R : Reads value S) {k : String} {old : Option α} {put : α → σ} {st' : σ}
    {s r : Bytes} (h : store put (readOnce k old value s) = .ok (st', r)) :
    ∃ w w' v a, Blanks w ∧ Blanks w' ∧ S v a ∧ old = none ∧ st' = put a ∧
      s = w ++ 0x3A :: (w' ++ (v ++ r)) := by
  unfold store at h
  split at h
  · next a t hone =>
    obtain ⟨rfl, rfl⟩ := Prod.mk.inj (Except.ok.inj h)
    unfold readOnce at hone
    split at hone
    · cases hone
    · unfold readMember at hone
      split at hone
      · next u hu =>
        obtain ⟨w, hw, rfl⟩ := afterColon_eq_ok_iff.mp hu
        obtain ⟨w', v, hw', hv, rfl⟩ := R.sound hone
        exact ⟨w, w', v, a, hw, hw', hv, rfl, rfl, rfl⟩
      · cases hone
  · cases h

/-- A member that was not given before is kept. -/
theorem store_complete (R : Reads value S) {k : String} {put : α → σ} {w w' v r : Bytes} {a : α}
    (hw : Blanks w) (hw' : Blanks w') (hv : S v a) (hr : Ends r) :
    store put (readOnce k none value (w ++ 0x3A :: (w' ++ (v ++ r)))) = .ok (put a, r) := by
  simp only [readOnce, readMember, afterColon_append hw, R.complete hv hw' hr, store]

/-- What was passed over is a value. -/
theorem skipMember_sound {s r : Bytes} (h : skipMember s = .ok r) :
    ∃ w w' v, Blanks w ∧ Blanks w' ∧ Value v ∧ s = w ++ 0x3A :: (w' ++ (v ++ r)) := by
  unfold skipMember at h
  split at h
  · next t ht =>
    obtain ⟨w, hw, rfl⟩ := afterColon_eq_ok_iff.mp ht
    obtain ⟨w', v, hw', hv, rfl⟩ := skip_sound (orMalformed_eq_ok_iff.mp h)
    exact ⟨w, w', v, hw, hw', hv, rfl⟩
  · cases h

/-- Every value can be passed over. -/
theorem skipMember_complete {w w' v r : Bytes} (hw : Blanks w) (hw' : Blanks w') (hv : Value v)
    (hr : Ends r) : skipMember (w ++ 0x3A :: (w' ++ (v ++ r))) = .ok r := by
  simp only [skipMember, afterColon_append hw]
  exact orMalformed_eq_ok_iff.mpr (skip_complete hw' hv hr)

end Member

/-! ## 3. What is kept of a name

What is known of one name after a run: nothing, if no member has it, or what the one member spells.
Defaults come in only when an entry is finished. -/

section Held

variable {α : Type} {S : Bytes → α → Prop} {read : Bytes → Reading α}

/-- What is kept of the values of one name: nothing of none, and of one what it spells. -/
def Held (S : Bytes → α → Prop) (ts : List Bytes) (o : Option α) : Prop :=
  ts = [] ∧ o = none ∨ ∃ a, One S ts a ∧ o = some a

/-- What is kept is what the one value spells. -/
theorem Held.one {ts : List Bytes} {o : Option α} {a : α} (h : Held S ts o) (ho : o = some a) :
    One S ts a := by
  rcases h with ⟨-, hnone⟩ | ⟨b, hb, hsome⟩
  · rw [hnone] at ho
    cases ho
  · rw [hsome] at ho
    rwa [← Option.some.inj ho]

/-- Where nothing is kept there is no value, and the default counts. -/
theorem Held.atMostOne {ts : List Bytes} {o : Option α} (h : Held S ts o) (default : α) :
    AtMostOne S default ts (o.getD default) := by
  rcases h with ⟨hnil, rfl⟩ | ⟨a, ha, rfl⟩
  · exact .inl ⟨hnil, rfl⟩
  · exact .inr ha

/-- Where one value is given, what it spells is kept. -/
theorem Held.eq_some (R : Reads read S) {ts : List Bytes} {o : Option α} {a : α}
    (h : Held S ts o) (ha : One S ts a) : o = some a := by
  obtain ⟨t, rfl, ht⟩ := ha
  rcases h with ⟨hnil, -⟩ | ⟨b, ⟨t', heq, hb⟩, rfl⟩
  · cases hnil
  · obtain rfl := (List.cons.inj heq).1
    rw [R.functional hb ht]

/-- Where at most one value is given, what is kept, or else the default, is what counts. -/
theorem Held.getD_eq (R : Reads read S) {ts : List Bytes} {o : Option α} {a default : α}
    (h : Held S ts o) (ha : AtMostOne S default ts a) : o.getD default = a := by
  rcases ha with ⟨rfl, rfl⟩ | ha
  · rcases h with ⟨-, rfl⟩ | ⟨b, ⟨t, heq, -⟩, -⟩
    · rfl
    · cases heq
  · rw [h.eq_some R ha]
    rfl

/-- Leaving the default aside, there is no value or one. -/
theorem AtMostOne.nil_or_one {ts : List Bytes} {a default : α} (h : AtMostOne S default ts a) :
    ts = [] ∨ ∃ b, One S ts b := by
  rcases h with ⟨hnil, -⟩ | hone
  · exact .inl hnil
  · exact .inr ⟨a, hone⟩

theorem valuesOf_cons_self (k : String) (v : Bytes) (ms : List (String × Bytes)) :
    valuesOf k ((k, v) :: ms) = v :: valuesOf k ms := by
  rw [valuesOf, List.filter_cons_of_pos (by simp)]
  rfl

/-- The values of a name, when the first member has another one. -/
theorem valuesOf_cons_of_ne {k k' : String} (h : k' ≠ k) (v : Bytes)
    (ms : List (String × Bytes)) : valuesOf k ((k', v) :: ms) = valuesOf k ms := by
  rw [valuesOf, List.filter_cons_of_neg (by simpa using h)]
  rfl

end Held

/-! ## 4. Fields

Fields have names of their own and places of their own, so what happens at one says nothing about
another. That is what makes the order disappear. -/

/-- A member that counts: its name, its reader, and the place where it is kept. -/
structure Field (σ : Type) where
  α : Type
  name : String
  read : Bytes → Reading α
  Spells : Bytes → α → Prop
  reads : Reads read Spells
  get : σ → Option α
  put : σ → α → σ

/-- The reader of members keeps each field at a place of its own, once, and passes over every
other member. -/
structure Keeps {σ : Type} (member : String → σ → Bytes → Reading σ) (fs : List (Field σ)) :
    Prop where
  known : ∀ f ∈ fs, ∀ st s,
    member f.name st s = store (f.put st) (readOnce f.name (f.get st) f.read s)
  other : ∀ k, (∀ f ∈ fs, f.name ≠ k) → ∀ st s,
    member k st s = store (fun _ => st) ((skipMember s).map fun t => ((), t))
  unique : (fs.map Field.name).Nodup
  get_put : ∀ f ∈ fs, ∀ st a, f.get (f.put st a) = some a
  get_put_of_ne : ∀ f ∈ fs, ∀ g ∈ fs, f.name ≠ g.name → ∀ st a, g.get (f.put st a) = g.get st

/-- What one member does: a field that was not given before is kept, and what has no field is
passed over. -/
inductive FieldStep {σ : Type} (fs : List (Field σ)) : String → σ → Bytes → σ → Prop
  | kept {f : Field σ} {st : σ} {v : Bytes} {a : f.α} (hf : f ∈ fs) (h : f.get st = none)
      (hv : f.Spells v a) : FieldStep fs f.name st v (f.put st a)
  | other {k : String} {st : σ} {v : Bytes} (hk : ∀ f ∈ fs, f.name ≠ k) (hv : Value v) :
      FieldStep fs k st v st

section Fields

variable {σ : Type} {member : String → σ → Bytes → Reading σ} {fs : List (Field σ)}

/-- A reader that keeps its fields takes one step for each member. -/
theorem Keeps.steps (K : Keeps member fs) : Steps member (FieldStep fs) where
  sound := by
    intro k st st' s r h
    by_cases hk : ∃ f ∈ fs, f.name = k
    -- a field was empty before, any other member is passed over
    · obtain ⟨f, hf, rfl⟩ := hk
      rw [K.known f hf] at h
      obtain ⟨w, w', v, a, hw, hw', hv, hold, rfl, hs⟩ := store_sound f.reads h
      exact ⟨w, w', v, hw, hw', .kept hf hold hv, hs⟩
    · have hne : ∀ f ∈ fs, f.name ≠ k := fun f hf h0 => hk ⟨f, hf, h0⟩
      rw [K.other k hne] at h
      cases hskip : skipMember s with
      | error e =>
        rw [hskip] at h
        cases h
      | ok t =>
        rw [hskip] at h
        obtain ⟨rfl, rfl⟩ := Prod.mk.inj (Except.ok.inj h)
        obtain ⟨w, w', v, hw, hw', hv, hs⟩ := skipMember_sound hskip
        exact ⟨w, w', v, hw, hw', .other hne hv, hs⟩
  complete := by
    intro k st st' v h w w' r hw hw' hr
    cases h with
    | kept hf h hv =>
      rw [K.known _ hf, h]
      exact store_complete (Field.reads _) hw hw' hv hr
    | other hk hv =>
      rw [K.other k hk, skipMember_complete hw hw' hv hr]
      rfl

/-- A field that is filled stays as it is, and its member does not come again. -/
theorem Keeps.filled (K : Keeps member fs) {f : Field σ} (hf : f ∈ fs) {st st' : σ}
    {ms : List (String × Bytes)} (h : Run (FieldStep fs) st ms st') {a : f.α}
    (ha : f.get st = some a) : valuesOf f.name ms = [] ∧ f.get st' = some a := by
  induction h with
  | nil => exact ⟨rfl, ha⟩
  | cons hT hs ih =>
    cases hT with
    | @kept g _ _ b hg hnone hv =>
      by_cases hk : g.name = f.name
      -- the same field again would have been found empty
      · obtain rfl := List.inj_on_of_nodup_map K.unique hg hf hk
        rw [hnone] at ha
        cases ha
      · rw [valuesOf_cons_of_ne hk]
        exact ih (by rw [K.get_put_of_ne g hg f hf hk, ha])
    | other hk hv =>
      rw [valuesOf_cons_of_ne (Ne.symm (hk f hf))]
      exact ih ha

/-- **What is kept.** A field that was empty holds what the one member of its name spells,
wherever it stands among the others. -/
theorem Keeps.held (K : Keeps member fs) {f : Field σ} (hf : f ∈ fs) {st st' : σ}
    {ms : List (String × Bytes)} (h : Run (FieldStep fs) st ms st') (hst : f.get st = none) :
    Held f.Spells (valuesOf f.name ms) (f.get st') := by
  induction h with
  | nil => exact .inl ⟨rfl, hst⟩
  | cons hT hs ih =>
    cases hT with
    | @kept g _ _ b hg hnone hv =>
      by_cases hk : g.name = f.name
      -- this is the one member of the name, and what follows leaves its place alone
      · obtain rfl := List.inj_on_of_nodup_map K.unique hg hf hk
        obtain ⟨hnil, hend⟩ := K.filled hg hs (K.get_put g hg _ b)
        rw [valuesOf_cons_self, hnil]
        exact .inr ⟨b, ⟨_, rfl, hv⟩, hend⟩
      · rw [valuesOf_cons_of_ne hk]
        exact ih (by rw [K.get_put_of_ne g hg f hf hk, hst])
    | other hk hv =>
      rw [valuesOf_cons_of_ne (Ne.symm (hk f hf))]
      exact ih hst

/-- The members that have no field are values. -/
theorem values_of_run {st st' : σ} {ms : List (String × Bytes)}
    (h : Run (FieldStep fs) st ms st') : ∀ m ∈ ms, (∀ f ∈ fs, f.name ≠ m.1) → Value m.2 := by
  induction h with
  | nil =>
    intro m hm
    cases hm
  | cons hT hs ih =>
    intro m hm hne
    rcases List.mem_cons.mp hm with rfl | hm
    · cases hT with
      | kept hf => exact absurd rfl (hne _ hf)
      | other hk hv => exact hv
    · exact ih m hm hne

/-- **Runs exist.** Members with at most one of each field have a run, in any order. -/
theorem Keeps.exists_run (K : Keeps member fs) {ms : List (String × Bytes)} (st : σ)
    (known : ∀ f ∈ fs, valuesOf f.name ms = [] ∨
      f.get st = none ∧ ∃ a, One f.Spells (valuesOf f.name ms) a)
    (other : ∀ m ∈ ms, (∀ f ∈ fs, f.name ≠ m.1) → Value m.2) :
    ∃ st', Run (FieldStep fs) st ms st' := by
  induction ms generalizing st with
  | nil => exact ⟨st, .nil⟩
  | cons m ms ih =>
    obtain ⟨k, v⟩ := m
    by_cases hk : ∃ f ∈ fs, f.name = k
    · obtain ⟨f, hf, rfl⟩ := hk
      -- the field is free now, and it does not come again
      have hfirst : valuesOf f.name ms = [] ∧ f.get st = none ∧ ∃ a, f.Spells v a := by
        have hcons := valuesOf_cons_self f.name v ms
        rcases known f hf with hnil | ⟨hfree, a, t, hone, ha⟩
        · rw [hcons] at hnil
          cases hnil
        · rw [hcons] at hone
          obtain ⟨rfl, hnil⟩ := List.cons.inj hone
          exact ⟨hnil, hfree, a, ha⟩
      obtain ⟨hnil, hfree, a, ha⟩ := hfirst
      obtain ⟨st', hrun⟩ := ih (f.put st a)
        (fun g hg => by
          by_cases hfg : f.name = g.name
          · rw [← hfg]
            exact .inl hnil
          · have hrest := known g hg
            rw [valuesOf_cons_of_ne hfg] at hrest
            rwa [K.get_put_of_ne f hf g hg hfg])
        (fun m hm => other m (List.mem_cons_of_mem _ hm))
      exact ⟨st', .cons (.kept hf hfree ha) hrun⟩
    · have hne : ∀ f ∈ fs, f.name ≠ k := fun f hf h0 => hk ⟨f, hf, h0⟩
      obtain ⟨st', hrun⟩ := ih st
        (fun g hg => by
          have hrest := known g hg
          rwa [valuesOf_cons_of_ne (Ne.symm (hne g hg))] at hrest)
        (fun m hm => other m (List.mem_cons_of_mem _ hm))
      exact ⟨st', .cons (.other hne (other (k, v) List.mem_cons_self hne)) hrun⟩

/-! ## 5. Objects

Both directions for a whole object, from empty fields. -/

/-- An object that was read holds, in each field, what the member of its name spells, and the
members of other names are values. -/
theorem Keeps.object_sound (K : Keeps member fs) {n : Nat} {st st' : σ} {s r : Bytes}
    (h : readMembers member n true st s = .ok (st', r)) (hst : ∀ f ∈ fs, f.get st = none) :
    ∃ u ms, ObjectText Quoted (0x7B :: u) ms ∧ s = u ++ r ∧
      (∀ f ∈ fs, Held f.Spells (valuesOf f.name ms) (f.get st')) ∧
      ∀ m ∈ ms, m.1 ∉ fs.map Field.name → Value m.2 := by
  obtain ⟨u, ms, hu, hrun, rfl⟩ := readMembers_sound K.steps h
  refine ⟨u, ms, ⟨u, rfl, hu⟩, rfl, fun f hf => K.held hf hrun (hst f hf), fun m hm hne => ?_⟩
  exact values_of_run hrun m hm fun f hf hname => hne (hname ▸ List.mem_map_of_mem hf)

/-- An object with at most one of each field is read, and each field holds what it should. -/
theorem Keeps.object_complete (K : Keeps member fs) {n : Nat} (st : σ) {u : Bytes}
    {ms : List (String × Bytes)} (h : ObjectText Quoted (0x7B :: u) ms) (hn : u.length ≤ n)
    (r : Bytes) (hst : ∀ f ∈ fs, f.get st = none)
    (known : ∀ f ∈ fs, valuesOf f.name ms = [] ∨ ∃ a, One f.Spells (valuesOf f.name ms) a)
    (other : ∀ m ∈ ms, m.1 ∉ fs.map Field.name → Value m.2) :
    ∃ st', readMembers member n true st (u ++ r) = .ok (st', r) ∧
      ∀ f ∈ fs, Held f.Spells (valuesOf f.name ms) (f.get st') := by
  obtain ⟨x, hx, hu⟩ := h
  obtain rfl := (List.cons.inj hx).2
  obtain ⟨st', hrun⟩ := K.exists_run st
    (fun f hf => (known f hf).imp_right fun h => ⟨hst f hf, h⟩)
    (fun m hm hne => other m hm fun hmem => by
      obtain ⟨f, hf, hname⟩ := List.mem_map.mp hmem
      exact hne f hf hname)
  exact ⟨st', readMembers_complete K.steps hu hrun hn r, fun f hf => K.held hf hrun (hst f hf)⟩

end Fields

end UpgradeScan.EngineText
