/-
`Proofs/Engine/Entries.lean` -- findings, files and directories are read as they are spelled.

There are three kinds of entries, and each can be written as an object or as an array. The object is
settled by `Proofs/Engine/Members.lean`, once the members that count are listed as fields: an object
then holds at each place what the member of that name spells, so the order of the members does not
matter. What is left is to finish the entry, which fails when a member is missing and puts defaults
in place of the others.

An array is taken apart from the front. Its items have places instead of names, so no two of them
can be mixed up, but its end needs care: only a tail of members with defaults may be missing, and
what was taken for the last item must be followed by the bracket. `Items` says what is left of an
array after some of its items, and each item that is read shortens it by one.

The three kinds are alike and still not the same. A finding has six members and is a draft until its
file is known; a file settles its findings by its path, wherever the path stands; the directory is
not followed by anything that it would have to be told apart from. So each has its own fields and
its own two lemmas for the array, and the rest is shared.
-/
import UpgradeScan.Proofs.Engine.Members

set_option autoImplicit false

namespace UpgradeScan.EngineText

open UpgradeScan.JsonText

/-! ## 1. Arrays with a place for each member

Reading an array is a sequence of steps that may each fail. One lemma for each step says when it
succeeds and what is left then. -/

/-- Two steps succeed when the first one does and the second one does with its result. -/
theorem bind_eq_ok_iff {ε α β : Type} {x : Except ε α} {f : α → Except ε β} {b : β} :
    x >>= f = .ok b ↔ ∃ a, x = .ok a ∧ f a = .ok b := by
  cases x with
  | error e =>
    constructor
    · rintro ⟨⟩
    · rintro ⟨a, ⟨⟩, -⟩
  | ok a =>
    constructor
    · intro h
      exact ⟨a, rfl, h⟩
    · rintro ⟨_, ⟨⟩, h⟩
      exact h

/-- The texts of the items of an array that are left, and what follows the array. -/
def Items (first : Bool) (s : Bytes) (ts : List Bytes) (r : Bytes) : Prop :=
  ∃ u, Parts 0x5D Eq first u ts ∧ s = u ++ r

section Items

variable {α : Type} {item : Bytes → Reading α} {S : Bytes → α → Prop} {first : Bool}

/-- An item that was read was the first of those left. -/
theorem Items.cons_sound (R : Reads item S) {s t r : Bytes} {a : α} {ts : List Bytes}
    (h : readItem item first s = .ok (some a, t)) (hrest : Items false t ts r) :
    ∃ v, S v a ∧ Items first s (v :: ts) r := by
  obtain ⟨w, v, hw, hv, rfl⟩ := readItem_some R h
  obtain ⟨u, hu, rfl⟩ := hrest
  exact ⟨v, hv, _, parts_cons_iff.mpr ⟨w, v, u, hw, rfl, hu, rfl⟩, by simp⟩

/-- The first of the items that are left is read. -/
theorem Items.cons_complete (R : Reads item S) {s r v : Bytes} {a : α} {ts : List Bytes}
    (h : Items first s (v :: ts) r) (hv : S v a) :
    ∃ t, readItem item first s = .ok (some a, t) ∧ Items false t ts r := by
  obtain ⟨u, hu, rfl⟩ := h
  obtain ⟨w, _, x, hw, rfl, hx, rfl⟩ := parts_cons_iff.mp hu
  refine ⟨x ++ r, ?_, x, hx, rfl⟩
  rw [List.append_assoc, List.append_assoc]
  exact readItem_complete R hw hv (hx.ends (.inl rfl) r)

/-- At the bracket no item is left. -/
theorem Items.nil_sound {s r : Bytes} (h : readEnd s = .ok r) : Items false s [] r := by
  obtain ⟨w, hw, rfl⟩ := readEnd_eq_ok_iff.mp h
  exact ⟨_, .close hw, by simp⟩

/-- Where no item is left, the bracket stands there. -/
theorem Items.nil_complete {s r : Bytes} (h : Items first s [] r) : readEnd s = .ok r := by
  obtain ⟨u, hu, rfl⟩ := h
  obtain ⟨w, hw, rfl⟩ := parts_nil_iff.mp hu
  exact readEnd_eq_ok_iff.mpr ⟨w, hw, by simp⟩

/-- The last item may be missing. -/
theorem Items.tail_sound (R : Reads item S) {s t r : Bytes} {o : Option α}
    (h : readItem item false s = .ok (o, t)) (hend : readEnd t = .ok r) :
    ∃ ts, Held S ts o ∧ Items false s ts r := by
  cases o with
  | none =>
    -- the bracket was seen and left, for the end to take
    obtain ⟨w, x, hw, rfl, rfl⟩ := readItem_none h
    obtain ⟨u, hu, hur⟩ := Items.nil_sound hend
    exact ⟨[], .inl ⟨rfl, rfl⟩, w ++ u, hu.blanks hw, by rw [hur, List.append_assoc]⟩
  | some a =>
    obtain ⟨v, hv, hs⟩ := Items.cons_sound R h (Items.nil_sound hend)
    exact ⟨[v], .inr ⟨a, ⟨v, rfl, hv⟩, rfl⟩, hs⟩

/-- A last item that may be missing is read if it is there. -/
theorem Items.tail_complete (R : Reads item S) {s r : Bytes} {ts : List Bytes} {a default : α}
    (h : Items false s ts r) (ha : AtMostOne S default ts a) :
    ∃ o t, readItem item false s = .ok (o, t) ∧ readEnd t = .ok r ∧ o.getD default = a := by
  rcases ha with ⟨rfl, rfl⟩ | ⟨v, rfl, hv⟩
  · obtain ⟨u, hu, rfl⟩ := h
    obtain ⟨w, hw, rfl⟩ := parts_nil_iff.mp hu
    refine ⟨none, 0x5D :: r, ?_, readEnd_eq_ok_iff.mpr ⟨[], blanks_nil, rfl⟩, rfl⟩
    rw [List.append_assoc]
    exact readItem_end item _ hw r
  · obtain ⟨t, ht, hrest⟩ := h.cons_complete R hv
    exact ⟨some a, t, ht, hrest.nil_complete, rfl⟩

/-- An item that is needed is an item; where there is none the reading fails. -/
theorem needItem_eq_ok_iff {e : Expected} {position : Nat} {s r : Bytes} {a : α} :
    needItem e position item s = .ok (a, r) ↔
      readItem item (position == 0) s = .ok (some a, r) := by
  unfold needItem
  split
  · next b t hb => rw [hb]; simp
  · next t ht => rw [ht]; simp
  · next d hd => rw [hd]; simp

/-- After the end of the items there is none. -/
theorem no_item_after {β : Type} {item' : Bytes → Reading β} {s t u : Bytes} {b : β}
    (h : readItem item first s = .ok (none, t)) :
    readItem item' false t ≠ .ok (some b, u) := by
  obtain ⟨w, x, -, rfl, -⟩ := readItem_none h
  have hend := readItem_end item' false blanks_nil x
  rw [List.nil_append] at hend
  rw [hend]
  simp

/-- The items of an array, from its bracket on. -/
theorem items_of_listText {u : Bytes} {ts : List Bytes} (h : ListText Eq (0x5B :: u) ts)
    (r : Bytes) : Items true (u ++ r) ts r := by
  obtain ⟨x, hx, hu⟩ := h
  obtain rfl := (List.cons.inj hx).2
  exact ⟨u, hu, rfl⟩

theorem listText_of_items {s r : Bytes} {ts : List Bytes} (h : Items true s ts r) :
    ∃ u, ListText Eq (0x5B :: u) ts ∧ s = u ++ r := by
  obtain ⟨u, hu, rfl⟩ := h
  exact ⟨u, ⟨u, rfl, hu⟩, rfl⟩

end Items

/-! ## 2. Findings

The six members of a finding, as fields. -/

namespace FindingMembers

/-- The category, which every finding has. -/
def categoryField : Field FindingMembers :=
  ⟨Category, "type", readCategory, CategoryText, reads_category, FindingMembers.category,
    fun m v => { m with category := some v }⟩

/-- The confidence, which every finding has. -/
def confidenceField : Field FindingMembers :=
  ⟨Confidence, "indicator", readConfidence, ConfidenceText, reads_confidence,
    FindingMembers.confidence, fun m v => { m with confidence := some v }⟩

/-- The rule, which every finding has. -/
def ruleField : Field FindingMembers :=
  ⟨String, "ruleFile", readText .text, Quoted, reads_text .text, FindingMembers.rule,
    fun m v => { m with rule := some v }⟩

/-- The source, which may be left open. -/
def sourceField : Field FindingMembers :=
  ⟨Option Path, "sourceFile", readOptionalPath, OptionalPathText, reads_optionalPath,
    FindingMembers.source, fun m v => { m with source := some v }⟩

/-- The line, which every finding has. -/
def lineField : Field FindingMembers :=
  ⟨Nat, "line", readLine, LineText, reads_line, FindingMembers.line,
    fun m v => { m with line := some v }⟩

/-- The message, which may be empty. -/
def messageField : Field FindingMembers :=
  ⟨String, "message", readText .text, Quoted, reads_text .text, FindingMembers.message,
    fun m v => { m with message := some v }⟩

/-- Every field, in the order of declaration. -/
def fields : List (Field FindingMembers) :=
  [categoryField, confidenceField, ruleField, sourceField, lineField, messageField]

/-- What holds of each field holds of all. -/
theorem forall_fields {P : Field FindingMembers → Prop} :
    (∀ f ∈ fields, P f) ↔
      P categoryField ∧ P confidenceField ∧ P ruleField ∧ P sourceField ∧ P lineField ∧
        P messageField := by
  simp only [fields, List.forall_mem_cons, List.not_mem_nil, false_implies, implies_true,
    and_true]

/-- The reader of a finding keeps its six fields, each at its own place. -/
theorem keeps : Keeps findingMember fields where
  known := forall_fields.mpr
    ⟨fun _ _ => rfl, fun _ _ => rfl, fun _ _ => rfl, fun _ _ => rfl, fun _ _ => rfl,
      fun _ _ => rfl⟩
  other := by
    intro k h st s
    have hne : "type" ≠ k ∧ "indicator" ≠ k ∧ "ruleFile" ≠ k ∧ "sourceFile" ≠ k ∧ "line" ≠ k ∧
      "message" ≠ k := forall_fields.mp h
    obtain ⟨h0, h1, h2, h3, h4, h5⟩ := hne
    rw [findingMember, if_neg (Ne.symm h0), if_neg (Ne.symm h1), if_neg (Ne.symm h2),
      if_neg (Ne.symm h3), if_neg (Ne.symm h4), if_neg (Ne.symm h5)]
    cases skipMember s <;> rfl
  unique := by decide
  get_put := forall_fields.mpr
    ⟨fun _ _ => rfl, fun _ _ => rfl, fun _ _ => rfl, fun _ _ => rfl, fun _ _ => rfl,
      fun _ _ => rfl⟩
  get_put_of_ne := by
    intro f hf g hg hne st a
    simp only [fields, List.mem_cons, List.not_mem_nil, or_false] at hf hg
    rcases hf with rfl | rfl | rfl | rfl | rfl | rfl <;>
      rcases hg with rfl | rfl | rfl | rfl | rfl | rfl <;>
      first | exact absurd rfl hne | rfl

/-- A finding is finished when the four members that it needs were given. -/
theorem finish_eq_ok_iff {m : FindingMembers} {d : Draft} :
    m.finish = .ok d ↔
      m.category = some d.category ∧ m.confidence = some d.confidence ∧ m.rule = some d.rule ∧
        m.line = some d.line ∧ m.source.getD none = d.source ∧ m.message.getD "" = d.message := by
  obtain ⟨c, i, r, s, l, t⟩ := m
  obtain ⟨c', i', r', s', l', t'⟩ := d
  cases c with
  -- without one of the four needed members nothing is finished
  | none => simp [finish]
  | some c =>
    cases i with
    | none => simp [finish]
    | some i =>
      cases r with
      | none => simp [finish]
      | some r =>
        cases l with
        | none => simp [finish]
        | some l =>
          simp only [finish, Except.ok.injEq, Draft.mk.injEq, Option.some.injEq]
          tauto

end FindingMembers

theorem DraftText.opens {t : Bytes} {d : Draft} (h : DraftText t d) : Opens t := by
  cases h with
  | object h => exact opens_object h
  | array h => exact opens_list h

/-- A finding that was read from an array was spelled by it. -/
theorem findingItems_sound {s r : Bytes} {d : Draft} (h : findingItems s = .ok (d, r)) :
    ∃ u, DraftText (0x5B :: u) d ∧ s = u ++ r := by
  unfold findingItems at h
  obtain ⟨⟨c, s1⟩, h1, h⟩ := bind_eq_ok_iff.mp h
  obtain ⟨⟨i, s2⟩, h2, h⟩ := bind_eq_ok_iff.mp h
  obtain ⟨⟨rule, s3⟩, h3, h⟩ := bind_eq_ok_iff.mp h
  obtain ⟨⟨source, s4⟩, h4, h⟩ := bind_eq_ok_iff.mp h
  obtain ⟨⟨line, s5⟩, h5, h⟩ := bind_eq_ok_iff.mp h
  obtain ⟨⟨message, s6⟩, h6, h⟩ := bind_eq_ok_iff.mp h
  obtain ⟨s7, h7, h⟩ := bind_eq_ok_iff.mp h
  obtain ⟨rfl, rfl⟩ := Prod.mk.inj (Except.ok.inj h)
  rw [needItem_eq_ok_iff] at h1 h2 h3 h5
  -- the line has to follow the source, so the source is there
  cases source with
  | none => exact absurd h5 (no_item_after h4)
  | some o =>
    -- from the end to the front, one text more at each place
    obtain ⟨ts, hmessage, hitems⟩ := Items.tail_sound (reads_text .text) h6 h7
    obtain ⟨v5, hline, hitems⟩ := Items.cons_sound reads_line h5 hitems
    obtain ⟨v4, hsource, hitems⟩ := Items.cons_sound reads_optionalPath h4 hitems
    obtain ⟨v3, hrule, hitems⟩ := Items.cons_sound (reads_text .text) h3 hitems
    obtain ⟨v2, hconfidence, hitems⟩ := Items.cons_sound reads_confidence h2 hitems
    obtain ⟨v1, hcategory, hitems⟩ := Items.cons_sound reads_category h1 hitems
    obtain ⟨u, hu, hs⟩ := listText_of_items hitems
    exact ⟨u, .array hu hcategory hconfidence hrule hsource hline (hmessage.atMostOne ""), hs⟩

/-- An array that spells a finding is read as that. -/
theorem findingItems_complete {u c i rule source line : Bytes} {rest : List Bytes} {d : Draft}
    (h : ListText Eq (0x5B :: u) (c :: i :: rule :: source :: line :: rest))
    (hcategory : CategoryText c d.category) (hconfidence : ConfidenceText i d.confidence)
    (hrule : Quoted rule d.rule) (hsource : OptionalPathText source d.source)
    (hline : LineText line d.line) (hmessage : AtMostOne Quoted "" rest d.message) (r : Bytes) :
    findingItems (u ++ r) = .ok (d, r) := by
  obtain ⟨s1, h1, hitems⟩ := (items_of_listText h r).cons_complete reads_category hcategory
  obtain ⟨s2, h2, hitems⟩ := hitems.cons_complete reads_confidence hconfidence
  obtain ⟨s3, h3, hitems⟩ := hitems.cons_complete (reads_text .text) hrule
  obtain ⟨s4, h4, hitems⟩ := hitems.cons_complete reads_optionalPath hsource
  obtain ⟨s5, h5, hitems⟩ := hitems.cons_complete reads_line hline
  obtain ⟨o, s6, h6, hend, ho⟩ := hitems.tail_complete (reads_text .text) hmessage
  refine bind_eq_ok_iff.mpr ⟨_, needItem_eq_ok_iff.mpr h1, ?_⟩
  refine bind_eq_ok_iff.mpr ⟨_, needItem_eq_ok_iff.mpr h2, ?_⟩
  refine bind_eq_ok_iff.mpr ⟨_, needItem_eq_ok_iff.mpr h3, ?_⟩
  refine bind_eq_ok_iff.mpr ⟨_, h4, ?_⟩
  refine bind_eq_ok_iff.mpr ⟨_, needItem_eq_ok_iff.mpr h5, ?_⟩
  refine bind_eq_ok_iff.mpr ⟨_, h6, ?_⟩
  refine bind_eq_ok_iff.mpr ⟨_, hend, ?_⟩
  rw [ho]
  rfl

/-- **Findings.** A finding is read as it is spelled, with its source left open if it is. -/
theorem reads_finding : Reads readFinding DraftText where
  opens := DraftText.opens
  sound := by
    intro s r d h
    unfold readFinding at h
    split at h
    · next t ht =>
      obtain ⟨w, hw, rfl⟩ := exists_of_skipSpace ht
      split at h
      · cases h
      · next m u hm =>
        split at h
        · next d' hd =>
          obtain ⟨rfl, rfl⟩ := Prod.mk.inj (Except.ok.inj h)
          obtain ⟨x, ms, hobject, rfl, hheld, hother⟩ := FindingMembers.keeps.object_sound hm
            (FindingMembers.forall_fields.mpr ⟨rfl, rfl, rfl, rfl, rfl, rfl⟩)
          -- each place holds what the one member of its name spells
          obtain ⟨h1, h2, h3, h4, h5, h6⟩ := FindingMembers.forall_fields.mp hheld
          obtain ⟨hc, hi, hr, hl, hsource, hmessage⟩ := FindingMembers.finish_eq_ok_iff.mp hd
          refine ⟨w, _, hw, .object hobject (h1.one hc) (h2.one hi) (h3.one hr) ?_ (h5.one hl) ?_
            hother, rfl⟩
          · rw [← hsource]
            exact h4.atMostOne none
          · rw [← hmessage]
            exact h6.atMostOne ""
        · cases h
    · next t ht =>
      obtain ⟨w, hw, rfl⟩ := exists_of_skipSpace ht
      obtain ⟨u, hu, rfl⟩ := findingItems_sound h
      exact ⟨w, _, hw, hu, rfl⟩
    · cases h
  complete := by
    intro t d h w r hw hr
    have hskip := h.opens.skipSpace hw r
    cases h with
    | object hobject hcategory hconfidence hrule hsource hline hmessage hother =>
      obtain ⟨u, rfl, hu⟩ := hobject
      obtain ⟨m, hm, hheld⟩ := FindingMembers.keeps.object_complete {} ⟨u, rfl, hu⟩
        (n := (u ++ r).length + 1) (by rw [List.length_append]; omega) r
        (FindingMembers.forall_fields.mpr ⟨rfl, rfl, rfl, rfl, rfl, rfl⟩)
        (FindingMembers.forall_fields.mpr ⟨.inr ⟨_, hcategory⟩, .inr ⟨_, hconfidence⟩,
          .inr ⟨_, hrule⟩, hsource.nil_or_one, .inr ⟨_, hline⟩,
          hmessage.nil_or_one⟩)
        hother
      obtain ⟨h1, h2, h3, h4, h5, h6⟩ := FindingMembers.forall_fields.mp hheld
      have hfinish : m.finish = .ok d := FindingMembers.finish_eq_ok_iff.mpr
        ⟨h1.eq_some reads_category hcategory, h2.eq_some reads_confidence hconfidence,
          h3.eq_some (reads_text .text) hrule, h5.eq_some reads_line hline,
          h4.getD_eq reads_optionalPath hsource, h6.getD_eq (reads_text .text) hmessage⟩
      rw [List.cons_append] at hskip
      simp only [readFinding, List.cons_append, hskip, hm, hfinish]
    | array hlist hcategory hconfidence hrule hsource hline hmessage =>
      obtain ⟨u, rfl, hu⟩ := hlist
      rw [List.cons_append] at hskip
      simp only [readFinding, List.cons_append, hskip]
      exact findingItems_complete ⟨u, rfl, hu⟩ hcategory hconfidence hrule hsource hline hmessage r

/-! ## 3. Files

A file has two fields. Its path settles the drafts, and may come after them. -/

namespace FileMembers

/-- The path, which every file has. -/
def pathField : Field FileMembers :=
  ⟨Path, "path", readPath, PathText, reads_path, FileMembers.path,
    fun m v => { m with path := some v }⟩

/-- The findings, which may be none. -/
def findingsField : Field FileMembers :=
  ⟨List Draft, "matches", readList readFinding, ListText DraftText, reads_list reads_finding,
    FileMembers.findings, fun m v => { m with findings := some v }⟩

/-- Every field, in the order of declaration. -/
def fields : List (Field FileMembers) := [pathField, findingsField]

/-- What holds of both fields holds of all. -/
theorem forall_fields {P : Field FileMembers → Prop} :
    (∀ f ∈ fields, P f) ↔ P pathField ∧ P findingsField := by
  simp only [fields, List.forall_mem_cons, List.not_mem_nil, false_implies, implies_true,
    and_true]

/-- The reader of a file keeps its two fields. -/
theorem keeps : Keeps fileMember fields where
  known := forall_fields.mpr ⟨fun _ _ => rfl, fun _ _ => rfl⟩
  other := by
    intro k h st s
    have hne : "path" ≠ k ∧ "matches" ≠ k := forall_fields.mp h
    obtain ⟨h0, h1⟩ := hne
    rw [fileMember, if_neg (Ne.symm h0), if_neg (Ne.symm h1)]
    cases skipMember s <;> rfl
  unique := by decide
  get_put := forall_fields.mpr ⟨fun _ _ => rfl, fun _ _ => rfl⟩
  get_put_of_ne := by
    intro f hf g hg hne st a
    simp only [fields, List.mem_cons, List.not_mem_nil, or_false] at hf hg
    rcases hf with rfl | rfl <;> rcases hg with rfl | rfl <;>
      first | exact absurd rfl hne | rfl

end FileMembers

theorem FileText.opens {t : Bytes} {f : FileReport} (h : FileText t f) : Opens t := by
  cases h with
  | object h => exact opens_object h
  | array h => exact opens_list h

/-- A file that was read from an array was spelled by it. -/
theorem fileItems_sound {s r : Bytes} {f : FileReport} (h : fileItems s = .ok (f, r)) :
    ∃ u, FileText (0x5B :: u) f ∧ s = u ++ r := by
  unfold fileItems at h
  obtain ⟨⟨p, s1⟩, h1, h⟩ := bind_eq_ok_iff.mp h
  obtain ⟨⟨ds, s2⟩, h2, h⟩ := bind_eq_ok_iff.mp h
  obtain ⟨s3, h3, h⟩ := bind_eq_ok_iff.mp h
  obtain ⟨rfl, rfl⟩ := Prod.mk.inj (Except.ok.inj h)
  obtain ⟨ts, hfindings, hitems⟩ := Items.tail_sound (reads_list reads_finding) h2 h3
  obtain ⟨v, hpath, hitems⟩ := Items.cons_sound reads_path (needItem_eq_ok_iff.mp h1) hitems
  obtain ⟨u, hu, hs⟩ := listText_of_items hitems
  exact ⟨u, .array hu hpath (hfindings.atMostOne []), hs⟩

/-- An array that spells a file is read as that. -/
theorem fileItems_complete {u v : Bytes} {rest : List Bytes} {path : Path} {drafts : List Draft}
    (h : ListText Eq (0x5B :: u) (v :: rest)) (hpath : PathText v path)
    (hfindings : AtMostOne (ListText DraftText) [] rest drafts) (r : Bytes) :
    fileItems (u ++ r) = .ok (fileOf path drafts, r) := by
  obtain ⟨s1, h1, hitems⟩ := (items_of_listText h r).cons_complete reads_path hpath
  obtain ⟨o, s2, h2, hend, ho⟩ := hitems.tail_complete (reads_list reads_finding) hfindings
  refine bind_eq_ok_iff.mpr ⟨_, needItem_eq_ok_iff.mpr h1, ?_⟩
  refine bind_eq_ok_iff.mpr ⟨_, h2, ?_⟩
  refine bind_eq_ok_iff.mpr ⟨_, hend, ?_⟩
  rw [ho]
  rfl

/-- **Files.** A file is read as it is spelled; its path settles the sources left open, wherever
it stands. -/
theorem reads_file : Reads readFile FileText where
  opens := FileText.opens
  sound := by
    intro s r f h
    -- The reader decides by the first byte: a brace, a bracket or neither.
    unfold readFile at h
    split at h
    · next t ht =>
      obtain ⟨w, hw, rfl⟩ := exists_of_skipSpace ht
      split at h
      · cases h
      · next m u hm =>
        split at h
        · next p hp =>
          obtain ⟨rfl, rfl⟩ := Prod.mk.inj (Except.ok.inj h)
          obtain ⟨x, ms, hobject, rfl, hheld, hother⟩ := FileMembers.keeps.object_sound hm
            (FileMembers.forall_fields.mpr ⟨rfl, rfl⟩)
          obtain ⟨hpath, hfindings⟩ := FileMembers.forall_fields.mp hheld
          exact ⟨w, _, hw, .object hobject (hpath.one hp) (hfindings.atMostOne []) hother, rfl⟩
        · cases h
    · next t ht =>
      obtain ⟨w, hw, rfl⟩ := exists_of_skipSpace ht
      obtain ⟨u, hu, rfl⟩ := fileItems_sound h
      exact ⟨w, _, hw, hu, rfl⟩
    · cases h
  complete := by
    intro t f h w r hw hr
    have hskip := h.opens.skipSpace hw r
    cases h with
    | object hobject hpath hfindings hother =>
      obtain ⟨u, rfl, hu⟩ := hobject
      obtain ⟨m, hm, hheld⟩ := FileMembers.keeps.object_complete {} ⟨u, rfl, hu⟩
        (n := (u ++ r).length + 1) (by rw [List.length_append]; omega) r
        (FileMembers.forall_fields.mpr ⟨rfl, rfl⟩)
        (FileMembers.forall_fields.mpr
          ⟨.inr ⟨_, hpath⟩, hfindings.nil_or_one⟩) hother
      obtain ⟨h1, h2⟩ := FileMembers.forall_fields.mp hheld
      have hp : m.path = _ := h1.eq_some reads_path hpath
      have hf : m.findings.getD [] = _ := h2.getD_eq (reads_list reads_finding) hfindings
      rw [List.cons_append] at hskip
      simp only [readFile, List.cons_append, hskip, hm, hp, hf, fileOf]
    | array hlist hpath hfindings =>
      obtain ⟨u, rfl, hu⟩ := hlist
      rw [List.cons_append] at hskip
      simp only [readFile, List.cons_append, hskip]
      exact fileItems_complete ⟨u, rfl, hu⟩ hpath hfindings r

/-! ## 4. The directory

The directory has two fields as well. -/

namespace DirectoryMembers

/-- The path, which the directory has. -/
def pathField : Field DirectoryMembers :=
  ⟨Path, "path", readPath, PathText, reads_path, DirectoryMembers.path,
    fun m v => { m with path := some v }⟩

/-- The files, which may be none. -/
def filesField : Field DirectoryMembers :=
  ⟨List FileReport, "files", readList readFile, ListText FileText, reads_list reads_file,
    DirectoryMembers.files, fun m v => { m with files := some v }⟩

/-- Every field, in the order of declaration. -/
def fields : List (Field DirectoryMembers) := [pathField, filesField]

/-- What holds of both fields holds of all. -/
theorem forall_fields {P : Field DirectoryMembers → Prop} :
    (∀ f ∈ fields, P f) ↔ P pathField ∧ P filesField := by
  simp only [fields, List.forall_mem_cons, List.not_mem_nil, false_implies, implies_true,
    and_true]

/-- The reader of the directory keeps its two fields. -/
theorem keeps : Keeps directoryMember fields where
  known := forall_fields.mpr ⟨fun _ _ => rfl, fun _ _ => rfl⟩
  other := by
    intro k h st s
    have hne : "path" ≠ k ∧ "files" ≠ k := forall_fields.mp h
    obtain ⟨h0, h1⟩ := hne
    rw [directoryMember, if_neg (Ne.symm h0), if_neg (Ne.symm h1)]
    cases skipMember s <;> rfl
  unique := by decide
  get_put := forall_fields.mpr ⟨fun _ _ => rfl, fun _ _ => rfl⟩
  get_put_of_ne := by
    intro f hf g hg hne st a
    simp only [fields, List.mem_cons, List.not_mem_nil, or_false] at hf hg
    rcases hf with rfl | rfl <;> rcases hg with rfl | rfl <;>
      first | exact absurd rfl hne | rfl

end DirectoryMembers

theorem DirectoryText.opens {t : Bytes} {d : Report} (h : DirectoryText t d) : Opens t := by
  cases h with
  | object h => exact opens_object h
  | array h => exact opens_list h

/-- A directory that was read from an array was spelled by it. -/
theorem directoryItems_sound {s r : Bytes} {d : Report} (h : directoryItems s = .ok (d, r)) :
    ∃ u, DirectoryText (0x5B :: u) d ∧ s = u ++ r := by
  unfold directoryItems at h
  obtain ⟨⟨p, s1⟩, h1, h⟩ := bind_eq_ok_iff.mp h
  obtain ⟨⟨fs, s2⟩, h2, h⟩ := bind_eq_ok_iff.mp h
  obtain ⟨s3, h3, h⟩ := bind_eq_ok_iff.mp h
  obtain ⟨rfl, rfl⟩ := Prod.mk.inj (Except.ok.inj h)
  obtain ⟨ts, hfiles, hitems⟩ := Items.tail_sound (reads_list reads_file) h2 h3
  obtain ⟨v, hpath, hitems⟩ := Items.cons_sound reads_path (needItem_eq_ok_iff.mp h1) hitems
  obtain ⟨u, hu, hs⟩ := listText_of_items hitems
  exact ⟨u, .array hu hpath (hfiles.atMostOne []), hs⟩

/-- An array that spells a directory is read as that. -/
theorem directoryItems_complete {u v : Bytes} {rest : List Bytes} {d : Report}
    (h : ListText Eq (0x5B :: u) (v :: rest)) (hpath : PathText v d.path)
    (hfiles : AtMostOne (ListText FileText) [] rest d.files) (r : Bytes) :
    directoryItems (u ++ r) = .ok (d, r) := by
  obtain ⟨s1, h1, hitems⟩ := (items_of_listText h r).cons_complete reads_path hpath
  obtain ⟨o, s2, h2, hend, ho⟩ := hitems.tail_complete (reads_list reads_file) hfiles
  refine bind_eq_ok_iff.mpr ⟨_, needItem_eq_ok_iff.mpr h1, ?_⟩
  refine bind_eq_ok_iff.mpr ⟨_, h2, ?_⟩
  refine bind_eq_ok_iff.mpr ⟨_, hend, ?_⟩
  rw [ho]
  rfl

/-- The text of the directory ends with its own bracket, so anything may follow it. -/
theorem readDirectory_complete {t : Bytes} {d : Report} (h : DirectoryText t d) {w : Bytes}
    (hw : Blanks w) (r : Bytes) : readDirectory (w ++ (t ++ r)) = .ok (d, r) := by
  have hskip := h.opens.skipSpace hw r
  cases h with
  | object hobject hpath hfiles hother =>
    obtain ⟨u, rfl, hu⟩ := hobject
    obtain ⟨m, hm, hheld⟩ := DirectoryMembers.keeps.object_complete {} ⟨u, rfl, hu⟩
      (n := (u ++ r).length + 1) (by rw [List.length_append]; omega) r
      (DirectoryMembers.forall_fields.mpr ⟨rfl, rfl⟩)
      (DirectoryMembers.forall_fields.mpr
        ⟨.inr ⟨_, hpath⟩, hfiles.nil_or_one⟩) hother
    obtain ⟨h1, h2⟩ := DirectoryMembers.forall_fields.mp hheld
    have hp : m.path = some d.path := h1.eq_some reads_path hpath
    have hf : m.files.getD [] = d.files := h2.getD_eq (reads_list reads_file) hfiles
    rw [List.cons_append] at hskip
    simp only [readDirectory, List.cons_append, hskip, hm, hp, hf]
  | array hlist hpath hfiles =>
    obtain ⟨u, rfl, hu⟩ := hlist
    rw [List.cons_append] at hskip
    simp only [readDirectory, List.cons_append, hskip]
    exact directoryItems_complete ⟨u, rfl, hu⟩ hpath hfiles r

/-- **The directory.** The directory is read as it is spelled. -/
theorem reads_directory : Reads readDirectory DirectoryText where
  opens := DirectoryText.opens
  sound := by
    intro s r d h
    unfold readDirectory at h
    split at h
    · next t ht =>
      obtain ⟨w, hw, rfl⟩ := exists_of_skipSpace ht
      split at h
      · cases h
      · next m u hm =>
        split at h
        · next p hp =>
          obtain ⟨rfl, rfl⟩ := Prod.mk.inj (Except.ok.inj h)
          obtain ⟨x, ms, hobject, rfl, hheld, hother⟩ := DirectoryMembers.keeps.object_sound hm
            (DirectoryMembers.forall_fields.mpr ⟨rfl, rfl⟩)
          obtain ⟨hpath, hfiles⟩ := DirectoryMembers.forall_fields.mp hheld
          exact ⟨w, _, hw, .object hobject (hpath.one hp) (hfiles.atMostOne []) hother, rfl⟩
        · cases h
    · next t ht =>
      obtain ⟨w, hw, rfl⟩ := exists_of_skipSpace ht
      obtain ⟨u, hu, rfl⟩ := directoryItems_sound h
      exact ⟨w, _, hw, hu, rfl⟩
    · cases h
  complete := fun h _ r hw _ => readDirectory_complete h hw r

end UpgradeScan.EngineText
