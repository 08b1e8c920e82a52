/-
`Proofs/Files/Title.lean` -- the title of a document is the line after its marker.

A document is read line by line, first for a marker and then for a line that is not blank. The
marker is a line that begins with an equals sign, in most documents a row of them above the title.
What is read is bytes, so a line may also be no text, and then reading ends there, with or without a
title.

The title is described by places (`TitleAt`): a line that is the marker and the first such, a line
after it that is the title, only blank lines between them, and only text up to it. Each of the two
searches either goes past a line or ends at it, and a line that is no text ends both. So one line in
front of a document moves the place of its title by one (`titleAt_cons`), or it is where the search
goes on (`shownAt_cons`), and the function and the description go through the lines in the same
steps.

Nothing behind the title is read at all. So a document whose title comes before bytes that are no
text has that title, and one in which they come first has none. A second marker right after the
first is not blank, and so it is the title.
-/
import UpgradeScan.Proofs.Files.Changelog
import UpgradeScan.Proofs.Text.Split
import UpgradeScan.Proofs.Text.Utf8

set_option autoImplicit false

namespace UpgradeScan.Document

open Text (trim)
open Text.Utf8 (encode decode? encode_inj)

/-! ## 1. Places in a document

Lines are numbered from 0. A description of places is moved by one when a line is put in front. -/

/-- What reading a document gives: the title, or `none` when a line before it is no text. -/
def extracted? (content : Bytes) : Option (List Char) :=
  titleIn false ((Text.lines 0x0A 0x0D content).map decode?)

/-- The line of that number, counted from 0, spells a text. -/
def LineIs (ls : List Bytes) (k : Nat) (s : List Char) : Prop := ls[k]? = some (encode s)

/-- After blank lines only, line `j` is the first that is not blank, and it spells `t`. -/
structure ShownAt (ls : List Bytes) (j : Nat) (t : List Char) : Prop where
  title : LineIs ls j t
  shown : trim t ≠ []
  blank : ∀ k < j, ∃ s, LineIs ls k s ∧ trim s = []

/-- Line `i` is the first that begins with an equals sign, line `j` is the first after it that is
not blank and spells `t`, and every line up to it is text. -/
structure TitleAt (ls : List Bytes) (i j : Nat) (t : List Char) : Prop where
  readable : ∀ k ≤ j, ∃ s, LineIs ls k s
  marker : ∃ s, LineIs ls i s ∧ s.head? = some '='
  first : ∀ k < i, ∀ s, LineIs ls k s → s.head? ≠ some '='
  after : i < j
  blank : ∀ k, i < k → k < j → ∀ s, LineIs ls k s → trim s = []
  title : LineIs ls j t
  shown : trim t ≠ []

variable {ls : List Bytes} {l : Bytes} {s t : List Char} {i j : Nat}

/-- The first line is the first line. -/
theorem lineIs_zero (h : LineIs (encode s :: ls) 0 t) : t = s :=
  encode_inj (Option.some.inj h).symm

/-- A line that is no text decodes to nothing. -/
theorem decode?_eq_none_iff : decode? l = none ↔ ∀ s, l ≠ encode s := by
  rw [Option.eq_none_iff_forall_ne_some]
  exact forall_congr' fun s => not_congr Text.Utf8.decode?_eq_some_iff

/-- The search for a line that is not blank goes past a blank one. -/
theorem shownAt_cons : ShownAt (encode s :: ls) j t ↔
    (j = 0 ∧ t = s ∧ trim s ≠ []) ∨ ∃ j', j = j' + 1 ∧ trim s = [] ∧ ShownAt ls j' t := by
  constructor
  · intro h
    cases j with
    | zero =>
      obtain rfl := lineIs_zero h.title
      exact .inl ⟨rfl, rfl, h.shown⟩
    | succ j =>
      obtain ⟨s', hs', hblank⟩ := h.blank 0 (Nat.succ_pos j)
      obtain rfl := lineIs_zero hs'
      exact .inr ⟨j, rfl, hblank, h.title, h.shown,
        fun k hk => h.blank (k + 1) (Nat.succ_lt_succ hk)⟩
  · rintro (⟨rfl, rfl, hshown⟩ | ⟨j, rfl, hblank, h⟩)
    · exact ⟨rfl, hshown, fun k hk => absurd hk (Nat.not_lt_zero k)⟩
    · refine ⟨h.title, h.shown, ?_⟩
      intro k hk
      cases k with
      | zero => exact ⟨s, rfl, hblank⟩
      | succ k => exact h.blank k (Nat.lt_of_succ_lt_succ hk)

/-- Every line up to the one that is shown is text. -/
theorem ShownAt.readable (h : ShownAt ls j t) : ∀ k ≤ j, ∃ s, LineIs ls k s := by
  intro k hk
  by_cases hkj : k < j
  · obtain ⟨s, hs, -⟩ := h.blank k hkj
    exact ⟨s, hs⟩
  · obtain rfl : k = j := by omega
    exact ⟨t, h.title⟩

/-- The search for the marker goes past every other line. -/
theorem titleAt_cons : TitleAt (encode s :: ls) i j t ↔
    (s.head? = some '=' ∧ i = 0 ∧ ∃ j', j = j' + 1 ∧ ShownAt ls j' t) ∨
      s.head? ≠ some '=' ∧ ∃ i' j', i = i' + 1 ∧ j = j' + 1 ∧ TitleAt ls i' j' t := by
  constructor
  · intro h
    obtain ⟨j, rfl⟩ := Nat.exists_eq_add_one.mpr (Nat.zero_lt_of_lt h.after)
    -- The marker stands on this line or below it; below, every line number goes down by one.
    cases i with
    | zero =>
      obtain ⟨s', hs', hmarker⟩ := h.marker
      obtain rfl := lineIs_zero hs'
      refine .inl ⟨hmarker, rfl, j, rfl, h.title, h.shown, ?_⟩
      intro k hk
      obtain ⟨s, hs⟩ := h.readable (k + 1) (by omega)
      exact ⟨s, hs, h.blank (k + 1) (Nat.succ_pos k) (Nat.succ_lt_succ hk) s hs⟩
    | succ i =>
      refine .inr ⟨h.first 0 (Nat.succ_pos i) s rfl, i, j, rfl, rfl, ?_⟩
      exact {
        readable := fun k hk => h.readable (k + 1) (Nat.succ_le_succ hk)
        marker := h.marker
        first := fun k hk => h.first (k + 1) (Nat.succ_lt_succ hk)
        after := Nat.lt_of_succ_lt_succ h.after
        blank := fun k hik hkj => h.blank (k + 1) (Nat.succ_lt_succ hik) (Nat.succ_lt_succ hkj)
        title := h.title
        shown := h.shown }
  · rintro (⟨hmarker, rfl, j, rfl, h⟩ | ⟨hother, i, j, rfl, rfl, h⟩)
    · refine ⟨?_, ⟨s, rfl, hmarker⟩, fun k hk => absurd hk (Nat.not_lt_zero k), Nat.succ_pos j, ?_,
        h.title, h.shown⟩
      · intro k hk
        cases k with
        | zero => exact ⟨s, rfl⟩
        | succ k => exact h.readable k (Nat.le_of_succ_le_succ hk)
      · intro k hik hkj s' hs'
        obtain ⟨k, rfl⟩ := Nat.exists_eq_add_one.mpr hik
        obtain ⟨s'', hs'', hblank⟩ := h.blank k (Nat.lt_of_succ_lt_succ hkj)
        obtain rfl := encode_inj (Option.some.inj (hs'.symm.trans hs''))
        exact hblank
    · refine ⟨?_, h.marker, ?_, Nat.succ_lt_succ h.after, ?_, h.title, h.shown⟩
      · intro k hk
        cases k with
        | zero => exact ⟨s, rfl⟩
        | succ k => exact h.readable k (Nat.le_of_succ_le_succ hk)
      · intro k hk s' hs'
        cases k with
        | zero =>
          obtain rfl := lineIs_zero hs'
          exact hother
        | succ k => exact h.first k (Nat.lt_of_succ_lt_succ hk) s' hs'
      · intro k hik hkj s' hs'
        obtain ⟨k, rfl⟩ := Nat.exists_eq_add_one.mpr (Nat.zero_lt_of_lt hik)
        exact h.blank k (Nat.lt_of_succ_lt_succ hik) (Nat.lt_of_succ_lt_succ hkj) s' hs'

/-! ## 2. The two searches

By induction on the lines. The search after the marker comes first, since the other one ends in it.
-/

/-- The search for a line that is not blank ends at the first one, if all before it are text. -/
theorem titleIn_true_iff {r : List Char} (hr : r ≠ []) :
    titleIn true (ls.map decode?) = some r ↔ ∃ j t, ShownAt ls j t ∧ r = trim t := by
  induction ls with
  | nil =>
    constructor
    · intro h
      exact absurd (Option.some.inj h).symm hr
    · rintro ⟨j, t, h, -⟩
      cases h.title
  | cons l ls ih =>
    rw [List.map_cons]
    cases hl : decode? l with
    | none =>
      constructor
      · intro h
        cases h
      · rintro ⟨j, t, h, -⟩
        -- the first line is the title or a blank one, and both are text
        have hno := decode?_eq_none_iff.mp hl
        cases j with
        | zero => exact absurd (Option.some.inj h.title) (hno t)
        | succ j =>
          obtain ⟨s, hs, -⟩ := h.blank 0 (Nat.succ_pos j)
          exact absurd (Option.some.inj hs) (hno s)
    | some s =>
      rw [Text.Utf8.decode?_eq_some_iff] at hl
      subst hl
      rw [titleIn]
      by_cases hblank : trim s = []
      · rw [if_pos hblank, ih]
        constructor
        · rintro ⟨j, t, h, hrt⟩
          exact ⟨j + 1, t, shownAt_cons.mpr (.inr ⟨j, rfl, hblank, h⟩), hrt⟩
        · rintro ⟨j, t, h, hrt⟩
          rcases shownAt_cons.mp h with ⟨-, -, hshown⟩ | ⟨j', -, -, h⟩
          · exact absurd hblank hshown
          · exact ⟨j', t, h, hrt⟩
      · rw [if_neg hblank]
        constructor
        · intro h
          exact ⟨0, s, shownAt_cons.mpr (.inl ⟨rfl, rfl, hblank⟩), (Option.some.inj h).symm⟩
        · rintro ⟨j, t, h, rfl⟩
          rcases shownAt_cons.mp h with ⟨-, rfl, -⟩ | ⟨j', -, hblank', -⟩
          · rfl
          · exact absurd hblank' hblank

/-- The search for the marker ends at the first one, and the other search goes on from there. -/
theorem titleIn_false_iff {r : List Char} (hr : r ≠ []) :
    titleIn false (ls.map decode?) = some r ↔ ∃ i j t, TitleAt ls i j t ∧ r = trim t := by
  -- Induction over the lines, before the marker. Past the marker the lemma above takes over.
  induction ls with
  | nil =>
    constructor
    · intro h
      exact absurd (Option.some.inj h).symm hr
    · rintro ⟨i, j, t, h, -⟩
      cases h.title
  | cons l ls ih =>
    rw [List.map_cons]
    cases hl : decode? l with
    | none =>
      constructor
      · intro h
        cases h
      · rintro ⟨i, j, t, h, -⟩
        obtain ⟨s, hs⟩ := h.readable 0 (Nat.zero_le j)
        exact absurd (Option.some.inj hs) (decode?_eq_none_iff.mp hl s)
    | some s =>
      rw [Text.Utf8.decode?_eq_some_iff] at hl
      subst hl
      rw [titleIn]
      by_cases hmarker : s.head? = some '='
      · rw [beq_iff_eq.mpr hmarker, titleIn_true_iff hr]
        constructor
        · rintro ⟨j, t, h, hrt⟩
          exact ⟨0, j + 1, t, titleAt_cons.mpr (.inl ⟨hmarker, rfl, j, rfl, h⟩), hrt⟩
        · rintro ⟨i, j, t, h, hrt⟩
          rcases titleAt_cons.mp h with ⟨-, -, j', -, h⟩ | ⟨hother, -⟩
          · exact ⟨j', t, h, hrt⟩
          · exact absurd hmarker hother
      · rw [beq_eq_false_iff_ne.mpr hmarker, ih]
        constructor
        · rintro ⟨i, j, t, h, hrt⟩
          exact ⟨i + 1, j + 1, t, titleAt_cons.mpr (.inr ⟨hmarker, i, j, rfl, rfl, h⟩), hrt⟩
        · rintro ⟨i, j, t, h, hrt⟩
          rcases titleAt_cons.mp h with ⟨hmarker', -⟩ | ⟨-, i', j', -, -, h⟩
          · exact absurd hmarker' hmarker
          · exact ⟨i', j', t, h, hrt⟩

/-- A search that finds no title and no fault at a line has its result behind it. -/
theorem exists_titleIn_tail {after : Bool} {lines : List (Option (List Char))}
    {r : Option (List Char)} (h : titleIn after (some s :: lines) = r)
    (hr : ∀ title, r = some title → title = []) : ∃ later, titleIn later lines = r := by
  cases after with
  | false => exact ⟨_, h⟩
  | true =>
    rw [titleIn] at h
    by_cases hblank : trim s = []
    · rw [if_pos hblank] at h
      exact ⟨true, h⟩
    · rw [if_neg hblank] at h
      exact absurd (hr _ h.symm) hblank

/-- Reading fails at a line that is no text only. -/
theorem exists_of_titleIn_eq_none {after : Bool} (h : titleIn after (ls.map decode?) = none) :
    ∃ l ∈ ls, ∀ s, l ≠ encode s := by
  induction ls generalizing after with
  | nil => cases after <;> cases h
  | cons l ls ih =>
    cases hl : decode? l with
    | none => exact ⟨l, List.mem_cons_self, decode?_eq_none_iff.mp hl⟩
    | some s =>
      rw [List.map_cons, hl] at h
      obtain ⟨later, hlater⟩ := exists_titleIn_tail h nofun
      obtain ⟨l', hl', hno⟩ := ih hlater
      exact ⟨l', List.mem_cons_of_mem l hl', hno⟩

/-- Where no title is found, every line was read. -/
theorem readable_of_titleIn_eq_nil {after : Bool} (h : titleIn after (ls.map decode?) = some []) :
    ∀ l ∈ ls, ∃ s, l = encode s := by
  induction ls generalizing after with
  | nil => exact fun l hl => absurd hl List.not_mem_nil
  | cons l ls ih =>
    cases hl : decode? l with
    | none =>
      rw [List.map_cons, hl] at h
      cases after <;> cases h
    | some s =>
      rw [List.map_cons, hl] at h
      obtain ⟨later, hlater⟩ :=
        exists_titleIn_tail h fun title htitle => (Option.some.inj htitle).symm
      intro l' hl'
      rcases List.mem_cons.mp hl' with rfl | hl'
      · exact ⟨s, Text.Utf8.decode?_eq_some_iff.mp hl⟩
      · exact ih hlater l' hl'

/-! ## 3. Titles

From lines to the bytes of a document, and from there to what a changelog gives. -/

/-- A document that cannot be read as far as its title has an empty one. -/
theorem titleOf_eq (content : Bytes) :
    titleOf content = (extracted? content).elim "" String.ofList := by
  rw [titleOf, extracted?]
  cases titleIn false ((Text.lines 0x0A 0x0D content).map decode?) <;> rfl

/-- The title that a new changelog gives is that of the document it finds. -/
theorem title_fresh {d : Disk} {directory linksFile p : Path} {rule : String} {content : Bytes}
    (hlegacy : legacy? (nameOf rule) = none)
    (hp : (Changelog.fresh directory linksFile).documentOn? d (nameOf rule) = some p)
    (hread : d.read p = .ok content) :
    ((Changelog.fresh directory linksFile).title d rule).1 =
      (extracted? content).elim "" String.ofList := by
  have htitle : readTitle d p = titleOf content := by
    rw [readTitle, hread]
  rw [Changelog.title_fst hlegacy, hp, ← titleOf_eq, ← htitle]
  rfl

/-- **The line after the marker.** A document is read as far as its title: the first line that is
not blank after the first line that begins with an equals sign, if all lines up to it are text. A
line that is no text before any such title is the end of it, and without such a line and without
such a title the title is empty. A changelog gives the same title, or an empty one for a document
that could not be read so far. -/
theorem extracted_line_after_marker (content : Bytes) :
    ∃ ls, Text.HasLines 0x0A 0x0D content ls ∧
    (∀ i j t, TitleAt ls i j t → extracted? content = some (trim t)) ∧
    (∀ k l, ls[k]? = some l → (∀ s, l ≠ encode s) → (∀ i j t, TitleAt ls i j t → ¬ j < k) →
      extracted? content = none) ∧
    ((∀ l ∈ ls, ∃ s, l = encode s) → (∀ i j t, ¬ TitleAt ls i j t) →
      extracted? content = some []) ∧
    ∀ (d : Disk) (directory linksFile p : Path) (rule : String), legacy? (nameOf rule) = none →
      (Changelog.fresh directory linksFile).documentOn? d (nameOf rule) = some p →
      d.read p = .ok content →
      ((Changelog.fresh directory linksFile).title d rule).1 =
        (extracted? content).elim "" String.ofList := by
  refine ⟨Text.lines 0x0A 0x0D content, Text.hasLines_lines (by decide) content, ?_, ?_, ?_,
    fun d directory linksFile p rule => title_fresh⟩
  · intro i j t h
    exact (titleIn_false_iff h.shown).mpr ⟨i, j, t, h, rfl⟩
  · intro k l hl hno hbefore
    -- A title would make every line up to it readable, and an empty answer makes all of them so.
    cases hfound : extracted? content with
    | none => rfl
    | some r =>
      exfalso
      have hmem : l ∈ Text.lines 0x0A 0x0D content := List.mem_of_getElem? hl
      by_cases hr : r = []
      · subst hr
        obtain ⟨s, hs⟩ := readable_of_titleIn_eq_nil hfound l hmem
        exact hno s hs
      · obtain ⟨i, j, t, h, -⟩ := (titleIn_false_iff hr).mp hfound
        obtain ⟨s, hs⟩ := h.readable k (Nat.le_of_not_lt (hbefore i j t h))
        exact hno s (Option.some.inj (hl.symm.trans hs))
  · intro hall hnone
    cases hfound : extracted? content with
    | none =>
      obtain ⟨l, hl, hno⟩ := exists_of_titleIn_eq_none hfound
      obtain ⟨s, hs⟩ := hall l hl
      exact absurd hs (hno s)
    | some r =>
      by_cases hr : r = []
      · rw [hr]
      · obtain ⟨i, j, t, h, -⟩ := (titleIn_false_iff hr).mp hfound
        exact absurd h (hnone i j t)

/-- Three documents. Before the marker of the first there is an indented row of equals signs, after
it a heading on its own line, a blank line and one more row of equals signs, which is the title; the
bytes behind it are no text. In the second such bytes come before the title, and the third ends
before one. -/
theorem extracted_line_after_marker_twice :
    let content : Bytes := encode "one\r\n ==\n== Heading\n \t\r\n ==== \n".toList ++ [0xFF, 0x0A]
    let broken : Bytes := encode "==\n".toList ++ [0xFF, 0x0A] ++ encode "Title\n".toList
    let ended : Bytes := encode "==\r\n \n".toList
    let d : Disk := ⟨.folder [("docs", .folder [("A.rst", .file content)])], []⟩
    let log := Changelog.fresh ⟨"/docs"⟩ ⟨"/links"⟩
    (∃ ls, Text.HasLines 0x0A 0x0D content ls ∧ TitleAt ls 2 4 " ==== ".toList) ∧
    extracted? content = some "====".toList ∧
    (legacy? (nameOf "rules/A.rst") = none ∧
      log.documentOn? d (nameOf "rules/A.rst") = some ⟨"/docs/A.rst"⟩ ∧
      d.read ⟨"/docs/A.rst"⟩ = .ok content ∧ (log.title d "rules/A.rst").1 = "====") ∧
    extracted? broken = none ∧ extracted? ended = some [] := by
  intro content broken ended d log
  obtain ⟨ls, hls, htitle, -, -, hlog⟩ := extracted_line_after_marker content
  obtain ⟨ls', hls', -, hbroken, -, -⟩ := extracted_line_after_marker broken
  obtain ⟨ls'', hls'', -, -, hended, -⟩ := extracted_line_after_marker ended
  have hat : TitleAt ls 2 4 " ==== ".toList := by
    have hlines : ls = [encode "one".toList, encode " ==".toList, encode "== Heading".toList,
        encode " \t".toList, encode " ==== ".toList, [0xFF]] := by
      rw [(Text.hasLines_iff (by decide)).mp hls]
      decide +kernel
    rw [hlines]
    -- past two lines to the marker, past a blank line to the title
    refine titleAt_cons.mpr (.inr ⟨by decide, 1, 3, rfl, rfl, ?_⟩)
    refine titleAt_cons.mpr (.inr ⟨by decide, 0, 2, rfl, rfl, ?_⟩)
    refine titleAt_cons.mpr (.inl ⟨by decide, rfl, 1, rfl, ?_⟩)
    refine shownAt_cons.mpr (.inr ⟨0, rfl, by decide +kernel, ?_⟩)
    exact shownAt_cons.mpr (.inl ⟨rfl, rfl, by decide +kernel⟩)
  have hfound : extracted? content = some "====".toList := by
    rw [htitle 2 4 _ hat]
    decide +kernel
  have hlegacy : legacy? (nameOf "rules/A.rst") = none := by decide +kernel
  have hp : log.documentOn? d (nameOf "rules/A.rst") = some ⟨"/docs/A.rst"⟩ := by decide +kernel
  have hread : d.read ⟨"/docs/A.rst"⟩ = .ok content := by decide +kernel
  refine ⟨⟨ls, hls, hat⟩, hfound, ⟨hlegacy, hp, hread, ?_⟩, ?_, ?_⟩
  · rw [hlog d ⟨"/docs"⟩ ⟨"/links"⟩ ⟨"/docs/A.rst"⟩ "rules/A.rst" hlegacy hp hread, hfound]
    decide +kernel
  · have hlines : ls' = [encode "==".toList, [0xFF], encode "Title".toList] := by
      rw [(Text.hasLines_iff (by decide)).mp hls']
      decide +kernel
    apply hbroken 1 [0xFF]
    · rw [hlines]
      rfl
    · exact decode?_eq_none_iff.mp (by decide)
    · intro i j t h hj
      have hij := h.after
      omega
  · have hlines : ls'' = [encode "==".toList, encode " ".toList] := by
      rw [(Text.hasLines_iff (by decide)).mp hls'']
      decide +kernel
    rw [hlines] at hended
    apply hended
    · intro l hl
      simp only [List.mem_cons, List.not_mem_nil, or_false] at hl
      rcases hl with rfl | rfl
      · exact ⟨_, rfl⟩
      · exact ⟨_, rfl⟩
    · intro i j t h
      rcases titleAt_cons.mp h with ⟨-, -, j', -, h⟩ | ⟨hother, -⟩
      · rcases shownAt_cons.mp h with ⟨-, -, hshown⟩ | ⟨k, -, -, h⟩
        · exact absurd (by decide +kernel) hshown
        · cases h.title
      · exact hother rfl

end UpgradeScan.Document
