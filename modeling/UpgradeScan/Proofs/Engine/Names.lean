/-
`Proofs/Engine/Names.lean` -- names in a document are read as names in a comma list are.

Two readers meet the names of categories and confidences: that of comma lists, which drops what it
does not know, and that of documents, which refuses the whole document for one name that it does not
know. They are written separately, and a name that one of them knows and the other does not would be
counted in a report and not be found by a filter.

To compare them, a document is divided first, into an outline in which the names are still texts
(`Proofs/Engine/Outline.lean`). What becomes of it then is decided by each of these texts as it
would be as a comma list (`RawReport.Gives`): it is a name when it has no comma and stands for one
thing as a list, and the document is refused when one of its texts is none (`RawFinding.Misnamed`).
The comma is the one difference. In a list it separates names; in a document it makes a text that is
no name.

The proof has two halves. What a comma list stands for is known (`Proofs/NameList.lean`). And
reading a document is reading its outline and then the names: this is `Through`, which says of a
kind of text that it stands for what some relation makes of what it stands for as another kind. It
is carried from names to lists, findings, files and the document, along the same spellings.
-/
import UpgradeScan.Proofs.Engine.Outline
import UpgradeScan.Proofs.Engine.Reading
import UpgradeScan.Proofs.Json.Tree
import UpgradeScan.Proofs.NameList

set_option autoImplicit false

namespace UpgradeScan

/-! ## 1. Lists of related things

Two facts about lists whose items are related one by one. -/

section Lists

variable {α β γ : Type} {R : α → β → Prop} {xs : List α} {zs : List γ}

/-- A related list exists when each item has a related one. -/
theorem exists_forall₂_iff : (∃ ys, List.Forall₂ R xs ys) ↔ ∀ x ∈ xs, ∃ y, R x y := by
  induction xs with
  | nil => exact iff_of_true ⟨[], .nil⟩ nofun
  | cons x xs ih =>
    rw [List.forall_mem_cons, ← ih]
    constructor
    · rintro ⟨ys, hys⟩
      cases hys with
      | cons hy hys => exact ⟨⟨_, hy⟩, _, hys⟩
    · rintro ⟨⟨y, hy⟩, ys, hys⟩
      exact ⟨y :: ys, .cons hy hys⟩

/-- Relating through a middle and a function is relating to the middle and applying the function. -/
theorem forall₂_exists_map_iff {f : β → γ} :
    List.Forall₂ (fun x z => ∃ y, R x y ∧ z = f y) xs zs ↔
      ∃ ys, List.Forall₂ R xs ys ∧ zs = ys.map f := by
  constructor
  · intro h
    induction h with
    | nil => exact ⟨[], .nil, rfl⟩
    | cons hx _ ih =>
      obtain ⟨y, hy, rfl⟩ := hx
      obtain ⟨ys, hys, rfl⟩ := ih
      exact ⟨y :: ys, .cons hy hys, rfl⟩
  · rintro ⟨ys, hys, rfl⟩
    rw [List.forall₂_map_right_iff]
    exact hys.imp fun _ y hy => ⟨y, hy, rfl⟩

end Lists

namespace EngineText

open UpgradeScan.JsonText

/-! ## 2. Texts read in two steps

A text of one kind is a text of another kind, and what it stands for is found from that. Every way
of putting texts together keeps this. -/

section Through

variable {α β : Type} {S : Bytes → α → Prop} {S' : Bytes → β → Prop} {R : β → α → Prop}

/-- What a text of `S` stands for is what `R` makes of what it stands for as a text of `S'`. -/
def Through (S : Bytes → α → Prop) (S' : Bytes → β → Prop) (R : β → α → Prop) : Prop :=
  ∀ t a, S t a ↔ ∃ x, S' t x ∧ R x a

/-- One value is read in two steps. -/
theorem Through.one (T : Through S S' R) (ts : List Bytes) (a : α) :
    One S ts a ↔ ∃ x, One S' ts x ∧ R x a := by
  constructor
  · rintro ⟨t, rfl, ht⟩
    obtain ⟨x, hx, hR⟩ := (T t a).mp ht
    exact ⟨x, ⟨t, rfl, hx⟩, hR⟩
  · rintro ⟨x, ⟨t, rfl, hx⟩, hR⟩
    exact ⟨t, rfl, (T t a).mpr ⟨x, hx, hR⟩⟩

/-- Parts are read in two steps each. -/
theorem Through.parts (T : Through S S' R) {close : UInt8} {first : Bool} {u : Bytes}
    {as : List α} : Parts close S first u as ↔
      ∃ xs, Parts close S' first u xs ∧ List.Forall₂ R xs as := by
  induction as generalizing first u with
  | nil =>
    rw [parts_nil_iff]
    constructor
    · exact fun h => ⟨[], parts_nil_iff.mpr h, .nil⟩
    · rintro ⟨xs, hxs, hR⟩
      cases hR
      exact parts_nil_iff.mp hxs
  | cons a as ih =>
    rw [parts_cons_iff]
    constructor
    · rintro ⟨w, v, s, hw, hv, hs, rfl⟩
      obtain ⟨x, hx, hR⟩ := (T v a).mp hv
      obtain ⟨xs, hxs, hall⟩ := ih.mp hs
      exact ⟨x :: xs, parts_cons_iff.mpr ⟨w, v, s, hw, hx, hxs, rfl⟩, .cons hR hall⟩
    · rintro ⟨xs, hxs, hall⟩
      cases hall with
      | cons hR hall =>
        obtain ⟨w, v, s, hw, hx, hs, rfl⟩ := parts_cons_iff.mp hxs
        exact ⟨w, v, s, hw, (T v a).mpr ⟨_, hx, hR⟩, ih.mpr ⟨_, hs, hall⟩, rfl⟩

/-- So is a list. -/
theorem Through.list (T : Through S S' R) :
    Through (ListText S) (ListText S') (List.Forall₂ R) := by
  intro t as
  constructor
  · rintro ⟨u, rfl, hu⟩
    obtain ⟨xs, hxs, hall⟩ := T.parts.mp hu
    exact ⟨xs, ⟨u, rfl, hxs⟩, hall⟩
  · rintro ⟨xs, ⟨u, rfl, hxs⟩, hall⟩
    exact ⟨u, rfl, T.parts.mpr ⟨xs, hxs, hall⟩⟩

/-- So is a list that may be missing: the empty list comes of the empty list. -/
theorem Through.atMostOne_list (T : Through S S' R) (ts : List Bytes) (as : List α) :
    AtMostOne (ListText S) [] ts as ↔
      ∃ xs, AtMostOne (ListText S') [] ts xs ∧ List.Forall₂ R xs as := by
  constructor
  · rintro (⟨rfl, rfl⟩ | h)
    · exact ⟨[], .inl ⟨rfl, rfl⟩, .nil⟩
    · obtain ⟨xs, hxs, hall⟩ := (T.list.one ts as).mp h
      exact ⟨xs, .inr hxs, hall⟩
  · rintro ⟨xs, ⟨rfl, rfl⟩ | hxs, hall⟩
    · cases hall
      exact .inl ⟨rfl, rfl⟩
    · exact .inr ((T.list.one ts as).mpr ⟨xs, hxs, hall⟩)

/-- So is an entry with a path and a list; the path is read at once. -/
theorem Through.holder (T : Through S S' R) {name : String} {t : Bytes} {path : Path}
    {as : List α} : HolderText name S t path as ↔
      ∃ xs, HolderText name S' t path xs ∧ List.Forall₂ R xs as := by
  constructor
  · rintro (⟨h, hpath, hlist, hother⟩ | ⟨h, hpath, hlist⟩)
    · obtain ⟨xs, hxs, hall⟩ := (T.atMostOne_list _ _).mp hlist
      exact ⟨xs, .object h hpath hxs hother, hall⟩
    · obtain ⟨xs, hxs, hall⟩ := (T.atMostOne_list _ _).mp hlist
      exact ⟨xs, .array h hpath hxs, hall⟩
  · rintro ⟨xs, (⟨h, hpath, hlist, hother⟩ | ⟨h, hpath, hlist⟩), hall⟩
    · exact .object h hpath ((T.atMostOne_list _ _).mpr ⟨xs, hlist, hall⟩) hother
    · exact .array h hpath ((T.atMostOne_list _ _).mpr ⟨xs, hlist, hall⟩)

end Through

/-! ## 3. What an outline gives

What becomes of an outline is a relation, and it is stated by comma lists. The first lemmas turn it
into one that is stated by single names, which is what the reader goes by. -/

/-- The finding, with its source left open if it is, that comes of a raw one. -/
structure RawFinding.Drafts (x : RawFinding) (d : Draft) : Prop where
  category : Category.ofName? x.category = some d.category
  confidence : Confidence.ofName? x.confidence = some d.confidence
  rule : d.rule = x.rule
  source : d.source = x.source
  line : d.line = x.line
  message : d.message = x.message

/-- The finding that comes of a raw one in a file. Each name has no comma and stands, as a comma
list, for what it is read as. -/
structure RawFinding.Gives (file : Path) (x : RawFinding) (f : Finding) : Prop where
  category : ',' ∉ x.category.toList ∧ Category.ofList x.category = [f.category]
  confidence : ',' ∉ x.confidence.toList ∧ Confidence.ofList x.confidence = [f.confidence]
  rule : f.rule = x.rule
  source : f.source = x.source.getD file
  line : f.line = x.line
  message : f.message = x.message

/-- The file that comes of a raw one. -/
structure RawFile.Gives (x : RawFile) (f : FileReport) : Prop where
  path : f.path = x.path
  findings : List.Forall₂ (RawFinding.Gives x.path) x.findings f.findings

/-- The report that comes of an outline. -/
structure RawReport.Gives (x : RawReport) (r : Report) : Prop where
  path : r.path = x.path
  files : List.Forall₂ RawFile.Gives x.files r.files

/-- One of the names has a comma, or stands for nothing as a comma list. -/
def RawFinding.Misnamed (x : RawFinding) : Prop :=
  (',' ∈ x.category.toList ∨ Category.ofList x.category = []) ∨
    (',' ∈ x.confidence.toList ∨ Confidence.ofList x.confidence = [])

/-- The names of a finding are read first, and its source is settled then. -/
theorem gives_iff_drafts {file : Path} {x : RawFinding} {f : Finding} :
    x.Gives file f ↔ ∃ d, x.Drafts d ∧ f = d.settle file := by
  constructor
  · rintro ⟨hc, hi, hr, hs, hl, hm⟩
    refine ⟨⟨f.category, f.confidence, x.rule, x.source, x.line, x.message⟩, ?_, ?_⟩
    · exact ⟨Category.names.ofName?_iff.mpr hc, Confidence.names.ofName?_iff.mpr hi,
        rfl, rfl, rfl, rfl⟩
    · rw [Draft.settle, ← hr, ← hs, ← hl, ← hm]
  · rintro ⟨d, ⟨hc, hi, hr, hs, hl, hm⟩, rfl⟩
    exact ⟨Category.names.ofName?_iff.mp hc, Confidence.names.ofName?_iff.mp hi, hr,
      congrArg (Option.getD · file) hs, hl, hm⟩

/-- The same for all findings of a file. -/
theorem all_give_iff {file : Path} {xs : List RawFinding} {fs : List Finding} :
    List.Forall₂ (RawFinding.Gives file) xs fs ↔
      ∃ drafts, List.Forall₂ RawFinding.Drafts xs drafts ∧ fs = drafts.map (Draft.settle file) := by
  have hgives : RawFinding.Gives file = fun x f => ∃ d, x.Drafts d ∧ f = Draft.settle file d :=
    funext₂ fun x f => propext gives_iff_drafts
  rw [hgives, forall₂_exists_map_iff]

/-- A raw finding becomes one exactly when it has two names. -/
theorem exists_gives_iff {file : Path} {x : RawFinding} :
    (∃ f, x.Gives file f) ↔ ¬ x.Misnamed := by
  have hmisnamed : x.Misnamed ↔
      Category.ofName? x.category = none ∨ Confidence.ofName? x.confidence = none :=
    or_congr Category.names.ofName?_eq_none_iff.symm Confidence.names.ofName?_eq_none_iff.symm
  rw [hmisnamed, not_or]
  constructor
  · rintro ⟨f, hf⟩
    exact ⟨Option.ne_none_iff_exists'.mpr ⟨_, Category.names.ofName?_iff.mpr hf.category⟩,
      Option.ne_none_iff_exists'.mpr ⟨_, Confidence.names.ofName?_iff.mpr hf.confidence⟩⟩
  · rintro ⟨hc, hi⟩
    obtain ⟨c, hc⟩ := Option.ne_none_iff_exists'.mp hc
    obtain ⟨i, hi⟩ := Option.ne_none_iff_exists'.mp hi
    exact ⟨⟨c, i, x.rule, x.source.getD file, x.line, x.message⟩,
      Category.names.ofName?_iff.mp hc, Confidence.names.ofName?_iff.mp hi, rfl, rfl, rfl,
      rfl⟩

/-! ## 4. Documents by their outline

Each kind of text, from the inside out, ending with the document. -/

/-- A place that holds a name holds a text, which is looked up. -/
theorem through_name {α : Type} (N : Names α) : Through
    (fun t c => ∃ s, Quoted t s ∧ Text.sameLetters (N.name c) (Text.trimmed s) = true)
    Quoted fun s c => N.ofName? s = some c := by
  intro t c
  simp only [N.ofName?_eq_some_iff]

theorem through_category : Through CategoryText Quoted fun s c => Category.ofName? s = some c :=
  through_name Category.names

theorem through_confidence :
    Through ConfidenceText Quoted fun s i => Confidence.ofName? s = some i :=
  through_name Confidence.names

/-- A finding is a raw finding first. Its other four members are the same in both. -/
theorem through_finding : Through DraftText RawFindingText RawFinding.Drafts := by
  intro t d
  constructor
  · intro h
    cases h with
    | object h hc hi hr hs hl hm hother =>
      obtain ⟨c, hc, hcategory⟩ := (through_category.one _ _).mp hc
      obtain ⟨i, hi, hconfidence⟩ := (through_confidence.one _ _).mp hi
      exact ⟨⟨c, i, d.rule, d.source, d.line, d.message⟩, .object h hc hi hr hs hl hm hother,
        hcategory, hconfidence, rfl, rfl, rfl, rfl⟩
    | array h hc hi hr hs hl hm =>
      obtain ⟨c, hc, hcategory⟩ := (through_category _ _).mp hc
      obtain ⟨i, hi, hconfidence⟩ := (through_confidence _ _).mp hi
      exact ⟨⟨c, i, d.rule, d.source, d.line, d.message⟩, .array h hc hi hr hs hl hm,
        hcategory, hconfidence, rfl, rfl, rfl, rfl⟩
  · -- Only the two names differ between the forms; the other four fields are the same fields.
    obtain ⟨c, i, r, s, l, m⟩ := d
    rintro ⟨x, hx, hcategory, hconfidence, hrule, hsource, hline, hmessage⟩
    dsimp only at hcategory hconfidence hrule hsource hline hmessage
    subst hrule hsource hline hmessage
    cases hx with
    | object h hc hi hr hs hl hm hother =>
      exact .object h ((through_category.one _ _).mpr ⟨_, hc, hcategory⟩)
        ((through_confidence.one _ _).mpr ⟨_, hi, hconfidence⟩) hr hs hl hm hother
    | array h hc hi hr hs hl hm =>
      exact .array h ((through_category _ _).mpr ⟨_, hc, hcategory⟩)
        ((through_confidence _ _).mpr ⟨_, hi, hconfidence⟩) hr hs hl hm

/-- A file is an entry with findings, which are settled by its path. -/
theorem fileText_iff {t : Bytes} {f : FileReport} : FileText t f ↔
    ∃ drafts, HolderText "matches" DraftText t f.path drafts ∧
      f.findings = drafts.map (Draft.settle f.path) := by
  constructor
  · intro h
    cases h with
    | object h hpath hfindings hother => exact ⟨_, .object h hpath hfindings hother, rfl⟩
    | array h hpath hfindings => exact ⟨_, .array h hpath hfindings, rfl⟩
  · obtain ⟨path, findings⟩ := f
    rintro ⟨drafts, h, hfindings⟩
    dsimp only at h hfindings
    subst hfindings
    cases h with
    | object h hpath hlist hother => exact .object h hpath hlist hother
    | array h hpath hlist => exact .array h hpath hlist

/-- A file is a raw file first. -/
theorem through_file : Through FileText RawFileText RawFile.Gives := by
  intro t f
  rw [fileText_iff]
  constructor
  · rintro ⟨drafts, h, hfindings⟩
    obtain ⟨xs, hxs, hall⟩ := through_finding.holder.mp h
    exact ⟨⟨f.path, xs⟩, hxs, rfl, all_give_iff.mpr ⟨drafts, hall, hfindings⟩⟩
  · rintro ⟨⟨path, xs⟩, hxs, rfl, hall⟩
    obtain ⟨drafts, hdrafts, hfindings⟩ := all_give_iff.mp hall
    exact ⟨drafts, through_finding.holder.mpr ⟨xs, hxs, hdrafts⟩, hfindings⟩

/-- A directory is an entry with files. -/
theorem directoryText_iff {t : Bytes} {r : Report} :
    DirectoryText t r ↔ HolderText "files" FileText t r.path r.files := by
  constructor
  · rintro (⟨h, hpath, hfiles, hother⟩ | ⟨h, hpath, hfiles⟩)
    · exact .object h hpath hfiles hother
    · exact .array h hpath hfiles
  · rintro (⟨h, hpath, hfiles, hother⟩ | ⟨h, hpath, hfiles⟩)
    · exact .object h hpath hfiles hother
    · exact .array h hpath hfiles

/-- A directory is a raw directory first. -/
theorem through_report : Through DirectoryText RawReportText RawReport.Gives := by
  intro t r
  rw [directoryText_iff, through_file.holder]
  constructor
  · rintro ⟨xs, hxs, hall⟩
    exact ⟨⟨r.path, xs⟩, hxs, rfl, hall⟩
  · rintro ⟨⟨path, xs⟩, hxs, rfl, hall⟩
    exact ⟨xs, hxs, hall⟩

/-- A document spells the report that comes of its outline. -/
theorem spelling_iff {b : Bytes} {r : Report} : Spelling b r ↔ ∃ x, Outline b x ∧ x.Gives r := by
  constructor
  · rintro ⟨w, t, w', hw, hw', ht, rfl⟩
    obtain ⟨x, hx, hr⟩ := (through_report t r).mp ht
    exact ⟨x, ⟨w, t, w', hw, hw', hx, rfl⟩, hr⟩
  · rintro ⟨x, ⟨w, t, w', hw, hw', hx, rfl⟩, hr⟩
    exact ⟨w, t, w', hw, hw', (through_report t r).mpr ⟨x, hx, hr⟩, rfl⟩

/-- A document of which the outline is known is read as the report that comes of it. -/
theorem ofBytes_eq_ok_iff_gives {b : Bytes} {x : RawReport} (h : Outline b x) (r : Report) :
    Report.ofBytes b = .ok r ↔ x.Gives r := by
  constructor
  · intro hr
    obtain ⟨x', hx', hgives⟩ := spelling_iff.mp (Report.ofBytes_sound hr)
    rwa [outline_unique h hx']
  · exact fun hr => Report.ofBytes_complete (spelling_iff.mpr ⟨x, h, hr⟩)

/-- A report comes of an outline exactly when none of its findings is misnamed. -/
theorem exists_report_iff {x : RawReport} :
    (∃ r, x.Gives r) ↔ ∀ file ∈ x.files, ∀ f ∈ file.findings, ¬ f.Misnamed := by
  have hfile : ∀ file : RawFile,
      (∃ f, file.Gives f) ↔ ∀ f ∈ file.findings, ¬ f.Misnamed := by
    intro file
    simp only [← @exists_gives_iff file.path, ← exists_forall₂_iff]
    constructor
    · rintro ⟨f, hf⟩
      exact ⟨f.findings, hf.findings⟩
    · rintro ⟨fs, hfs⟩
      exact ⟨⟨file.path, fs⟩, rfl, hfs⟩
  simp only [← hfile, ← exists_forall₂_iff]
  constructor
  · rintro ⟨r, hr⟩
    exact ⟨r.files, hr.files⟩
  · rintro ⟨fs, hfs⟩
    exact ⟨⟨x.path, fs⟩, rfl, hfs⟩

/-- It is refused when one of its names has a comma or stands for nothing, and only then. -/
theorem exists_error_iff {b : Bytes} {x : RawReport} (h : Outline b x) :
    (∃ e, Report.ofBytes b = .error e) ↔
      ∃ file ∈ x.files, ∃ f ∈ file.findings, f.Misnamed := by
  have hok : (∃ r, Report.ofBytes b = .ok r) ↔
      ∀ file ∈ x.files, ∀ f ∈ file.findings, ¬ f.Misnamed :=
    (exists_congr (ofBytes_eq_ok_iff_gives h)).trans exists_report_iff
  have herror : (∃ e, Report.ofBytes b = .error e) ↔ ¬ ∃ r, Report.ofBytes b = .ok r := by
    cases Report.ofBytes b <;> simp
  rw [herror, hok]
  push Not
  rfl

/-! ## 5. The two readers

The result, and a document with one finding on which both readers can be seen. -/

/-- **Lists and documents name alike.** A comma list stands for what its tokens name, so lists are
joined as sets are, and order, repetition and what names nothing do not matter. Whatever the names
in a document are, it is read as the report in which each of them is what it stands for as a comma
list, and it is refused when one of them stands for nothing or has a comma. The rules are the same
for categories and for confidences. -/
theorem lists_and_documents_name_alike :
    ListsNames Category.name Category.ofList ∧ ListsNames Confidence.name Confidence.ofList ∧
    ∀ b x, Outline b x →
      (∀ r, Report.ofBytes b = .ok r ↔ x.Gives r) ∧
      ((∃ e, Report.ofBytes b = .error e) ↔
        ∃ file ∈ x.files, ∃ f ∈ file.findings, f.Misnamed) :=
  ⟨Category.names.listsNames, Confidence.names.listsNames,
    fun _ _ h => ⟨ofBytes_eq_ok_iff_gives h, exists_error_iff h⟩⟩

theorem line_one_fits : 1 < Nat.pow 2 64 := Nat.one_lt_two_pow (by omega)

/-- A finding whose category has this name. -/
def findingNamed (category : String) : Tree :=
  .ofMembers [("type", .ofString category), ("indicator", .ofString "weak"),
    ("ruleFile", .ofString "r"), ("line", .ofNat 1 line_one_fits)]

/-- A document with one finding. -/
def documentWith (finding : Tree) : Tree :=
  .ofMembers [("path", .ofString "/s"), ("files", .ofItems [.ofMembers [("path", .ofString "/a"),
    ("matches", .ofItems [finding])]])]

/-- A text in a document is written as a string. -/
theorem quoted_ofString (s : String) : Quoted (Tree.ofString s).text s := by
  rw [Tree.ofString, Tree.text]
  exact quoted_quote s

/-- The finding is what it was made of, whatever its category is called. -/
theorem rawFindingText_named (category : String) :
    RawFindingText (findingNamed category).text ⟨category, "weak", "r", none, 1, ""⟩ := by
  have hline : LineText (Tree.ofNat 1 line_one_fits).text 1 := by
    refine ⟨line_one_fits, ?_⟩
    rw [Tree.ofNat, Tree.text, encode_digits]
  refine .object (Tree.objectText_ofMembers _) ⟨_, rfl, quoted_ofString category⟩
    ⟨_, rfl, quoted_ofString "weak"⟩ ⟨_, rfl, quoted_ofString "r"⟩ (.inl ⟨rfl, rfl⟩)
    ⟨_, rfl, hline⟩ (.inl ⟨rfl, rfl⟩) ?_
  simp [findingNames]

/-- A list with one item. -/
theorem listText_one {α : Type} {S : Bytes → α → Prop} {v : Tree} {a : α} (h : S v.text a) :
    ListText S (Tree.ofItems [v]).text [a] := by
  have T : Through S Eq fun u a => S u a := by
    intro t a
    rw [exists_eq_left']
  exact (T.list _ _).mpr ⟨_, Tree.listText_ofItems [v], .cons h .nil⟩

/-- The document has the outline that it was made of. -/
theorem outline_documentWith (category : String) :
    Outline (documentWith (findingNamed category)).text
      ⟨⟨"/s"⟩, [⟨⟨"/a"⟩, [⟨category, "weak", "r", none, 1, ""⟩]⟩]⟩ := by
  have hfile : RawFileText (Tree.ofMembers [("path", .ofString "/a"),
      ("matches", .ofItems [findingNamed category])]).text
      ⟨⟨"/a"⟩, [⟨category, "weak", "r", none, 1, ""⟩]⟩ :=
    .object (Tree.objectText_ofMembers _) ⟨_, rfl, quoted_ofString "/a"⟩
      (.inr ⟨_, rfl, listText_one (rawFindingText_named category)⟩) (by simp)
  have hreport : RawReportText (documentWith (findingNamed category)).text
      ⟨⟨"/s"⟩, [⟨⟨"/a"⟩, [⟨category, "weak", "r", none, 1, ""⟩]⟩]⟩ :=
    .object (Tree.objectText_ofMembers _) ⟨_, rfl, quoted_ofString "/s"⟩
      (.inr ⟨_, rfl, listText_one hfile⟩) (by simp)
  exact ⟨[], _, [], blanks_nil, blanks_nil, hreport, by simp⟩

/-- A category may be written in capitals and small letters with blanks around it. A comma behind it
makes no difference to a list, but the document is refused. -/
theorem lists_and_documents_name_alike_blanks_and_comma :
    Report.ofBytes (documentWith (findingNamed "\tBreaking ")).text =
      .ok ⟨⟨"/s"⟩, [⟨⟨"/a"⟩, [⟨.breaking, .weak, "r", ⟨"/a"⟩, 1, ""⟩]⟩]⟩ ∧
    Category.ofList "\tBreaking ," = [.breaking] ∧
    ∃ e, Report.ofBytes (documentWith (findingNamed "\tBreaking ,")).text = .error e := by
  obtain ⟨-, -, hdocuments⟩ := lists_and_documents_name_alike
  obtain ⟨hread, -⟩ := hdocuments _ _ (outline_documentWith "\tBreaking ")
  obtain ⟨-, hrefused⟩ := hdocuments _ _ (outline_documentWith "\tBreaking ,")
  refine ⟨(hread _).mpr ⟨rfl, .cons ⟨rfl, .cons ?_ .nil⟩ .nil⟩, by decide +kernel, hrefused.mpr ?_⟩
  · exact ⟨by decide +kernel, by decide +kernel, rfl, rfl, rfl, rfl⟩
  · exact ⟨_, List.mem_cons_self, _, List.mem_cons_self, .inl (.inl (by decide +kernel))⟩

end EngineText

end UpgradeScan
