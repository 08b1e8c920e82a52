/-
`Proofs/Engine/Outline.lean` -- a document before its names are read.

To say how a reader treats the names in a document, one must be able to speak of the names, and in a
document that the reader refuses there is no report to take them from. The outline of a document is
what it says when the names of categories and confidences are left as they are written, whether they
name something or not. It takes the same spellings as a report does, and differs in nothing else.

A document has one outline at most (`outline_unique`). This is not obvious, and the reader cannot be
used to see it, since no reader gives outlines. It follows from the grammar: objects and lists can
be divided in one way only, and each value stands for one thing. The two properties together are
`Clear`, and it is carried from single values to lists, to findings and to entries. An entry can be
an object or an array, and its first byte tells which.

In an object the members that do not count have to be values, because otherwise it could be divided
in another way. That is why `Clear` asks for more than one meaning: each text has to be a value as
well.
-/
import UpgradeScan.Proofs.Engine.Places
import UpgradeScan.Proofs.Json.Members

set_option autoImplicit false

namespace UpgradeScan.EngineText

open UpgradeScan.JsonText

/-! ## 1. Outlines

Raw findings, files and directories have the members of real ones, with texts in the place of names.
Files and directories have the same shape, an entry with a path and a list (`HolderText`). -/

/-- A finding whose names may be any texts. Its source may be left open. -/
structure RawFinding where
  category : String
  confidence : String
  rule : String
  source : Option Path
  line : Nat
  message : String

/-- A file with such findings. -/
structure RawFile where
  path : Path
  findings : List RawFinding

/-- A directory with such files. -/
structure RawReport where
  path : Path
  files : List RawFile

/-- A finding as it is written down. -/
inductive RawFindingText : Bytes → RawFinding → Prop
  | object {t : Bytes} {ms : List (String × Bytes)} {x : RawFinding} (h : ObjectText Quoted t ms)
      (hcategory : One Quoted (valuesOf "type" ms) x.category)
      (hconfidence : One Quoted (valuesOf "indicator" ms) x.confidence)
      (hrule : One Quoted (valuesOf "ruleFile" ms) x.rule)
      (hsource : AtMostOne OptionalPathText none (valuesOf "sourceFile" ms) x.source)
      (hline : One LineText (valuesOf "line" ms) x.line)
      (hmessage : AtMostOne Quoted "" (valuesOf "message" ms) x.message)
      (hother : ∀ m ∈ ms, m.1 ∉ findingNames → Value m.2) : RawFindingText t x
  | array {t category confidence rule source line : Bytes} {rest : List Bytes} {x : RawFinding}
      (h : ListText Eq t (category :: confidence :: rule :: source :: line :: rest))
      (hcategory : Quoted category x.category)
      (hconfidence : Quoted confidence x.confidence)
      (hrule : Quoted rule x.rule)
      (hsource : OptionalPathText source x.source)
      (hline : LineText line x.line)
      (hmessage : AtMostOne Quoted "" rest x.message) : RawFindingText t x

/-- An entry with a path and with a list, which may be left out, under a name. -/
inductive HolderText {α : Type} (name : String) (S : Bytes → α → Prop) :
    Bytes → Path → List α → Prop
  | object {t : Bytes} {ms : List (String × Bytes)} {path : Path} {as : List α}
      (h : ObjectText Quoted t ms)
      (hpath : One PathText (valuesOf "path" ms) path)
      (hlist : AtMostOne (ListText S) [] (valuesOf name ms) as)
      (hother : ∀ m ∈ ms, m.1 ∉ ["path", name] → Value m.2) : HolderText name S t path as
  | array {t first : Bytes} {rest : List Bytes} {path : Path} {as : List α}
      (h : ListText Eq t (first :: rest))
      (hpath : PathText first path)
      (hlist : AtMostOne (ListText S) [] rest as) : HolderText name S t path as

/-- A file as it is written down. -/
def RawFileText (t : Bytes) (x : RawFile) : Prop :=
  HolderText "matches" RawFindingText t x.path x.findings

/-- A directory as it is written down. -/
def RawReportText (t : Bytes) (x : RawReport) : Prop :=
  HolderText "files" RawFileText t x.path x.files

/-- The document, with nothing but blanks around the directory, has this outline. -/
def Outline (b : Bytes) (x : RawReport) : Prop :=
  ∃ w t w', Blanks w ∧ Blanks w' ∧ RawReportText t x ∧ b = w ++ (t ++ w')

/-! ## 2. Clear texts

A text is clear when its extent and its meaning are given by its bytes. -/

/-- Every text is a value, and stands for one thing only. -/
structure Clear {α : Type} (S : Bytes → α → Prop) : Prop where
  value : ∀ {t a}, S t a → Value t
  functional : ∀ {t a a'}, S t a → S t a' → a = a'

/-- A string ends at its quote and stands for one text. -/
theorem clear_quoted : Clear Quoted where
  value h := .string (quotedForm_of_quoted h)
  functional := (reads_text .text).functional

/-- So does a path. -/
theorem clear_path : Clear PathText where
  value h := clear_quoted.value h
  functional := reads_path.functional

/-- No path is written as `null`. -/
theorem clear_optionalPath : Clear OptionalPathText where
  value h := by
    rcases h with ⟨rfl, -⟩ | ⟨p, hp, -⟩
    · exact .null
    · exact clear_path.value hp
  functional := reads_optionalPath.functional

/-- A line number has one spelling. -/
theorem clear_line : Clear LineText where
  value h := by
    obtain ⟨-, rfl⟩ := h
    rw [encode_digits]
    exact .number (numeralText_natural _)
  functional := reads_line.functional

section Clear

variable {α : Type} {S : Bytes → α → Prop}

/-- Clear texts that begin the same bytes, each before something that ends it, are the same. -/
theorem Clear.determined (C : Clear S) : Determined S where
  opens h := (C.value h).opens
  eq_of_append_eq h h' hr hr' heq := by
    obtain ⟨rfl, rfl⟩ := (C.value h).eq_of_append_eq (C.value h') hr hr' heq
    exact ⟨C.functional h h', rfl⟩

/-- The parts of a list are values. -/
theorem Clear.exists_values (C : Clear S) {close : UInt8} {first : Bool} {u : Bytes} {as : List α}
    (h : Parts close S first u as) : ∃ ts, Parts close Eq first u ts ∧ ∀ t ∈ ts, Value t := by
  induction h with
  | close hw => exact ⟨[], .close hw, nofun⟩
  | first hw hv h ih =>
    obtain ⟨ts, hts, hall⟩ := ih
    exact ⟨_ :: ts, .first hw rfl hts, List.forall_mem_cons.mpr ⟨C.value hv, hall⟩⟩
  | next hw hw' hv h ih =>
    obtain ⟨ts, hts, hall⟩ := ih
    exact ⟨_ :: ts, .next hw hw' rfl hts, List.forall_mem_cons.mpr ⟨C.value hv, hall⟩⟩

/-- A list of clear texts is clear. -/
theorem Clear.list (C : Clear S) : Clear (ListText S) where
  value h := by
    obtain ⟨u, rfl, hu⟩ := h
    obtain ⟨ts, hts, hall⟩ := C.exists_values hu
    exact .list ⟨u, rfl, hts⟩ hall
  functional := listText_unique C.determined

/-- One value has one meaning. -/
theorem Clear.one (C : Clear S) {ts : List Bytes} {a a' : α} (h : One S ts a)
    (h' : One S ts a') : a = a' := by
  obtain ⟨t, rfl, ht⟩ := h
  obtain ⟨t', heq, ht'⟩ := h'
  obtain rfl := (List.cons.inj heq).1
  exact C.functional ht ht'

/-- So has one that may be missing, since a missing one stands for the default. -/
theorem Clear.atMostOne (C : Clear S) {ts : List Bytes} {default a a' : α}
    (h : AtMostOne S default ts a) (h' : AtMostOne S default ts a') : a = a' := by
  rcases h with ⟨rfl, rfl⟩ | h
  · rcases h' with ⟨-, rfl⟩ | ⟨t, heq, -⟩
    · rfl
    · cases heq
  · rcases h' with ⟨rfl, -⟩ | h'
    · obtain ⟨t, heq, -⟩ := h
      cases heq
    · exact C.one h h'

theorem Clear.one_value (C : Clear S) {ts : List Bytes} {a : α} (h : One S ts a) :
    ∀ t ∈ ts, Value t := by
  obtain ⟨t, rfl, ht⟩ := h
  exact List.forall_mem_singleton.mpr (C.value ht)

/-- One that may be missing is a value if it is there. -/
theorem Clear.atMostOne_value (C : Clear S) {ts : List Bytes} {default a : α}
    (h : AtMostOne S default ts a) : ∀ t ∈ ts, Value t := by
  rcases h with ⟨rfl, -⟩ | h
  · exact fun t ht => absurd ht List.not_mem_nil
  · exact C.one_value h

end Clear

/-! ## 3. Objects and arrays

How an object or an array is divided does not depend on what its parts mean, as long as they are
values. -/

/-- Where the members that count have values, and so do the others, every member has one. -/
theorem values_of_members {names : List String} {ms : List (String × Bytes)}
    (hknown : ∀ k ∈ names, ∀ v ∈ valuesOf k ms, Value v)
    (hother : ∀ m ∈ ms, m.1 ∉ names → Value m.2) : ∀ m ∈ ms, Value m.2 := by
  intro m hm
  by_cases hk : m.1 ∈ names
  · refine hknown _ hk _ (List.mem_map.mpr ⟨m, List.mem_filter.mpr ⟨hm, ?_⟩, rfl⟩)
    exact beq_self_eq_true m.1
  · exact hother m hm hk

/-- An array has one list of items. -/
theorem array_unique {t : Bytes} {ts ts' : List Bytes} (h : ListText Eq t ts)
    (hts : ∀ u ∈ ts, Value u) (h' : ListText Eq t ts') (hts' : ∀ u ∈ ts', Value u) : ts = ts' := by
  have D : Determined fun (t u : Bytes) => t = u ∧ Value u := by
    refine ⟨fun h => h.1 ▸ h.2.opens, ?_⟩
    rintro t t' r r' _ _ ⟨rfl, hv⟩ ⟨rfl, hv'⟩ hr hr' heq
    exact hv.eq_of_append_eq hv' hr hr' heq
  obtain ⟨u, rfl, hu⟩ := h
  obtain ⟨u', heq, hu'⟩ := h'
  obtain rfl := (List.cons.inj heq).2
  exact parts_unique D (.inl rfl) (hu.imp fun _ v hv ht => ⟨ht, hts v hv⟩)
    (hu'.imp fun _ v hv ht => ⟨ht, hts' v hv⟩)

/-- No text is both an object and an array. -/
theorem not_object_array {α β : Type} {K : Bytes → α → Prop} {P : Bytes → β → Prop} {t : Bytes}
    {ms : List (α × Bytes)} {as : List β} (h : ObjectText K t ms) (h' : ListText P t as) :
    False := by
  obtain ⟨u, rfl, -⟩ := h
  obtain ⟨u', heq, -⟩ := h'
  exact absurd (List.cons.inj heq).1 (by decide)

/-! ## 4. One outline

From findings to the document. Two spellings of one text have the same form, then the same parts,
then the same meaning. -/

namespace RawFindingText

variable {t : Bytes} {x x' : RawFinding}

/-- All members of a finding are values, those that count and the others. -/
theorem object_values {ms : List (String × Bytes)}
    (hcategory : One Quoted (valuesOf "type" ms) x.category)
    (hconfidence : One Quoted (valuesOf "indicator" ms) x.confidence)
    (hrule : One Quoted (valuesOf "ruleFile" ms) x.rule)
    (hsource : AtMostOne OptionalPathText none (valuesOf "sourceFile" ms) x.source)
    (hline : One LineText (valuesOf "line" ms) x.line)
    (hmessage : AtMostOne Quoted "" (valuesOf "message" ms) x.message)
    (hother : ∀ m ∈ ms, m.1 ∉ findingNames → Value m.2) : ∀ m ∈ ms, Value m.2 := by
  refine values_of_members ?_ hother
  simp only [findingNames, List.forall_mem_cons]
  exact ⟨clear_quoted.one_value hcategory, clear_quoted.one_value hconfidence,
    clear_quoted.one_value hrule, clear_optionalPath.atMostOne_value hsource,
    clear_line.one_value hline, clear_quoted.atMostOne_value hmessage, nofun⟩

/-- All items of a finding are values. -/
theorem array_values {category confidence rule source line : Bytes} {rest : List Bytes}
    (hcategory : Quoted category x.category) (hconfidence : Quoted confidence x.confidence)
    (hrule : Quoted rule x.rule) (hsource : OptionalPathText source x.source)
    (hline : LineText line x.line) (hmessage : AtMostOne Quoted "" rest x.message) :
    ∀ u ∈ category :: confidence :: rule :: source :: line :: rest, Value u := by
  simp only [List.forall_mem_cons]
  exact ⟨clear_quoted.value hcategory, clear_quoted.value hconfidence, clear_quoted.value hrule,
    clear_optionalPath.value hsource, clear_line.value hline,
    clear_quoted.atMostOne_value hmessage⟩

/-- A raw finding is a value of the data format. -/
theorem value (h : RawFindingText t x) : Value t := by
  cases h with
  | object h h1 h2 h3 h4 h5 h6 hother =>
    exact value_of_objectText h (object_values h1 h2 h3 h4 h5 h6 hother)
  | array h h1 h2 h3 h4 h5 h6 =>
    obtain ⟨u, rfl, hu⟩ := h
    exact .list ⟨u, rfl, hu⟩ (array_values h1 h2 h3 h4 h5 h6)

/-- A text is one raw finding at most. -/
theorem functional (h : RawFindingText t x) (h' : RawFindingText t x') : x = x' := by
  -- An object and an array begin with different bytes, which settles the mixed cases.
  obtain ⟨c, i, r, s, l, m⟩ := x
  obtain ⟨c', i', r', s', l', m'⟩ := x'
  cases h with
  | object h h1 h2 h3 h4 h5 h6 hother =>
    cases h' with
    | object h' h1' h2' h3' h4' h5' h6' hother' =>
      obtain rfl := objectText_unique h (object_values h1 h2 h3 h4 h5 h6 hother) h'
        (object_values h1' h2' h3' h4' h5' h6' hother')
      rw [RawFinding.mk.injEq]
      exact ⟨clear_quoted.one h1 h1', clear_quoted.one h2 h2', clear_quoted.one h3 h3',
        clear_optionalPath.atMostOne h4 h4', clear_line.one h5 h5', clear_quoted.atMostOne h6 h6'⟩
    | array h' => exact (not_object_array h h').elim
  | array h h1 h2 h3 h4 h5 h6 =>
    cases h' with
    | object h' => exact (not_object_array h' h).elim
    | array h' h1' h2' h3' h4' h5' h6' =>
      have heq := array_unique h (array_values h1 h2 h3 h4 h5 h6) h'
        (array_values h1' h2' h3' h4' h5' h6')
      simp only [List.cons.injEq] at heq
      obtain ⟨rfl, rfl, rfl, rfl, rfl, rfl⟩ := heq
      rw [RawFinding.mk.injEq]
      exact ⟨clear_quoted.functional h1 h1', clear_quoted.functional h2 h2',
        clear_quoted.functional h3 h3', clear_optionalPath.functional h4 h4',
        clear_line.functional h5 h5', clear_quoted.atMostOne h6 h6'⟩

end RawFindingText

/-- Raw findings are clear. -/
theorem clear_rawFinding : Clear RawFindingText := ⟨RawFindingText.value, RawFindingText.functional⟩

section Holder

variable {α : Type} {S : Bytes → α → Prop} {name : String} {t : Bytes} {path path' : Path}
  {as as' : List α}

/-- All members of an entry with a list are values. -/
theorem Clear.holder_members (C : Clear S) {ms : List (String × Bytes)}
    (hpath : One PathText (valuesOf "path" ms) path)
    (hlist : AtMostOne (ListText S) [] (valuesOf name ms) as)
    (hother : ∀ m ∈ ms, m.1 ∉ ["path", name] → Value m.2) : ∀ m ∈ ms, Value m.2 := by
  refine values_of_members ?_ hother
  simp only [List.forall_mem_cons]
  exact ⟨clear_path.one_value hpath, C.list.atMostOne_value hlist, nofun⟩

/-- All items of such an entry are values. -/
theorem Clear.holder_items (C : Clear S) {first : Bytes} {rest : List Bytes}
    (hpath : PathText first path) (hlist : AtMostOne (ListText S) [] rest as) :
    ∀ u ∈ first :: rest, Value u :=
  List.forall_mem_cons.mpr ⟨clear_path.value hpath, C.list.atMostOne_value hlist⟩

/-- Such an entry is a value itself. -/
theorem Clear.holder_value (C : Clear S) (h : HolderText name S t path as) : Value t := by
  cases h with
  | object h hpath hlist hother =>
    exact value_of_objectText h (C.holder_members hpath hlist hother)
  | array h hpath hlist =>
    obtain ⟨u, rfl, hu⟩ := h
    exact .list ⟨u, rfl, hu⟩ (C.holder_items hpath hlist)

/-- It has one path and one list. -/
theorem Clear.holder (C : Clear S) (h : HolderText name S t path as)
    (h' : HolderText name S t path' as') : path = path' ∧ as = as' := by
  cases h with
  | object h hpath hlist hother =>
    cases h' with
    | object h' hpath' hlist' hother' =>
      obtain rfl := objectText_unique h (C.holder_members hpath hlist hother) h'
        (C.holder_members hpath' hlist' hother')
      exact ⟨clear_path.one hpath hpath', C.list.atMostOne hlist hlist'⟩
    | array h' => exact (not_object_array h h').elim
  | array h hpath hlist =>
    cases h' with
    | object h' => exact (not_object_array h' h).elim
    | array h' hpath' hlist' =>
      have heq := array_unique h (C.holder_items hpath hlist) h' (C.holder_items hpath' hlist')
      obtain ⟨rfl, rfl⟩ := List.cons.inj heq
      exact ⟨clear_path.functional hpath hpath', C.list.atMostOne hlist hlist'⟩

end Holder

/-- Raw files are clear. -/
theorem clear_rawFile : Clear RawFileText where
  value := clear_rawFinding.holder_value
  functional {t x x'} h h' := by
    obtain ⟨hpath, hfindings⟩ := clear_rawFinding.holder h h'
    cases x
    cases x'
    rw [RawFile.mk.injEq]
    exact ⟨hpath, hfindings⟩

/-- Raw directories are clear. -/
theorem clear_rawReport : Clear RawReportText where
  value := clear_rawFile.holder_value
  functional {t x x'} h h' := by
    obtain ⟨hpath, hfiles⟩ := clear_rawFile.holder h h'
    cases x
    cases x'
    rw [RawReport.mk.injEq]
    exact ⟨hpath, hfiles⟩

/-- **One outline.** What a document says before its names are read is determined by its bytes. -/
theorem outline_unique {b : Bytes} {x x' : RawReport} (h : Outline b x) (h' : Outline b x') :
    x = x' := by
  obtain ⟨w, t, u, hw, hu, ht, rfl⟩ := h
  obtain ⟨w', t', u', hw', hu', ht', heq⟩ := h'
  have hopens := (clear_rawReport.value ht).opens
  have hopens' := (clear_rawReport.value ht').opens
  have hskip := congrArg skipSpace heq
  rw [hopens.skipSpace hw, hopens'.skipSpace hw'] at hskip
  exact (clear_rawReport.determined.eq_of_append_eq ht ht' (ends_of_blanks hu)
    (ends_of_blanks hu') hskip).1

end UpgradeScan.EngineText
