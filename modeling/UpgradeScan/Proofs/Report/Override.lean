/-
`Proofs/Report/Override.lean` -- which template a format has.

A template directory may replace the built-in layouts and add formats of its own. Which template a
format has in the end is a question about file names: the directory is read once, in the order of
the names, each file is registered under its name without the extension and in lower case, and each
template takes the place of an earlier one. Several files can be templates of one format, since
their names may differ in case; the last of them wins, by the bytes of the names.

The answer is stated without registering anything. `LastOf` says which file that is, and `Uses` says
what a format stands for: the template of that file, else the built-in layout, else nothing. Both
are relations on the entries of the directory, and both determine their result (`Uses.unique`). That
the table which loading fills agrees with them is `uses_lookup`.

Between the two stands the file system. A renderer lists the directory and then reads each file by a
path put together from the directory and the name. For an entry of a proper folder that path leads
to the entry (`exists_sources_eq`), so what the renderer holds is said of the entries alone.

What can be refused is said as well: a template that cannot be read or is none ends the loading,
whatever its format, and nothing else does. So a single broken file takes away every format,
including those that it has nothing to do with.
-/
import UpgradeScan.Proofs.Files.Entry
import UpgradeScan.Proofs.Report.Layout

set_option autoImplicit false

namespace UpgradeScan

open UpgradeScan.Template

/-! ## 1. Template files

Files and the formats they are for, by their names. Only the end of a name matters for whether it is
a template, and case does not matter for the format. -/

/-- The text of a file. A folder has none, and neither has a file that is not UTF-8. -/
def Node.text? : Node → Option String
  | .file content => Text.Utf8.string? content
  | .folder _ => none

/-- What is read by a path is the text of what the path leads to. -/
theorem Disk.toOption_readText {d : Disk} {p : Path} {n : Node} (h : d.node p = .ok n) :
    (d.readText p).toOption = n.text? := by
  rw [readText, read, h]
  cases n with
  | folder es => rfl
  | file content =>
    simp only [Node.text?]
    cases Text.Utf8.string? content <;> rfl

/-- A path leads to a folder when a folder is found there. -/
theorem Disk.isFolder_iff {d : Disk} {p : Path} :
    d.isFolder p = true ↔ ∃ es, d.node p = .ok (.folder es) := by
  rw [isFolder]
  cases d.node p with
  | error f => simp
  | ok n => cases n <;> simp [Node.isFolder]

namespace Renderer

/-- What is in the template directory: nothing, when none is given or the path leads to no
folder. -/
def entries (d : Disk) (dir : Option Path) : List (String × Node) :=
  match dir.map d.node with
  | some (.ok (.folder es)) => es
  | _ => []

/-- The file is a template of the format: it is called as the format, in any case of ASCII letters,
and `.hbs`. A file that is called nothing but `.hbs` is one of the format `.hbs`. -/
inductive IsTemplateOf (format : String) : String → Prop
  | named {stem : String} (hne : stem ≠ "") (h : Text.lowered stem = format) :
      IsTemplateOf format (stem ++ ".hbs")
  | bare (h : format = ".hbs") : IsTemplateOf format ".hbs"

/-- The name of a template file ends with the extension. -/
theorem isTemplateFile_iff {file : String} :
    isTemplateFile file = true ↔ ∃ stem, file = stem ++ ".hbs" := by
  rw [isTemplateFile, Text.endsWith_iff]
  constructor
  · rintro ⟨stem, hstem⟩
    refine ⟨String.ofList stem, String.toList_inj.mp ?_⟩
    rw [String.toList_append, String.toList_ofList, ← hstem]
    rfl
  · rintro ⟨stem, rfl⟩
    rw [String.toList_append]
    exact List.suffix_append _ _

/-- A dot that begins the name of a file does not begin an extension. -/
theorem formatOf_append (stem : String) :
    formatOf (stem ++ ".hbs") = if stem = "" then ".hbs" else Text.lowered stem := by
  have hdrop : (stem ++ ".hbs").toList.reverse.dropWhile (· != '.') =
      '.' :: stem.toList.reverse := by
    rw [String.toList_append, List.reverse_append]
    rfl
  rw [formatOf, Path.splitName, hdrop]
  by_cases hstem : stem = ""
  · subst hstem
    rfl
  · have hne : stem.toList.reverse ≠ [] :=
      mt List.reverse_eq_nil_iff.mp (mt String.toList_eq_nil_iff.mp hstem)
    simp only [if_neg hne, if_neg hstem, List.reverse_reverse, String.ofList_toList]

/-- The relation is what is computed from the name of a file. -/
theorem isTemplateOf_iff {format file : String} :
    IsTemplateOf format file ↔ isTemplateFile file = true ∧ formatOf file = format := by
  constructor
  · intro h
    cases h with
    | @named stem hne h =>
      exact ⟨isTemplateFile_iff.mpr ⟨stem, rfl⟩, by rw [formatOf_append, if_neg hne, h]⟩
    | bare h => exact ⟨isTemplateFile_iff.mpr ⟨"", rfl⟩, h.symm⟩
  · rintro ⟨hfile, hformat⟩
    obtain ⟨stem, rfl⟩ := isTemplateFile_iff.mp hfile
    rw [formatOf_append] at hformat
    by_cases hstem : stem = ""
    · subst hstem
      exact .bare hformat.symm
    · rw [if_neg hstem] at hformat
      exact .named hstem hformat

instance (format file : String) : Decidable (IsTemplateOf format file) :=
  decidable_of_iff _ isTemplateOf_iff.symm

/-- The last template of a format, by the bytes of the names of files. -/
structure LastOf (es : List (String × Node)) (format : String) (e : String × Node) : Prop where
  mem : e ∈ es
  isTemplate : IsTemplateOf format e.1
  last : ∀ other ∈ es, IsTemplateOf format other.1 → other ≠ e →
    Text.Utf8.bytes other.1 < Text.Utf8.bytes e.1

/-- What a format stands for where the template directory has these entries. -/
inductive Uses (es : List (String × Node)) (format : String) : Option (List Element) → Prop
  /-- The last template of the format in the directory. -/
  | own {e : String × Node} {text : String} {elements : List Element} (hlast : LastOf es format e)
      (hread : e.2.text? = some text) (hparse : parse? text = some elements) :
      Uses es format (some elements)
  /-- A built-in layout, where the directory has no template of the format. -/
  | builtIn {text : String} {elements : List Element} (hno : ∀ e ∈ es, ¬ IsTemplateOf format e.1)
      (h : (format, text) ∈ [("plain", Layout.plain), ("markdown", Layout.markdown)])
      (hparse : parse? text = some elements) : Uses es format (some elements)
  /-- Nothing, where there is neither. -/
  | nothing (hno : ∀ e ∈ es, ¬ IsTemplateOf format e.1) (hplain : format ≠ "plain")
      (hmarkdown : format ≠ "markdown") : Uses es format none

section

variable {es : List (String × Node)} {format : String}

/-- There is only one last template of a format. -/
theorem LastOf.unique {e e' : String × Node} (h : LastOf es format e) (h' : LastOf es format e') :
    e = e' := by
  by_contra hne
  exact List.lt_asymm (h.last e' h'.mem h'.isTemplate (Ne.symm hne))
    (h'.last e h.mem h.isTemplate hne)

/-- A format stands for one thing at most. -/
theorem Uses.unique {a b : Option (List Element)} (h : Uses es format a) (h' : Uses es format b) :
    a = b := by
  -- A fitting file excludes the other two sources, a layout that comes with the program
  -- excludes finding nothing.
  cases h with
  | own hlast hread hparse =>
    cases h' with
    | own hlast' hread' hparse' =>
      obtain rfl := hlast.unique hlast'
      obtain rfl := Option.some.inj (hread.symm.trans hread')
      exact hparse.symm.trans hparse'
    | builtIn hno _ _ => exact absurd hlast.isTemplate (hno _ hlast.mem)
    | nothing hno _ _ => exact absurd hlast.isTemplate (hno _ hlast.mem)
  | builtIn hno hlayout hparse =>
    cases h' with
    | own hlast _ _ => exact absurd hlast.isTemplate (hno _ hlast.mem)
    | builtIn _ hlayout' hparse' =>
      simp only [List.mem_cons, Prod.mk.injEq, List.not_mem_nil, or_false] at hlayout hlayout'
      rcases hlayout with ⟨rfl, rfl⟩ | ⟨rfl, rfl⟩
      · rcases hlayout' with ⟨-, rfl⟩ | ⟨hname, -⟩
        · exact hparse.symm.trans hparse'
        · exact absurd hname (by decide)
      · rcases hlayout' with ⟨hname, -⟩ | ⟨-, rfl⟩
        · exact absurd hname (by decide)
        · exact hparse.symm.trans hparse'
    | nothing _ hplain hmarkdown => simp [hplain, hmarkdown] at hlayout
  | nothing hno hplain hmarkdown =>
    cases h' with
    | own hlast _ _ => exact absurd hlast.isTemplate (hno _ hlast.mem)
    | builtIn _ hlayout _ => simp [hplain, hmarkdown] at hlayout
    | nothing _ _ _ => rfl

end

/-! ## 2. The sources of a directory

A directory is a list of entries without an order, and the sources are what is read from it in the
order of the names. -/

section

variable {d : Disk} {dir : Option Path} {r : Renderer} {format : String}

/-- Where the path leads to no folder there are no templates. -/
theorem nil_of_no_folder (h : ∀ p ∈ dir, d.isFolder p = false) :
    sources d dir = [] ∧ entries d dir = [] := by
  cases dir with
  | none => exact ⟨rfl, rfl⟩
  | some p =>
    rw [sources, sourcesIn, entries, Option.map_some]
    cases hnode : d.node p with
    | error f => exact ⟨rfl, rfl⟩
    | ok n =>
      cases n with
      | file content => exact ⟨rfl, rfl⟩
      | folder es => exact absurd (Disk.isFolder_iff.mpr ⟨es, hnode⟩) (by simp [h p rfl])

/-- The sources are the templates among the entries in the order of their names, each with its own
text. -/
theorem exists_sources_eq (h : (Node.folder (entries d dir)).Proper) :
    ∃ read : String → Except Fault String,
      sources d dir = ((Node.sorted (entries d dir)).filter fun e => isTemplateFile e.1).map
        (fun e => (formatOf e.1, read e.1)) ∧
      ∀ e ∈ entries d dir, (read e.1).toOption = e.2.text? := by
  by_cases hno : ∀ p ∈ dir, d.isFolder p = false
  · obtain ⟨hsources, hentries⟩ := nil_of_no_folder hno
    rw [hsources, hentries, Node.sorted, List.mergeSort_nil]
    exact ⟨fun _ => .error .notFound, rfl, fun e he => absurd he List.not_mem_nil⟩
  · push Not at hno
    obtain ⟨p, rfl, hfolder⟩ := hno
    obtain ⟨es, hnode⟩ := Disk.isFolder_iff.mp (by simpa using hfolder)
    have hentries : entries d (some p) = es := by rw [entries, Option.map_some, hnode]
    rw [hentries] at h ⊢
    refine ⟨fun name => d.readText (p.join ⟨name⟩), by rw [sources, sourcesIn, hnode]; rfl, ?_⟩
    intro e he
    exact Disk.toOption_readText (Disk.node_join hnode (h.entries.2 e he)
      ((Node.child?_eq_some_iff h.entries.1).mpr he))

/-- A template is refused exactly when the text of its file cannot be read or is no template. -/
theorem exists_unusable_iff (h : (Node.folder (entries d dir)).Proper) :
    (∃ s ∈ sources d dir, Unusable s.2) ↔
      ∃ e ∈ entries d dir, ".hbs".toList <:+ e.1.toList ∧
        ∀ text, e.2.text? = some text → parse? text = none := by
  have hbind : ∀ n : Node, n.text?.bind parse? = none ↔
      ∀ text, n.text? = some text → parse? text = none := fun n => Option.bind_eq_none_iff
  obtain ⟨read, hsources, hread⟩ := exists_sources_eq h
  have hfile : ∀ file : String, isTemplateFile file = true ↔ ".hbs".toList <:+ file.toList :=
    fun file => Text.endsWith_iff
  simp only [hsources, List.mem_map, List.mem_filter, Node.sorted, List.mem_mergeSort, unusable_iff,
    ← hbind]
  constructor
  · rintro ⟨s, ⟨e, ⟨he, hhbs⟩, rfl⟩, hbad⟩
    exact ⟨e, he, (hfile e.1).mp hhbs, hread e he ▸ hbad⟩
  · rintro ⟨e, he, hhbs, hbad⟩
    exact ⟨_, ⟨e, ⟨he, (hfile e.1).mpr hhbs⟩, rfl⟩, (hread e he).symm ▸ hbad⟩

/-- Where every template can be used there is a renderer. -/
theorem exists_load (h : (Node.folder (entries d dir)).Proper)
    (husable : ∀ e ∈ entries d dir, ".hbs".toList <:+ e.1.toList →
      (e.2.text?.bind parse?).isSome = true) : ∃ r, load d dir = .ok r := by
  cases hload : load d dir with
  | ok r => exact ⟨r, rfl⟩
  | error fault =>
    obtain ⟨f, -, rfl⟩ := load_eq_error_iff.mp hload
    obtain ⟨e, he, hhbs, hbad⟩ :=
      (exists_unusable_iff h).mp (exists_load_eq_error_iff.mp ⟨f, hload⟩)
    have hgood := husable e he hhbs
    rw [Option.bind_eq_none_iff.mpr hbad] at hgood
    cases hgood

/-- Where a format has templates there is a last one, and none after it in the order of names. -/
theorem exists_lastOf {es : List (String × Node)} (h : (Node.folder es).Proper)
    (hsome : ∃ e ∈ es, IsTemplateOf format e.1) :
    ∃ e before after, LastOf es format e ∧ Node.sorted es = before ++ e :: after ∧
      ∀ other ∈ after, ¬ IsTemplateOf format other.1 := by
  have hmem : ∀ e, e ∈ Node.sorted es ↔ e ∈ es := fun e => List.mem_mergeSort
  -- The last fitting entry is the first one in the reversed order.
  cases hfind : (Node.sorted es).reverse.find? fun e => IsTemplateOf format e.1 with
  | none =>
    obtain ⟨e, he, htemplate⟩ := hsome
    rw [List.find?_eq_none] at hfind
    exact absurd (decide_eq_true htemplate) (hfind e (List.mem_reverse.mpr ((hmem e).mpr he)))
  | some e =>
    obtain ⟨htemplate, behind, front, hsplit, hbehind⟩ := List.find?_eq_some_iff_append.mp hfind
    have hsorted : Node.sorted es = front.reverse ++ e :: behind.reverse := by
      rw [← List.reverse_reverse (Node.sorted es), hsplit]
      simp
    have hafter : ∀ other ∈ behind.reverse, ¬ IsTemplateOf format other.1 := by
      intro other hother
      simpa using hbehind other (List.mem_reverse.mp hother)
    refine ⟨e, front.reverse, behind.reverse, ⟨?_, of_decide_eq_true htemplate, ?_⟩, hsorted,
      hafter⟩
    · rw [← hmem, hsorted]
      exact List.mem_append_right _ List.mem_cons_self
    · intro other hother hformat hne
      have hplace : other ∈ front.reverse := by
        rw [← hmem, hsorted, List.mem_append, List.mem_cons] at hother
        rcases hother with hother | rfl | hother
        · exact hother
        · exact absurd rfl hne
        · exact absurd hformat (hafter other hother)
      have horder := Node.pairwise_sorted h.entries.1
      rw [hsorted, List.pairwise_append] at horder
      exact horder.2.2 other hplace e List.mem_cons_self

/-! ## 3. What a format stands for

From what was registered to what a format stands for, and from there to what is rendered. -/

/-- Where the directory has templates of a format, the last one can be used, because the renderer is
there, and it is the one that is looked up. -/
theorem uses_lookup_of_some (hproper : (Node.folder (entries d dir)).Proper)
    (h : load d dir = .ok r) (hsome : ∃ e ∈ entries d dir, IsTemplateOf format e.1) :
    Uses (entries d dir) format (r.templates.lookup format) := by
  obtain ⟨read, hsources, hread⟩ := exists_sources_eq hproper
  obtain ⟨e, before, after, hlast, hsplit, hafter⟩ := exists_lastOf hproper hsome
  obtain ⟨hfile, hformat⟩ := isTemplateOf_iff.mp hlast.isTemplate
  -- the renderer would not be there with a template that cannot be used
  have husable : ¬ ∀ text, e.2.text? = some text → parse? text = none := by
    intro hbad
    obtain ⟨f, herror⟩ := exists_load_eq_error_iff.mpr ((exists_unusable_iff hproper).mpr
      ⟨e, hlast.mem, Text.endsWith_iff.mp hfile, hbad⟩)
    rw [h] at herror
    cases herror
  push Not at husable
  obtain ⟨text, htext, hparse⟩ := husable
  obtain ⟨elements, hparse⟩ := Option.ne_none_iff_exists'.mp hparse
  have hok : read e.1 = .ok text := by
    have hoption := (hread e hlast.mem).trans htext
    cases hcase : read e.1 with
    | error f =>
      rw [hcase] at hoption
      cases hoption
    | ok s =>
      rw [hcase] at hoption
      rw [Option.some.inj hoption]
  have hlookup : r.templates.lookup format = some elements := by
    rw [hsplit, List.filter_append, List.filter_cons_of_pos (by exact hfile), List.map_append,
      List.map_cons, hformat, hok] at hsources
    rw [load, hsources, ← List.append_assoc] at h
    generalize hloaded : registerAll _ [] = loaded at h
    cases loaded with
    | error e => cases h
    | ok ts =>
      cases h
      refine lookup_registerAll_last hloaded hparse ?_
      intro s hs hname
      obtain ⟨other, hother, rfl⟩ := List.mem_map.mp hs
      obtain ⟨hmem, hhbs⟩ := List.mem_filter.mp hother
      exact hafter other hmem (isTemplateOf_iff.mpr ⟨hhbs, hname⟩)
  rw [hlookup]
  exact .own hlast htext hparse

/-- Where the directory has no template of a format, what is looked up is a built-in layout or
nothing. -/
theorem uses_lookup_of_none (hproper : (Node.folder (entries d dir)).Proper)
    (h : load d dir = .ok r) (hno : ∀ e ∈ entries d dir, ¬ IsTemplateOf format e.1) :
    Uses (entries d dir) format (r.templates.lookup format) := by
  obtain ⟨read, hsources, -⟩ := exists_sources_eq hproper
  have hnames : ∀ s ∈ sources d dir, s.1 ≠ format := by
    rw [hsources]
    intro s hs hname
    obtain ⟨e, he, rfl⟩ := List.mem_map.mp hs
    obtain ⟨hmem, hhbs⟩ := List.mem_filter.mp he
    exact hno e (List.mem_mergeSort.mp hmem) (isTemplateOf_iff.mpr ⟨hhbs, hname⟩)
  -- No file fits, so only the two layouts that come with the program are left.
  by_cases hplain : format = "plain"
  · subst hplain
    obtain ⟨elements, helements⟩ := Option.isSome_iff_exists.mp plain_isTemplate
    have hbuiltIn : Renderer.builtIn = [] ++ ("plain", .ok Layout.plain) ::
        [("markdown", .ok Layout.markdown)] := rfl
    rw [lookup_load h hbuiltIn helements (by decide) hnames]
    exact .builtIn hno (by simp) helements
  by_cases hmarkdown : format = "markdown"
  · subst hmarkdown
    obtain ⟨elements, helements⟩ := Option.isSome_iff_exists.mp markdown_isTemplate
    have hbuiltIn : Renderer.builtIn = [("plain", .ok Layout.plain)] ++
        ("markdown", .ok Layout.markdown) :: [] := rfl
    rw [lookup_load h hbuiltIn helements (by simp) hnames]
    exact .builtIn hno (by simp) helements
  have hlookup : r.templates.lookup format = none := by
    refine lookup_load_eq_none h fun s hs => ?_
    rcases List.mem_append.mp hs with hs | hs
    · rw [builtIn, List.mem_cons, List.mem_singleton] at hs
      rcases hs with rfl | rfl
      · exact Ne.symm hplain
      · exact Ne.symm hmarkdown
    · exact hnames s hs
  rw [hlookup]
  exact .nothing hno hplain hmarkdown

/-- Every name, also one that no format is looked up by, stands for what the entries say. -/
theorem uses_lookup (hproper : (Node.folder (entries d dir)).Proper) (h : load d dir = .ok r)
    (format : String) : Uses (entries d dir) format (r.templates.lookup format) := by
  by_cases hsome : ∃ e ∈ entries d dir, IsTemplateOf format e.1
  · exact uses_lookup_of_some hproper h hsome
  · exact uses_lookup_of_none hproper h fun e he hformat => hsome ⟨e, he, hformat⟩

/-- A path that leads to no folder gives the renderer that none gives. -/
theorem load_of_no_folder {p : Path} (h : d.isFolder p = false) :
    load d (some p) = load d none := by
  have hno : ∀ q ∈ some p, d.isFolder q = false := by
    rintro q ⟨⟩
    exact h
  rw [load, load, (nil_of_no_folder hno).1]
  rfl

/-- **Which template a format has.** A renderer is refused exactly when some `.hbs` entry of the
template directory has no text that can be read, or one that is no template; it is never refused for
anything else. Otherwise `json` shows the context itself, whatever the directory has, and any other
format is rendered from what its name, trimmed and in lower case, stands for: the last template of
that name in the directory, else the built-in layout. A format that stands for nothing is unknown,
and is called so in the words in which it was given. The templates that a template calls are found
in the same way. A path that leads to no folder is as good as none. -/
theorem load_overrides (d : Disk) (dir : Option Path)
    (hproper : (Node.folder (entries d dir)).Proper) :
    (∀ fault, load d dir = .error fault → ∃ f, fault = .template (f := f)) ∧
    ((∃ f, load d dir = .error (.template (f := f))) ↔
      ∃ e ∈ entries d dir, ".hbs".toList <:+ e.1.toList ∧
        ∀ text, e.2.text? = some text → parse? text = none) ∧
    (∀ r, load d dir = .ok r →
      ∀ (d' : Disk) (log : Changelog) (c : Context) (chance : Chance),
      (∀ name, Uses (entries d dir) name ((r.setting d' c).templates name)) ∧
      ∀ format,
        (formatName format = "json" → r.render d' log format c chance =
          (.ok (String.ofList (c.toJson.pretty 0 ++ ['\n'])), log)) ∧
        (formatName format ≠ "json" → ∃ found, Uses (entries d dir) (formatName format) found ∧
          r.render d' log format c chance = match found with
            | some elements =>
              let answer := run (r.setting d' c) chance (formatName format) elements log
              (answer.1.mapError fun i => .render (i := i), answer.2)
            | none => (.error (.unknownFormat format), log))) ∧
    ∀ p, d.isFolder p = false → load d (some p) = load d none := by
  refine ⟨fun fault hfault => ?_, ?_, ?_, fun p => load_of_no_folder⟩
  · obtain ⟨f, -, rfl⟩ := load_eq_error_iff.mp hfault
    exact ⟨f, rfl⟩
  · rw [exists_load_eq_error_iff, exists_unusable_iff hproper]
  · intro r hr d' log c chance
    refine ⟨uses_lookup hproper hr, fun format => ⟨fun hjson => ?_, fun hjson => ?_⟩⟩
    · rw [render, if_pos hjson]
    · refine ⟨_, uses_lookup hproper hr (formatName format), ?_⟩
      cases hlookup : r.templates.lookup (formatName format) with
      | none => rw [render, if_neg hjson, hlookup]
      | some elements => exact render_of_lookup d' log c chance hjson hlookup

/-- A directory where two files are templates of `plain`, one of `json`, and one of a name with a
blank in front of it, which no format is looked up by. A folder that is called as a template is
refused. -/
theorem load_overrides_of_two_files :
    let content (s : String) : Node := .file (Text.Utf8.encode s.toList)
    let good : List (String × Node) := [("Plain.hbs", content "two"), ("PLAIN.hbs", content "one"),
      ("json.hbs", content "own"), (" x.hbs", content "blank"), ("note.txt", content "\x7b\x7b")]
    let disk : Disk :=
      ⟨.folder [("t", .folder good), ("bad", .folder [("sub.hbs", .folder [])])], []⟩
    let log := Changelog.fresh ⟨"/docs"⟩ ⟨"/links"⟩
    let c : Context := default
    (Node.folder (entries disk (some ⟨"/t"⟩))).Proper ∧
    (∃ r, load disk (some ⟨"/t"⟩) = .ok r ∧
      Uses good "plain" (some [.text "two"]) ∧ (r.render disk log " plaiN" c).1 = .ok "two" ∧
      r.render disk log "Json" c = (.ok (String.ofList (c.toJson.pretty 0 ++ ['\n'])), log) ∧
      (r.render disk log " x" c).1 = .error (.unknownFormat " x")) ∧
    (∃ f, load disk (some ⟨"/bad"⟩) = .error (.template (f := f))) ∧
    load disk (some ⟨"/t/note.txt"⟩) = load disk none := by
  intro content good disk log c
  have hproper : (Node.folder (entries disk (some ⟨"/t"⟩))).Proper := by
    change (Node.folder good).Proper
    refine Node.proper_folder (by decide) (by decide +kernel) ?_
    simp [good, content, Node.proper_file]
  have hproperBad : (Node.folder (entries disk (some ⟨"/bad"⟩))).Proper := by
    change (Node.folder [("sub.hbs", .folder [])]).Proper
    refine Node.proper_folder (by decide) (by decide +kernel) ?_
    have hempty : (Node.folder []).Proper := Node.proper_folder (by decide) (by simp) (by simp)
    simpa using hempty
  obtain ⟨-, -, hrenders, hnone⟩ := load_overrides disk (some ⟨"/t"⟩) hproper
  obtain ⟨-, hrefusedBad, -, -⟩ := load_overrides disk (some ⟨"/bad"⟩) hproperBad
  have htwo : parse? "two" = some [.text "two"] := by
    rw [parse?_eq]
    rfl
  have hplain : Uses good "plain" (some [.text "two"]) := by
    refine .own (e := ("Plain.hbs", content "two")) ⟨List.mem_cons_self, by decide, ?_⟩ rfl htwo
    intro other hother hformat hne
    simp only [good, List.mem_cons, List.not_mem_nil, or_false] at hother
    rcases hother with rfl | rfl | rfl | rfl | rfl
    · exact absurd rfl hne
    · decide
    all_goals exact absurd hformat (by decide)
  have hx : Uses good "x" none := .nothing (by decide) (by decide) (by decide)
  have husable : ∀ e ∈ good, ".hbs".toList <:+ e.1.toList →
      (e.2.text?.bind parse?).isSome = true := by decide +kernel
  obtain ⟨r, hr⟩ := exists_load hproper husable
  obtain ⟨-, hformat⟩ := hrenders r hr disk log c {}
  refine ⟨hproper, ⟨r, hr, hplain, ?_, (hformat "Json").1 (by decide), ?_⟩, ?_, hnone _ (by decide)⟩
  · obtain ⟨found, huses, hrender⟩ := (hformat " plaiN").2 (by decide)
    have hname : formatName " plaiN" = "plain" := by decide
    rw [hname] at huses
    obtain rfl := huses.unique hplain
    rw [hrender]
    rfl
  · obtain ⟨found, huses, hrender⟩ := (hformat " x").2 (by decide)
    have hname : formatName " x" = "x" := by decide
    rw [hname] at huses
    obtain rfl := huses.unique hx
    rw [hrender]
  · exact hrefusedBad.mpr ⟨_, List.mem_cons_self, by decide, nofun⟩

end

end Renderer

end UpgradeScan
