/-
`Proofs/Report/Document.lean` -- the JSON form of a report, read back.

The same data is written in one place and read in another: a scan writes its report into the `json`
format, and the reader of the engine's reports accepts a document with the same members. The two
were not made for each other, so that what is written can be read again is a statement with content.
The reader is stricter than JSON. It knows names, wants numbers of the right kind and range, and
refuses what does not fit.

The proof does not run the reader. What a document has to look like to be read as a report is known
(`Spelling`), and so is what the printer makes of a value (`listText_pretty`, `objectText_pretty`).
So it is enough to see that what is printed is one of the spellings: every member is given, each
under the name that the reader knows, no source is left open, and the line numbers fit. There is one
lemma per level, and the findings, files and the directory are printed at any depth, since the
report is a member of the document of a scan.

The other members of that document are not a report. They are read back as values of the data
format, which is possible when their numbers are those of the machine; `Context.WellFormed` says
which these are.
-/
import UpgradeScan.Report.Renderer
import UpgradeScan.Proofs.Engine.Reading
import UpgradeScan.Proofs.Json.ReadBack

set_option autoImplicit false

namespace UpgradeScan

open UpgradeScan.JsonText
open UpgradeScan.EngineText

/-! ## 1. Printed entries

From the inside out: names, findings, files, the directory. The indentation is the only thing that
the depth changes, and no reader looks at it. -/

/-- Every line number is one that the format can hold. -/
def Report.LinesFit (r : Report) : Prop := ∀ f ∈ r.files, ∀ g ∈ f.findings, g.line < Nat.pow 2 64

/-- A list whose items are printed is spelled when they are. -/
theorem listText_printed {α β : Type} {S : Bytes → β → Prop} (toJson : α → Json) (g : α → β)
    (depth : Nat) {as : List α} (h : ∀ a ∈ as, S (printed (depth + 1) (toJson a)) (g a)) :
    ListText S (printed depth (.array (as.map toJson))) (as.map g) := by
  obtain ⟨u, hu, hparts⟩ := listText_pretty depth (as.map toJson)
  rw [List.map_map] at hparts
  refine ⟨u, hu, hparts.of_map.map g ?_⟩
  rintro v a ha rfl
  exact h a ha

/-- Every member of a printed object has one of the names of the object. -/
theorem name_mem_printed {names : List String} {ms : List (String × Json)} {depth : Nat}
    (hnames : ms.map (·.1) = names) {m : String × Bytes}
    (hm : m ∈ ms.map fun m => (m.1, printed depth m.2)) : m.1 ∈ names := by
  obtain ⟨x, hx, rfl⟩ := List.mem_map.mp hm
  rw [← hnames]
  exact List.mem_map_of_mem hx

/-- The finding with its source given. -/
def Finding.draft (f : Finding) : Draft :=
  ⟨f.category, f.confidence, f.rule, some f.source, f.line, f.message⟩

/-- A finding with its source given does not depend on the file it is read in. -/
@[simp] theorem Finding.settle_draft (f : Finding) (path : Path) : f.draft.settle path = f := rfl

/-- A category is printed as its own name, in capitals. -/
theorem category_printed (c : Category) (depth : Nat) :
    CategoryText (printed depth (.string c.name)) c :=
  ⟨c.name, quoted_quote c.name, by cases c <;> decide⟩

/-- A confidence is printed as its own name, in capitals. -/
theorem confidence_printed (c : Confidence) (depth : Nat) :
    ConfidenceText (printed depth (.string c.name)) c :=
  ⟨c.name, quoted_quote c.name, by cases c <;> decide⟩

/-- What is printed of a finding spells it, with its source. -/
theorem draftText_printed {f : Finding} (h : f.line < Nat.pow 2 64) (depth : Nat) :
    DraftText (printed depth f.toJson) f.draft := by
  refine .object (objectText_pretty depth _) ⟨_, rfl, category_printed _ (depth + 1)⟩
    ⟨_, rfl, confidence_printed _ (depth + 1)⟩ ⟨_, rfl, quoted_quote f.rule⟩
    (.inr ⟨_, rfl, .inr ⟨f.source, quoted_quote f.source.text, rfl⟩⟩) ⟨_, rfl, h, rfl⟩
    (.inr ⟨_, rfl, quoted_quote f.message⟩) fun m hm hne => absurd (name_mem_printed rfl hm) hne

/-- What is printed of a file spells it: each finding names its own source, so none depends on the
path of the file. -/
theorem fileText_printed {f : FileReport} (h : ∀ g ∈ f.findings, g.line < Nat.pow 2 64)
    (depth : Nat) : FileText (printed depth f.toJson) f := by
  -- every source is given, so nothing is settled by the path of the file
  have hsettled : (f.findings.map Finding.draft).map (Draft.settle f.path) = f.findings := by
    simp only [List.map_map, Function.comp_def, Finding.settle_draft, List.map_id']
  have hspelled : FileText (printed depth f.toJson)
      ⟨f.path, (f.findings.map Finding.draft).map (Draft.settle f.path)⟩ := by
    refine .object (objectText_pretty depth _) ⟨_, rfl, quoted_quote f.path.text⟩
      (.inr ⟨_, rfl, listText_printed Finding.toJson Finding.draft (depth + 1) fun g hg =>
        draftText_printed (h g hg) _⟩) fun m hm hne => absurd (name_mem_printed rfl hm) hne
  rw [hsettled] at hspelled
  exact hspelled

/-- What is printed of a report spells it. -/
theorem directoryText_printed {r : Report} (h : r.LinesFit) (depth : Nat) :
    DirectoryText (printed depth r.toJson) r := by
  have hfiles := listText_printed (S := FileText) FileReport.toJson id (depth + 1)
    fun f hf => fileText_printed (h f hf) (depth + 1 + 1)
  rw [List.map_id] at hfiles
  refine .object (objectText_pretty depth _) ⟨_, rfl, quoted_quote r.path.text⟩
    (.inr ⟨_, rfl, hfiles⟩) fun m hm hne => absurd (name_mem_printed rfl hm) hne

/-- A report that is printed, at any depth, reads back as itself. -/
theorem Report.ofBytes_printed {r : Report} (h : r.LinesFit) (depth : Nat) :
    Report.ofBytes (printed depth r.toJson) = .ok r :=
  Report.ofBytes_complete
    ⟨[], _, [], blanks_nil, blanks_nil, directoryText_printed h depth, by simp⟩

/-! ## 2. The document of a scan

The whole document is an object, and each member has to be found by its name and read by itself.
That the values of the other members come back as they are needs that the printer loses nothing of
them: no name twice, and no number beyond those of 64 bits. -/

/-- A value that statistics may show beside a name: a string or an integer of 64 bits. -/
inductive IsStatistic : Json → Prop
  | string (s : String) : IsStatistic (.string s)
  | natural {n : Nat} (h : n < Nat.pow 2 64) : IsStatistic (.number (.natural n))
  | negative {n : Nat} (h : 0 < n) (hle : n ≤ Nat.pow 2 63) : IsStatistic (.number (.negative n))

namespace Context

/-- The counts, the lines and the time are numbers of the machine, and no name of the statistics
is there twice. -/
structure WellFormed (c : Context) : Prop where
  total : c.total < Nat.pow 2 64
  names : (c.statistics.map (·.1)).Nodup
  values : ∀ m ∈ c.statistics, IsStatistic m.2
  lines : c.report.LinesFit
  seconds : c.seconds.significand < Nat.pow 2 53

/-- The document is an object with the seven members of the context, in their order. Of the first
five and of the report, the text of the member reads back as what the context has there. -/
def ShownBy (c : Context) (document : Bytes) : Prop :=
  ∃ title target total base statistics report seconds,
    ObjectText Quoted document
      [("title", title), ("targetVersion", target), ("total", total), ("basePath", base),
        ("statistics", statistics), ("directoryMatches", report), ("executionTime", seconds)] ∧
    Json.parse? title = some (.string c.title) ∧
    Json.parse? target = some (.string c.target) ∧
    Json.parse? total = some (Json.ofNat c.total) ∧
    Json.parse? base = some (.string c.base.text) ∧
    Json.parse? statistics = some (.object c.statistics) ∧
    Report.ofBytes report = .ok c.report

/-- The statistics read back as they are: their names differ, and their values are texts or integers
of 64 bits. -/
theorem exact_statistics {c : Context} (h : c.WellFormed) (depth : Nat) :
    Exact (depth + 1) (.object c.statistics) := by
  refine .object h.names fun m hm => ?_
  have hm := h.values m hm
  generalize m.2 = v at hm
  cases hm with
  | string s => exact .string s
  | natural hn => exact .natural hn
  | negative hn hle => exact .negative hn hle

/-- A finding with a line number of 64 bits has no other number in it. -/
theorem fits_finding {f : Finding} (h : f.line < Nat.pow 2 64) : Fits f.toJson := by
  refine .object fun m hm => ?_
  simp only [List.mem_cons, List.not_mem_nil, or_false] at hm
  rcases hm with rfl | rfl | rfl | rfl | rfl | rfl
  · exact .string _
  · exact .string _
  · exact .string _
  · exact .string _
  · exact .number h
  · exact .string _

/-- The numbers of a file are those of its findings. -/
theorem fits_file {f : FileReport} (h : ∀ g ∈ f.findings, g.line < Nat.pow 2 64) :
    Fits f.toJson := by
  refine .object fun m hm => ?_
  simp only [List.mem_cons, List.not_mem_nil, or_false] at hm
  rcases hm with rfl | rfl
  · exact .string _
  · refine .array fun x hx => ?_
    obtain ⟨g, hg, rfl⟩ := List.mem_map.mp hx
    exact fits_finding (h g hg)

/-- The numbers of a report are those of its files. -/
theorem fits_report {r : Report} (h : r.LinesFit) : Fits r.toJson := by
  refine .object fun m hm => ?_
  simp only [List.mem_cons, List.not_mem_nil, or_false] at hm
  rcases hm with rfl | rfl
  · exact .string _
  · refine .array fun x hx => ?_
    obtain ⟨f, hf, rfl⟩ := List.mem_map.mp hx
    exact fits_file (h f hf)

/-- No number of a well-formed context is too large for the format. -/
theorem fits_toJson {c : Context} (h : c.WellFormed) : Fits c.toJson := by
  refine .object fun m hm => ?_
  simp only [List.mem_cons, List.not_mem_nil, or_false] at hm
  rcases hm with rfl | rfl | rfl | rfl | rfl | rfl | rfl
  · exact .string _
  · exact .string _
  · exact .number h.total
  · exact .string _
  · exact (exact_statistics h 0).fits
  · exact fits_report h.lines
  · exact .number h.seconds

/-- The document of a well-formed context shows it. -/
theorem shownBy_printed {c : Context} (h : c.WellFormed) : c.ShownBy (printed 0 c.toJson) :=
  ⟨_, _, _, _, _, _, _, objectText_pretty 0 _, Json.parse?_printed (.string _) 1,
    Json.parse?_printed (.string _) 1, Json.parse?_printed (.natural h.total) 1,
    Json.parse?_printed (.string _) 1, Json.parse?_printed (exact_statistics h _) 1,
    Report.ofBytes_printed h.lines 1⟩

end Context

/-- **The JSON report.** Rendered as `json`, a context is one value of the data format and a line
end, whatever comes up meanwhile. The value is an object with the seven members of the context in
their order, and what the members hold reads back: the report, by the reader of the engine's
reports, as the same report. -/
theorem Renderer.render_json (r : Renderer) (d : Disk) (log : Changelog) {c : Context}
    (h : c.WellFormed) (chance : Template.Chance) :
    ∃ text document, (r.render d log "json" c chance).1 = .ok text ∧
      Text.Utf8.bytes text = document ++ [0x0A] ∧ Value document ∧ c.ShownBy document := by
  have hname : Renderer.formatName "json" = "json" := by decide
  refine ⟨String.ofList (c.toJson.pretty 0 ++ ['\n']), printed 0 c.toJson, ?_, ?_,
    value_printed (Context.fits_toJson h) 0, Context.shownBy_printed h⟩
  · rw [Renderer.render, hname, if_pos rfl]
  · rw [Text.Utf8.bytes, String.toList_ofList, Text.Utf8.encode_append]
    rfl

/-- A finding whose message needs escapes, in a report that is rendered and read back. -/
theorem Renderer.render_json_escapes :
    let c : Context :=
      { title := "ext", target := "12.4", total := 1, base := ⟨"/srv"⟩
        statistics := [("STRONG", .string "100.0% (1)"), ("BREAKING", Json.ofNat 1)]
        report := ⟨⟨"/srv"⟩, [⟨⟨"/srv/a.php"⟩,
          [⟨.breaking, .strong, "Breaking-1.rst", ⟨"/srv/a.php"⟩, 7, "a \"b\"\n\u00FC"⟩]⟩]⟩
        seconds := ⟨false, 3, -4⟩ }
    c.WellFormed ∧ ∃ text document,
      ((Renderer.mk []).render ⟨.folder [], []⟩ default "json" c).1 = .ok text ∧
      Text.Utf8.bytes text = document ++ [0x0A] ∧ Value document ∧ c.ShownBy document := by
  intro c
  have h : c.WellFormed := by
    refine ⟨by decide, by decide, ?_, ?_, by decide⟩
    · intro m hm
      simp only [c, List.mem_cons, List.not_mem_nil, or_false] at hm
      rcases hm with rfl | rfl
      · exact .string _
      · exact .natural (by decide)
    · intro f hf g hg
      simp only [c, List.mem_cons, List.not_mem_nil, or_false] at hf
      subst hf
      simp only [List.mem_cons, List.not_mem_nil, or_false] at hg
      subst hg
      decide
  exact ⟨h, Renderer.render_json (Renderer.mk []) ⟨.folder [], []⟩ default h {}⟩

end UpgradeScan
