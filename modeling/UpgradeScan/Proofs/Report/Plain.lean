/-
`Proofs/Report/Plain.lean` -- the layout for terminals, line by line.

The layout is a template, and what it makes of a context is a list of lines: three of the scan, one
for each share, and for each file its path and three lines for each finding, which are what was
found, the line of code that it was found in, and where it is explained. An empty line follows the
shares and each file.

As for the other layout, the lines are written down first, from the data alone, and the template is
then shown to write them for every context. It is parsed once, into elements, and there is one lemma
for each block of it.

Nothing of a value is changed on the way. So a value that looks like a tag, or has line ends in it,
stands as it is; the report has then more lines than are listed here, since one of those listed has
a line end in it. The text is the same.
-/
import UpgradeScan.Proofs.Report.Layout

set_option autoImplicit false

namespace UpgradeScan

open UpgradeScan.Template

/-! ## 1. The lines

What the report has to say, without saying how it is written. -/

/-- The lines for a finding. -/
def Finding.plainLines (d : Disk) (log : Changelog) (f : Finding) : List String :=
  ["  " ++ f.category.name ++ " (" ++ f.confidence.name ++ ") line " ++ decimal f.line ++ ": " ++
      (log.title d f.rule).1,
    "    " ++ d.lineAt f.source f.line,
    "    " ++ (log.url d f.rule).1]

/-- The lines for a file, its path as seen from a base. -/
def FileReport.plainLines (d : Disk) (log : Changelog) (base : Path) (f : FileReport) :
    List String :=
  relativeText f.path.text base.text :: f.findings.flatMap (Finding.plainLines d log) ++ [""]

/-- The lines for a context. -/
def Context.plainLines (d : Disk) (log : Changelog) (c : Context) : List String :=
  [c.title, "Target TYPO3 version: " ++ c.target, "Total matches: " ++ decimal c.total] ++
    c.statistics.map (fun m => m.1 ++ ": " ++ statisticText m.2) ++ [""] ++
    c.report.files.flatMap (FileReport.plainLines d log c.base) ++
    ["Execution time: " ++ String.ofList (JsonNumber.real c.seconds).text ++ "s"]

/-! ## 2. The elements

The parsed template, cut into the four pieces that its blocks go through. -/

namespace Layout

/-- The elements for a share. -/
def plainShare : List Element :=
  [.text "", .value ⟨.path "@key" [.own, .name "key"], [], []⟩, .text ": ",
    .value ⟨.path "this" [], [], []⟩, .text "\n"]

/-- The elements for a finding. -/
def plainFinding : List Element :=
  [.text "  ", .member "type", .text " (", .member "indicator", .text ") line ", .member "line",
    .text ": ", .answer "change_title" [.member "ruleFile"], .text "\n    ",
    .answer "line_from_file" [.member "sourceFile", .member "line"], .text "\n    ",
    .answer "online_document" [.member "ruleFile"], .text "\n"]

/-- The elements for a file. -/
def plainFile : List Element :=
  [.text "",
    .answer "relative_path" [.member "path", .path "@root.basePath" [.root, .name "basePath"]],
    .text "\n", .each "matches" ["matches"] plainFinding, .text "\n"]

/-- The elements for a context. -/
def plainContext : List Element :=
  [.member "title", .text "\nTarget TYPO3 version: ", .member "targetVersion",
    .text "\nTotal matches: ", .member "total", .text "\n",
    .each "statistics" ["statistics"] plainShare, .text "\n",
    .each "directoryMatches.files" ["directoryMatches", "files"] plainFile,
    .text "Execution time: ", .member "executionTime", .text "s\n"]

set_option maxRecDepth 100000 in
/-- The layout is these elements. -/
theorem parse?_plain : parse? plain = some plainContext := by
  rw [Renderer.parse?_eq]
  rfl

/-! ## 3. What they write

One lemma for each piece, from the inside out. -/

section

variable {r : Renderer} {d : Disk} {log : Changelog} {c : Context} {here : Place}

/-- The elements for a finding write its three lines. -/
theorem writes_plainFinding {f : Finding} (h : Sees (r.setting d c) here f.toJson) :
    Writes (r.setting d c) (log.Agrees d) here plainFinding (ofLines (f.plainLines d log)) := by
  have htext : ofLines (f.plainLines d log) =
      "  " ++ (f.category.name ++ (" (" ++ (f.confidence.name ++ (") line " ++ (decimal f.line ++
        (": " ++ ((log.title d f.rule).1 ++ ("\n    " ++ (d.lineAt f.source f.line ++ ("\n    " ++
          ((log.url d f.rule).1 ++ ("\n" ++ "")))))))))))) := by
    have hindent : "\n    " = "\n" ++ "    " := rfl
    simp only [Finding.plainLines, ofLines, List.map_cons, List.map_nil, String.join_cons,
      String.join_nil, String.append_assoc, hindent]
  have hrule : Means (r.setting d c) here (.member "ruleFile") (.string f.rule) :=
    h.means_member rfl
  have hsource : Means (r.setting d c) here (.member "sourceFile") (.string f.source.text) :=
    h.means_member rfl
  have hline : Means (r.setting d c) here (.member "line") (Json.ofNat f.line) :=
    h.means_member rfl
  -- From here on the text and the layout are followed together, a piece and a tag at a time.
  rw [htext]
  refine .cons (h.puts_text _) (.cons (h.puts_string rfl rfl) ?_)
  refine .cons (h.puts_text _) (.cons (h.puts_string rfl rfl) ?_)
  refine .cons (h.puts_text _) (.cons (h.puts_number (n := .natural f.line) rfl rfl) ?_)
  refine .cons (h.puts_text _) (.cons (.answer rfl (by simp) (.cons hrule .nil)
    (log.answers_title d f.rule)) ?_)
  refine .cons (h.puts_text _) (.cons (.answer rfl (by simp) (.cons hsource (.cons hline .nil))
    (answers_pureHelper _ _ _)) ?_)
  refine .cons (h.puts_text _) (.cons (.answer rfl (by simp) (.cons hrule .nil)
    (log.answers_url d f.rule)) ?_)
  exact .cons (h.puts_text _) .nil

/-- The elements for a file write its path as seen from the base, and the lines of its findings. -/
theorem writes_plainFile {f : FileReport} (h : Sees (r.setting d c) here f.toJson) :
    Writes (r.setting d c) (log.Agrees d) here plainFile (ofLines (f.plainLines d log c.base)) := by
  have htext : ofLines (f.plainLines d log c.base) =
      "" ++ (relativeText f.path.text c.base.text ++ ("\n" ++
        (String.join (f.findings.map fun g => ofLines (g.plainLines d log)) ++ ("\n" ++ "")))) := by
    rw [FileReport.plainLines, List.cons_append, ofLines, List.map_cons, String.join_cons,
      ← ofLines, ofLines_append, ofLines_flatMap, String.append_assoc]
    rfl
  have hpath : Means (r.setting d c) here (.member "path") (.string f.path.text) :=
    h.means_member rfl
  have hbase : Means (r.setting d c) here (.path "@root.basePath" [.root, .name "basePath"])
      (.string c.base.text) := h.means_root (show follow ["basePath"] (some c.toJson) = _ from rfl)
  rw [htext]
  refine .cons (h.puts_text _) (.cons (.answer rfl (by simp) (.cons hpath (.cons hbase .nil))
    (answers_pureHelper _ _ _)) ?_)
  refine .cons (h.puts_text _) (.cons (h.puts_each_array rfl (by simp [plainFinding]) rfl
    fun g _ there hthere => writes_plainFinding hthere) ?_)
  exact .cons (h.puts_text _) .nil

/-- The elements for a share write its name and what is shown of it. -/
theorem writes_plainShare {m : String × Json} (h : Sees (r.setting d c) here m.2)
    (hkey : here.own? "key" = some (.string m.1)) (hm : IsStatistic m.2) :
    Writes (r.setting d c) (log.Agrees d) here plainShare
      (ofLines [m.1 ++ ": " ++ statisticText m.2]) := by
  have htext : ofLines [m.1 ++ ": " ++ statisticText m.2] =
      "" ++ (m.1 ++ (": " ++ (shown m.2 ++ ("\n" ++ "")))) := by
    rw [shown_statistic hm]
    simp [ofLines, String.append_assoc]
  have hthis : Means (r.setting d c) here (.path "this" []) m.2 :=
    h.means (show follow [] (some m.2) = _ from rfl)
  rw [htext]
  refine .cons (h.puts_text _) (.cons (h.puts_value rfl (.own hkey)) ?_)
  refine .cons (h.puts_text _) (.cons (h.puts_value rfl hthis) ?_)
  exact .cons (h.puts_text _) .nil

/-- All elements of the layout write the lines of the context. -/
theorem writes_plainContext (hnames : (c.statistics.map (·.1)).Nodup)
    (hvalues : ∀ m ∈ c.statistics, IsStatistic m.2) :
    Writes (r.setting d c) (log.Agrees d) {} plainContext (ofLines (c.plainLines d log)) := by
  -- The statement has the text by lines, the layout by pieces between tags, so the text is
  -- brought into the pieces before the elements are followed one by one.
  have hshares : ofLines (c.statistics.map fun m => m.1 ++ ": " ++ statisticText m.2) =
      String.join (c.statistics.map fun m => ofLines [m.1 ++ ": " ++ statisticText m.2]) := by
    rw [← ofLines_flatMap, ← List.map_eq_flatMap]
  have htext : ofLines (c.plainLines d log) =
      c.title ++ ("\nTarget TYPO3 version: " ++ (c.target ++ ("\nTotal matches: " ++
        (decimal c.total ++ ("\n" ++
          (String.join (c.statistics.map fun m => ofLines [m.1 ++ ": " ++ statisticText m.2]) ++
            ("\n" ++ (String.join (c.report.files.map fun f =>
              ofLines (f.plainLines d log c.base)) ++ ("Execution time: " ++
                (String.ofList (JsonNumber.real c.seconds).text ++ ("s\n" ++ ""))))))))))) := by
    have htarget : "\nTarget TYPO3 version: " = "\n" ++ "Target TYPO3 version: " := rfl
    have htotal : "\nTotal matches: " = "\n" ++ "Total matches: " := rfl
    have hend : "s\n" = "s" ++ "\n" := rfl
    rw [Context.plainLines, ofLines_append, ofLines_append, ofLines_append, ofLines_append, hshares,
      ofLines_flatMap]
    simp only [ofLines, List.map_cons, List.map_nil, String.join_cons, String.join_nil,
      String.append_assoc, htarget, htotal, hend, String.empty_append]
  have h : Sees (r.setting d c) {} c.toJson := .start
  rw [htext]
  refine .cons (h.puts_string rfl rfl) (.cons (h.puts_text _) ?_)
  refine .cons (h.puts_string rfl rfl) (.cons (h.puts_text _) ?_)
  refine .cons (h.puts_number (n := .natural c.total) rfl rfl) (.cons (h.puts_text _) ?_)
  refine .cons (h.puts_each_object rfl (by simp [plainShare]) rfl hnames
    fun m hm there hthere hkey => writes_plainShare hthere hkey (hvalues m hm)) ?_
  refine .cons (h.puts_text _) (.cons (h.puts_each_array rfl (by simp [plainFile]) rfl
    fun f _ there hthere => writes_plainFile hthere) ?_)
  refine .cons (h.puts_text _) (.cons (h.puts_number rfl rfl) ?_)
  exact .cons (h.puts_text _) .nil

end

end Layout

/-! ## 4. The report -/

namespace Renderer

/-- **The report for terminals.** Unless the template directory replaces the layout, a context is
rendered as `plain` to its lines, each with a line end, whatever values it has, whatever was
looked up before, and whatever comes up meanwhile. -/
theorem render_plain {r : Renderer} {loaded : Disk} {dir : Option Path}
    (hload : load loaded dir = .ok r) (hdir : ∀ s ∈ sources loaded dir, s.1 ≠ "plain") (d : Disk)
    (log : Changelog) {c : Context} (hnames : (c.statistics.map (·.1)).Nodup)
    (hvalues : ∀ m ∈ c.statistics, IsStatistic m.2) (chance : Chance) :
    (r.render d log "plain" c chance).1 = .ok (Layout.ofLines (c.plainLines d log)) := by
  have hname : formatName "plain" = "plain" := by decide
  have hbuiltIn : builtIn = [] ++ ("plain", .ok Layout.plain) ::
      [("markdown", .ok Layout.markdown)] := rfl
  have hlookup : r.templates.lookup "plain" = some Layout.plainContext :=
    lookup_load hload hbuiltIn Layout.parse?_plain (by simp) hdir
  rw [← hname] at hlookup
  exact render_of_writes (by rw [hname]; decide) hlookup
    (Layout.writes_plainContext hnames hvalues) chance

/-- A report with a title that looks like a tag, and one finding in the second of two files. -/
theorem render_plain_one_finding :
    let f : Finding := ⟨.breaking, .strong, "A.rst", ⟨"/ext/b.php"⟩, 2, "moved"⟩
    let c : Context :=
      { title := "\x7b\x7btotal\x7d\x7d", target := "12", total := 1, base := ⟨"/ext"⟩
        statistics := [("STRONG", .string "100.0% (1)"), ("WEAK", Json.ofNat 0)]
        report := ⟨⟨"/ext"⟩, [⟨⟨"/ext/a.php"⟩, []⟩, ⟨⟨"/ext/b.php"⟩, [f]⟩]⟩
        seconds := ⟨false, 1, -1⟩ }
    let disk : Disk := ⟨.folder [("ext", .folder [("b.php", .file [0x78, 0x0A, 0x79, 0x0A])]),
      ("docs", .folder [("A.rst", .file [0x3D, 0x0A, 0x54, 0x0A])])], []⟩
    ∃ r, load disk none = .ok r ∧
      (r.render disk (.fresh ⟨"/docs"⟩ ⟨"/links"⟩) "plain" c).1 =
        .ok ("\x7b\x7btotal\x7d\x7d\nTarget TYPO3 version: 12\nTotal matches: 1\n" ++
          "STRONG: 100.0% (1)\nWEAK: 0\n\na.php\n\nb.php\n" ++
          "  BREAKING (STRONG) line 2: T\n    y\n    \n\nExecution time: 0.5s\n") := by
  intro f c disk
  obtain ⟨r, hr⟩ := exists_load_none disk
  have hvalues : ∀ m ∈ c.statistics, IsStatistic m.2 := by
    intro m hm
    simp only [c, List.mem_cons, List.not_mem_nil, or_false] at hm
    rcases hm with rfl | rfl
    · exact .string _
    · exact .natural (by decide)
  refine ⟨r, hr, (render_plain hr (by simp [sources]) disk _ (by decide) hvalues {}).trans
    ?_⟩
  exact congrArg Except.ok (by decide +kernel)

end Renderer

end UpgradeScan
