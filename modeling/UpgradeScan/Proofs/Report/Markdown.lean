/-
`Proofs/Report/Markdown.lean` -- the layout for documents, line by line.

The lines of a context are a heading, a table with a row for each share, and a section for each
file. A section has one item per finding: what was found and where it is explained, the message, and
the lines around the finding between two fences. A section ends with the last item, so a file
without findings is its heading and an empty line.

This is written down first, as lists of lines made from the data alone (`Context.markdownLines`),
and there is no template in it. What has to be shown is that the template writes these lines for
every context. The template is parsed once, by computation, into its elements (`parse?_markdown`),
and from there on its text plays no part. Then one lemma for each block says what its elements
write, from the finding to the whole context, in the shape of the data.

Values stand as they are, with one exception: the dollar signs of a message get a backslash. Titles,
paths and lines of code are not touched, whatever is in them, so a pipe in a path or three backticks
in a line of code are part of the report like any other characters.
-/
import UpgradeScan.Proofs.Report.Layout

set_option autoImplicit false

namespace UpgradeScan

open UpgradeScan.Template

/-! ## 1. The lines

What the report has to say, without saying how it is written. -/

/-- The message with every dollar sign after a backslash. -/
def Finding.escapedMessage (f : Finding) : String :=
  String.ofList (f.message.toList.flatMap fun c => if c = '$' then ['\\', '$'] else [c])

/-- The lines for a finding. The lines around it, two before and two after, are one text. -/
def Finding.markdownLines (d : Disk) (log : Changelog) (f : Finding) : List String :=
  ["* **" ++ f.category.name ++ "** (" ++ f.confidence.name ++ ") line " ++ decimal f.line ++
      ": [" ++ (log.title d f.rule).1 ++ "](" ++ (log.url d f.rule).1 ++ ")",
    "",
    "  " ++ f.escapedMessage,
    "",
    "```php",
    d.linesAround f.source f.line 2 2,
    "```",
    ""]

/-- The lines for a file, its path as seen from a base. -/
def FileReport.markdownLines (d : Disk) (log : Changelog) (base : Path) (f : FileReport) :
    List String :=
  ["## " ++ relativeText f.path.text base.text, ""] ++
    f.findings.flatMap (Finding.markdownLines d log)

/-- The row for a share. -/
def Statistics.row (m : String × Json) : String := "| " ++ m.1 ++ " | " ++ statisticText m.2 ++ " |"

/-- The lines for a context. -/
def Context.markdownLines (d : Disk) (log : Changelog) (c : Context) : List String :=
  ["# " ++ c.title, "",
    "Target TYPO3 version: **" ++ c.target ++ "**, total matches: **" ++ decimal c.total ++ "**", "",
    "| Kind | Share |", "| --- | --- |"] ++
    c.statistics.map Statistics.row ++ [""] ++
    c.report.files.flatMap (FileReport.markdownLines d log c.base) ++
    ["_Execution time: " ++ String.ofList (JsonNumber.real c.seconds).text ++ "s_"]

/-! ## 2. The elements

The parsed template, cut into the four pieces that its blocks go through. Line ends stand where the
template has them, which is not always where the lines above end; the proofs below regroup them. -/

namespace Layout

/-- The elements for a share. -/
def markdownShare : List Element :=
  [.text "| ", .value ⟨.path "@key" [.own, .name "key"], [], []⟩, .text " | ",
    .value ⟨.path "this" [], [], []⟩, .text " |\n"]

/-- The elements for a finding. -/
def markdownFinding : List Element :=
  [.text "* **", .member "type", .text "** (", .member "indicator", .text ") line ",
    .member "line", .text ": [", .answer "change_title" [.member "ruleFile"], .text "](",
    .answer "online_document" [.member "ruleFile"], .text ")\n\n  ",
    .answer "escape_dollar" [.member "message"], .text "\n\n```php\n",
    .answer "lines_from_file" [.member "sourceFile", .member "line"], .text "\n```\n\n"]

/-- The elements for a file. -/
def markdownFile : List Element :=
  [.text "## ",
    .answer "relative_path" [.member "path", .path "@root.basePath" [.root, .name "basePath"]],
    .text "\n\n", .each "matches" ["matches"] markdownFinding, .text ""]

/-- The elements for a context. -/
def markdownContext : List Element :=
  [.text "# ", .member "title", .text "\n\nTarget TYPO3 version: **", .member "targetVersion",
    .text "**, total matches: **", .member "total",
    .text "**\n\n| Kind | Share |\n| --- | --- |\n",
    .each "statistics" ["statistics"] markdownShare, .text "\n",
    .each "directoryMatches.files" ["directoryMatches", "files"] markdownFile,
    .text "_Execution time: ", .member "executionTime", .text "s_\n"]

set_option maxRecDepth 100000 in
/-- The layout is these elements. It is the one place where the text of the template is looked at.
-/
theorem parse?_markdown : parse? markdown = some markdownContext := by
  rw [Renderer.parse?_eq]
  rfl

/-! ## 3. What they write

One lemma for each piece, from the inside out. `Sees` says what the value at hand is, so a piece is
settled by what its members are. -/

/-- The helper puts a backslash before each dollar sign, which is what the lines have. -/
theorem escapeDollar_message (f : Finding) : escapeDollar f.message = f.escapedMessage := by
  rw [escapeDollar, Text.replace_letter]
  rfl

section

variable {r : Renderer} {d : Disk} {log : Changelog} {c : Context} {here : Place}

/-- The elements for a finding write its lines: two members, the answers of four helpers, and
between them the fixed texts. -/
theorem writes_markdownFinding {f : Finding} (h : Sees (r.setting d c) here f.toJson) :
    Writes (r.setting d c) (log.Agrees d) here markdownFinding
      (ofLines (f.markdownLines d log)) := by
  have htext : ofLines (f.markdownLines d log) =
      "* **" ++ (f.category.name ++ ("** (" ++ (f.confidence.name ++ (") line " ++
        (decimal f.line ++ (": [" ++ ((log.title d f.rule).1 ++ ("](" ++ ((log.url d f.rule).1 ++
          (")\n\n  " ++ (f.escapedMessage ++ ("\n\n```php\n" ++
            (d.linesAround f.source f.line 2 2 ++ ("\n```\n\n" ++ "")))))))))))))) := by
    have hclose : ")\n\n  " = ")" ++ ("\n" ++ ("\n" ++ "  ")) := rfl
    have hopen : "\n\n```php\n" = "\n" ++ ("\n" ++ ("```php" ++ "\n")) := rfl
    have hend : "\n```\n\n" = "\n" ++ ("```" ++ ("\n" ++ "\n")) := rfl
    simp only [Finding.markdownLines, ofLines, List.map_cons, List.map_nil, String.join_cons,
      String.join_nil, String.append_assoc, String.empty_append, hclose, hopen, hend]
  have hrule : Means (r.setting d c) here (.member "ruleFile") (.string f.rule) :=
    h.means_member rfl
  have hmessage : Means (r.setting d c) here (.member "message") (.string f.message) :=
    h.means_member rfl
  have hsource : Means (r.setting d c) here (.member "sourceFile") (.string f.source.text) :=
    h.means_member rfl
  have hline : Means (r.setting d c) here (.member "line") (Json.ofNat f.line) :=
    h.means_member rfl
  rw [htext]
  refine .cons (h.puts_text _) (.cons (h.puts_string rfl rfl) ?_)
  refine .cons (h.puts_text _) (.cons (h.puts_string rfl rfl) ?_)
  refine .cons (h.puts_text _) (.cons (h.puts_number (n := .natural f.line) rfl rfl) ?_)
  refine .cons (h.puts_text _) (.cons (.answer rfl (by simp) (.cons hrule .nil)
    (log.answers_title d f.rule)) ?_)
  refine .cons (h.puts_text _) (.cons (.answer rfl (by simp) (.cons hrule .nil)
    (log.answers_url d f.rule)) ?_)
  rw [← escapeDollar_message]
  refine .cons (h.puts_text _) (.cons (.answer rfl (by simp) (.cons hmessage .nil)
    (answers_pureHelper _ _ _)) ?_)
  -- without further arguments the excerpt has two lines on either side
  refine .cons (h.puts_text _) (.cons (.answer rfl (by simp) (.cons hsource (.cons hline .nil))
    (answers_pureHelper _ _ _)) ?_)
  exact .cons (h.puts_text _) .nil

/-- The elements for a file write its heading and the lines of its findings. -/
theorem writes_markdownFile {f : FileReport} (h : Sees (r.setting d c) here f.toJson) :
    Writes (r.setting d c) (log.Agrees d) here markdownFile
      (ofLines (f.markdownLines d log c.base)) := by
  have htext : ofLines (f.markdownLines d log c.base) =
      "## " ++ (relativeText f.path.text c.base.text ++ ("\n\n" ++
        (String.join (f.findings.map fun g => ofLines (g.markdownLines d log)) ++
          ("" ++ "")))) := by
    have hend : "\n\n" = "\n" ++ "\n" := rfl
    rw [FileReport.markdownLines, ofLines_append, ofLines_flatMap, hend]
    simp only [ofLines, List.map_cons, List.map_nil, String.join_cons, String.join_nil,
      String.append_assoc, String.empty_append, String.append_empty]
  have hpath : Means (r.setting d c) here (.member "path") (.string f.path.text) :=
    h.means_member rfl
  have hbase : Means (r.setting d c) here (.path "@root.basePath" [.root, .name "basePath"])
      (.string c.base.text) := h.means_root (show follow ["basePath"] (some c.toJson) = _ from rfl)
  rw [htext]
  refine .cons (h.puts_text _) (.cons (.answer rfl (by simp) (.cons hpath (.cons hbase .nil))
    (answers_pureHelper _ _ _)) ?_)
  refine .cons (h.puts_text _) (.cons (h.puts_each_array rfl (by simp [markdownFinding]) rfl
    fun g _ there hthere => writes_markdownFinding hthere) ?_)
  exact .cons (h.puts_text _) .nil

/-- The elements for a share write its row; the name comes from the key that the block goes through.
-/
theorem writes_markdownShare {m : String × Json} (h : Sees (r.setting d c) here m.2)
    (hkey : here.own? "key" = some (.string m.1)) (hm : IsStatistic m.2) :
    Writes (r.setting d c) (log.Agrees d) here markdownShare (ofLines [Statistics.row m]) := by
  have htext : ofLines [Statistics.row m] =
      "| " ++ (m.1 ++ (" | " ++ (shown m.2 ++ (" |\n" ++ "")))) := by
    have hend : " |\n" = " |" ++ "\n" := rfl
    rw [shown_statistic hm]
    simp only [Statistics.row, ofLines, List.map_cons, List.map_nil, String.join_cons,
      String.join_nil, String.append_assoc, hend]
  have hthis : Means (r.setting d c) here (.path "this" []) m.2 :=
    h.means (show follow [] (some m.2) = _ from rfl)
  rw [htext]
  refine .cons (h.puts_text _) (.cons (h.puts_value rfl (.own hkey)) ?_)
  refine .cons (h.puts_text _) (.cons (h.puts_value rfl hthis) ?_)
  exact .cons (h.puts_text _) .nil

/-- All elements of the layout write the lines of the context. -/
theorem writes_markdownContext (hnames : (c.statistics.map (·.1)).Nodup)
    (hvalues : ∀ m ∈ c.statistics, IsStatistic m.2) :
    Writes (r.setting d c) (log.Agrees d) {} markdownContext (ofLines (c.markdownLines d log)) := by
  have hrows : ofLines (c.statistics.map Statistics.row) =
      String.join (c.statistics.map fun m => ofLines [Statistics.row m]) := by
    rw [← ofLines_flatMap, ← List.map_eq_flatMap]
  -- The lines are joined and cut again where the layout has its tags.
  have htext : ofLines (c.markdownLines d log) =
      "# " ++ (c.title ++ ("\n\nTarget TYPO3 version: **" ++ (c.target ++
        ("**, total matches: **" ++ (decimal c.total ++
          ("**\n\n| Kind | Share |\n| --- | --- |\n" ++
            (String.join (c.statistics.map fun m => ofLines [Statistics.row m]) ++ ("\n" ++
              (String.join (c.report.files.map fun f => ofLines (f.markdownLines d log c.base)) ++
                ("_Execution time: " ++ (String.ofList (JsonNumber.real c.seconds).text ++
                  ("s_\n" ++ "")))))))))))) := by
    have htarget : "\n\nTarget TYPO3 version: **" =
        "\n" ++ ("\n" ++ "Target TYPO3 version: **") := rfl
    have htable : "**\n\n| Kind | Share |\n| --- | --- |\n" =
        "**" ++ ("\n" ++ ("\n" ++ ("| Kind | Share |" ++ ("\n" ++ ("| --- | --- |" ++ "\n"))))) :=
      rfl
    have hend : "s_\n" = "s_" ++ "\n" := rfl
    rw [Context.markdownLines, ofLines_append, ofLines_append, ofLines_append, ofLines_append,
      hrows, ofLines_flatMap]
    simp only [ofLines, List.map_cons, List.map_nil, String.join_cons, String.join_nil,
      String.append_assoc, String.empty_append, htarget, htable, hend]
  have h : Sees (r.setting d c) {} c.toJson := .start
  rw [htext]
  refine .cons (h.puts_text _) (.cons (h.puts_string rfl rfl) ?_)
  refine .cons (h.puts_text _) (.cons (h.puts_string rfl rfl) ?_)
  refine .cons (h.puts_text _) (.cons (h.puts_number (n := .natural c.total) rfl rfl) ?_)
  refine .cons (h.puts_text _) (.cons (h.puts_each_object rfl (by simp [markdownShare]) rfl hnames
    fun m hm there hthere hkey => writes_markdownShare hthere hkey (hvalues m hm)) ?_)
  refine .cons (h.puts_text _) (.cons (h.puts_each_array rfl (by simp [markdownFile]) rfl
    fun f _ there hthere => writes_markdownFile hthere) ?_)
  refine .cons (h.puts_text _) (.cons (h.puts_number rfl rfl) ?_)
  exact .cons (h.puts_text _) .nil

end

end Layout

/-! ## 4. The report -/

namespace Renderer

/-- **The report for documents.** Unless the template directory replaces the layout, a context is
rendered as `markdown` to its lines, each with a line end, whatever values it has, whatever was
looked up before, and whatever comes up meanwhile. -/
theorem render_markdown {r : Renderer} {loaded : Disk} {dir : Option Path}
    (hload : load loaded dir = .ok r) (hdir : ∀ s ∈ sources loaded dir, s.1 ≠ "markdown") (d : Disk)
    (log : Changelog) {c : Context} (hnames : (c.statistics.map (·.1)).Nodup)
    (hvalues : ∀ m ∈ c.statistics, IsStatistic m.2) (chance : Chance) :
    (r.render d log "markdown" c chance).1 = .ok (Layout.ofLines (c.markdownLines d log)) := by
  have hname : formatName "markdown" = "markdown" := by decide
  have hbuiltIn : builtIn = [("plain", .ok Layout.plain)] ++
      ("markdown", .ok Layout.markdown) :: [] := rfl
  have hlookup : r.templates.lookup "markdown" = some Layout.markdownContext :=
    lookup_load hload hbuiltIn Layout.parse?_markdown (by simp) hdir
  rw [← hname] at hlookup
  exact render_of_writes (by rw [hname]; decide) hlookup
    (Layout.writes_markdownContext hnames hvalues) chance

/-- A report on two files, the first without a finding. The message of the finding begins with a
dollar sign, and its rule has a title but no address. -/
theorem render_markdown_one_finding :
    let f : Finding := ⟨.breaking, .strong, "A.rst", ⟨"/ext/b.php"⟩, 2, "$moved"⟩
    let c : Context :=
      { title := "ext", target := "12", total := 1, base := ⟨"/ext"⟩
        statistics := [("STRONG", .string "100.0% (1)"), ("WEAK", Json.ofNat 0)]
        report := ⟨⟨"/ext"⟩, [⟨⟨"/ext/a.php"⟩, []⟩, ⟨⟨"/ext/b.php"⟩, [f]⟩]⟩
        seconds := ⟨false, 1, -1⟩ }
    let disk : Disk := ⟨.folder [("ext", .folder [("b.php", .file [0x78, 0x0A, 0x79, 0x0A])]),
      ("docs", .folder [("A.rst", .file [0x3D, 0x0A, 0x54, 0x0A])])], []⟩
    ∃ r, load disk none = .ok r ∧
      (r.render disk (.fresh ⟨"/docs"⟩ ⟨"/links"⟩) "markdown" c).1 =
        .ok ("# ext\n\nTarget TYPO3 version: **12**, total matches: **1**\n\n" ++
          "| Kind | Share |\n| --- | --- |\n| STRONG | 100.0% (1) |\n| WEAK | 0 |\n\n" ++
          "## a.php\n\n## b.php\n\n* **BREAKING** (STRONG) line 2: [T]()\n\n  \\$moved\n\n" ++
          "```php\nx\ny\n```\n\n_Execution time: 0.5s_\n") := by
  intro f c disk
  obtain ⟨r, hr⟩ := exists_load_none disk
  have hvalues : ∀ m ∈ c.statistics, IsStatistic m.2 := by
    intro m hm
    simp only [c, List.mem_cons, List.not_mem_nil, or_false] at hm
    rcases hm with rfl | rfl
    · exact .string _
    · exact .natural (by decide)
  refine ⟨r, hr, (render_markdown hr (by simp [sources]) disk _ (by decide) hvalues {}).trans
    ?_⟩
  exact congrArg Except.ok (by decide +kernel)

end Renderer

end UpgradeScan
