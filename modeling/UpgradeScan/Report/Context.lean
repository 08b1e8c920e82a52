/-
`Report/Context.lean` -- what a rendered report is made from.

The context is built once per scan. Its JSON form is both one of the output formats and the data
that templates see, so the order of the members is part of the format.

The JSON form of a report has the members that the document of the engine has. So a report that was
written can be given to a later scan as what the engine found.
-/
import UpgradeScan.Report.Share

set_option autoImplicit false

namespace UpgradeScan

/-- The JSON form of a finding. -/
def Finding.toJson (f : Finding) : Json :=
  .object
    [("type", .string f.category.name), ("indicator", .string f.confidence.name),
      ("ruleFile", .string f.rule), ("sourceFile", .string f.source.text),
      ("line", Json.ofNat f.line), ("message", .string f.message)]

/-- The JSON form of a file. -/
def FileReport.toJson (f : FileReport) : Json :=
  .object [("path", .string f.path.text), ("matches", .array (f.findings.map Finding.toJson))]

/-- The JSON form of a report. -/
def Report.toJson (r : Report) : Json :=
  .object [("path", .string r.path.text), ("files", .array (r.files.map FileReport.toJson))]

/-- Everything that a rendered report may show. -/
structure Context where
  /-- The key of the scanned extension, else the scanned path. -/
  title : String
  target : String
  /-- The number of findings in the report. -/
  total : Nat
  /-- Where paths are seen from. -/
  base : Path
  statistics : Statistics
  report : Report
  /-- The seconds that the scan took. -/
  seconds : Number.Binary64
  deriving Inhabited

/-- The JSON form of a context. -/
def Context.toJson (c : Context) : Json :=
  .object
    [("title", .string c.title), ("targetVersion", .string c.target), ("total", Json.ofNat c.total),
      ("basePath", .string c.base.text), ("statistics", .object c.statistics),
      ("directoryMatches", c.report.toJson), ("executionTime", .number (.real c.seconds))]

end UpgradeScan
