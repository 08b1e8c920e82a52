/-
`Report/Layout.lean` -- the two layouts that every installation has.

Both are templates like any other, in the language in which a layout of one's own is written, and
both can be replaced by one. They show the same: what was scanned, the shares, and file after file
with its findings. They differ in what surrounds it, and in how much is shown of the source around a
finding.
-/

set_option autoImplicit false

namespace UpgradeScan.Layout

/-- A tag around its inside. -/
def tag (inside : String) : String := "\x7b\x7b" ++ inside ++ "\x7d\x7d"

/-- Lines, each with its end. -/
def ofLines (ls : List String) : String := String.join (ls.map (· ++ "\n"))

/-- The layout for terminals. -/
def plain : String := ofLines
  [tag "title",
    "Target TYPO3 version: " ++ tag "targetVersion",
    "Total matches: " ++ tag "total",
    tag "#each statistics",
    tag "@key" ++ ": " ++ tag "this",
    tag "/each",
    "",
    tag "#each directoryMatches.files",
    tag "relative_path path @root.basePath",
    tag "#each matches",
    "  " ++ tag "type" ++ " (" ++ tag "indicator" ++ ") line " ++ tag "line" ++ ": " ++
      tag "change_title ruleFile",
    "    " ++ tag "line_from_file sourceFile line",
    "    " ++ tag "online_document ruleFile",
    tag "/each",
    "",
    tag "/each",
    "Execution time: " ++ tag "executionTime" ++ "s"]

/-- The layout for documents. -/
def markdown : String := ofLines
  ["# " ++ tag "title",
    "",
    "Target TYPO3 version: **" ++ tag "targetVersion" ++ "**, total matches: **" ++ tag "total" ++
      "**",
    "",
    "| Kind | Share |",
    "| --- | --- |",
    tag "#each statistics",
    "| " ++ tag "@key" ++ " | " ++ tag "this" ++ " |",
    tag "/each",
    "",
    tag "#each directoryMatches.files",
    "## " ++ tag "relative_path path @root.basePath",
    "",
    tag "#each matches",
    "* **" ++ tag "type" ++ "** (" ++ tag "indicator" ++ ") line " ++ tag "line" ++ ": [" ++
      tag "change_title ruleFile" ++ "](" ++ tag "online_document ruleFile" ++ ")",
    "",
    "  " ++ tag "escape_dollar message",
    "",
    "```php",
    tag "lines_from_file sourceFile line",
    "```",
    "",
    tag "/each",
    tag "/each",
    "_Execution time: " ++ tag "executionTime" ++ "s_"]

end UpgradeScan.Layout
