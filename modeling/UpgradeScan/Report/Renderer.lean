/-
`Report/Renderer.lean` -- reports in one of several formats.

A format is `json`, one of the two built-in layouts, or a template of the template directory. The
template directory is read once, in the order of its file names: a template takes the name of its
file without the extension, in lower case, and takes the place of an earlier one of that name.
Formats are named without regard to case and to blanks around the name.

The built-in layouts are registered first, so a file of their name takes their place and nothing
else has to be said about that. Every file that has the ending of a template is registered, and one
that cannot be read or is no template makes the whole directory unusable.

The list of formats has `json` in any case, and a template of that name is never rendered. The name
of a format is trimmed before it is looked up, the name of a file is not.
-/
import UpgradeScan.Error
import UpgradeScan.Report.Context
import UpgradeScan.Report.Function
import UpgradeScan.Report.Layout

set_option autoImplicit false

namespace UpgradeScan

open UpgradeScan.Template

/-- The templates of all formats but `json`, by name. -/
structure Renderer where
  templates : List (String × List Element)
  deriving Inhabited

namespace Renderer

/-! ## 1. Loading

Sources with the names they are registered under, from the layouts and from the directory, and their
texts read as templates one after the other. -/

/-- The templates with one set. -/
def register (name : String) (es : List Element) (ts : List (String × List Element)) :
    List (String × List Element) :=
  if ts.any (·.1 == name) then ts.map fun t => if t.1 == name then (name, es) else t
  else ts ++ [(name, es)]

/-- The file is a template. -/
def isTemplateFile (name : String) : Bool := Text.endsWith ['.', 'h', 'b', 's'] name.toList

/-- The format of a template file. -/
def formatOf (fileName : String) : String := Text.lowered (Path.splitName fileName).1

/-- One source after the other, each set under its name. -/
def registerAll : List (String × Except Fault String) → List (String × List Element) →
    Except ScanError (List (String × List Element))
  | [], ts => .ok ts
  | (name, .ok source) :: rest, ts =>
    match parse? source with
    | some es => registerAll rest (register name es ts)
    | none => .error (.template (f := .malformed name))
  | (name, .error why) :: _, _ => .error (.template (f := .unreadable name why))

/-- The sources of the built-in layouts. -/
def builtIn : List (String × Except Fault String) :=
  [("plain", .ok Layout.plain), ("markdown", .ok Layout.markdown)]

/-- The sources of a template directory, in the order of the file names; none when it is no
directory. -/
def sourcesIn (d : Disk) (dir : Path) : List (String × Except Fault String) :=
  match d.node dir with
  | .ok n =>
    (n.listing.filter fun e => isTemplateFile e.1).map fun e =>
      (formatOf e.1, d.readText (dir.join ⟨e.1⟩))
  | .error _ => []

/-- The sources of the template directory, if one is given. -/
def sources (d : Disk) : Option Path → List (String × Except Fault String)
  | some p => sourcesIn d p
  | none => []

/-- The renderer with the templates of a directory, if one is given. -/
def load (d : Disk) (dir : Option Path) : Except ScanError Renderer :=
  (registerAll (builtIn ++ sources d dir) []).map Renderer.mk

/-! ## 2. Formats

How a format is named, and which formats there are. -/

/-- The name that a format is looked up by. -/
def formatName (format : String) : String := Text.lowered (Text.trimmed format)

/-- The names of all formats, in the order of their bytes. -/
def formats (r : Renderer) : List String :=
  (r.templates.map (·.1) ++ ["json"]).mergeSort fun a b =>
    Text.Utf8.bytes a ≤ Text.Utf8.bytes b

/-- The format is one of those listed. -/
def knows (r : Renderer) (format : String) : Bool := r.formats.contains (formatName format)

/-! ## 3. Rendering

A template sees the JSON form of the context, and the other templates by their names. -/

/-- What the templates of a renderer work with. -/
def setting (r : Renderer) (d : Disk) (c : Context) : Setting Changelog :=
  { data := c.toJson
    templates := fun name => r.templates.lookup name
    helpers := reportHelper? d }

/-- A context in a format, and what of the changelog is remembered after it. -/
def render (r : Renderer) (d : Disk) (log : Changelog) (format : String) (c : Context)
    (chance : Chance := {}) : Except ScanError String × Changelog :=
  let name := formatName format
  if name = "json" then (.ok (String.ofList (c.toJson.pretty 0 ++ ['\n'])), log)
  else match r.templates.lookup name with
    | none => (.error (.unknownFormat format), log)
    | some es =>
      match run (r.setting d c) chance name es log with
      | (.ok s, log) => (.ok s, log)
      | (.error i, log) => (.error (.render (i := i)), log)

end Renderer

end UpgradeScan
