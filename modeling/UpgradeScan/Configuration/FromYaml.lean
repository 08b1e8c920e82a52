/-
`Configuration/FromYaml.lean` -- a configuration from an indented document.

Any text may stand where a text is meant, also one that would mean a number or a truth value; only
the words for nothing leave an entry out. A name that matters may occur once.

What a plain text means depends on where it stands. For a label of a version, one that could be a
natural number is read as one and shown as one, and other numbers and truth values are none; in
every other place the same text is taken as it is written. A text in quotes is always a text. A tag
is taken into account where it is given.

As with tables, a part of the wrong form makes the whole configuration unreadable, and a part that
is missing is read as missing.
-/
import UpgradeScan.Configuration.Basic
import UpgradeScan.Number.Shortest
import UpgradeScan.Yaml.Node
import UpgradeScan.Yaml.Word

set_option autoImplicit false

namespace UpgradeScan

namespace YamlDocument

/-! ## 1. Nodes

What a node is, as seen from what is expected at its place. -/

/-- The tag of the words for nothing. -/
def nullTag : String := "tag:yaml.org,2002:null"
/-- The tag of integers. -/
def integerTag : String := "tag:yaml.org,2002:int"
/-- The tags of values that are neither texts nor integers. -/
def otherTags : List String :=
  ["tag:yaml.org,2002:bool", "tag:yaml.org,2002:float", nullTag]

/-- A node stands for nothing. A text in quotes never does, and one with a tag only if the tag
says so; then it has to be one of the words for nothing. -/
def isNothing? : Yaml → Option Bool
  | .scalar _ false _ => some false
  | .scalar (some t) true s =>
    if t = nullTag then if YamlText.isNull s then some true else none else some false
  | .scalar none true s => some (s == "" || YamlText.isNull s)
  | _ => some false

/-- The text of a node. -/
def text? (d : YamlDocument) (n : Yaml) : Option String :=
  match d.resolve n with
  | .scalar _ _ s => some s
  | _ => none

/-- The label of a version that an integer is: a natural number of 64 bits. -/
def numberLabel? (n : Int) : Option String :=
  if 0 ≤ n ∧ n < (Nat.pow 2 64 : Int) then some (String.ofList (Number.digits n.toNat)) else none

/-- The label of a version: a text, or a natural number. A plain text that means something else
is none. -/
def label? (d : YamlDocument) (n : Yaml) : Option String :=
  match d.resolve n with
  | .scalar (some t) _ s =>
    if t.toList.head? = some '!' ∨ otherTags.contains t then none
    else if t = integerTag then
      match YamlText.integer? s.toList with
      | some n => numberLabel? n
      | none => none
    else some s
  | .scalar none false s => some s
  | .scalar none true s =>
    if YamlText.isTruth s then none
    else match YamlText.integer? s.toList with
      | some n => numberLabel? n
      | none => if YamlText.isReal s.toList then none else some s
  | _ => none

/-- A plain text that is empty, which stands for a section or a list without anything. -/
def isBlank : Yaml → Bool
  | .scalar _ true s => s == ""
  | _ => false

/-- The texts of a sequence of texts. -/
def texts? (d : YamlDocument) (n : Yaml) : Option (List String) :=
  match d.resolve n with
  | .sequence _ xs => xs.mapM d.text?
  | n => if isBlank n then some [] else none

/-- The names of entries with their values; every name is a text. -/
def named? (d : YamlDocument) : List (Yaml × Yaml) → Option (List (String × Yaml))
  | [] => some []
  | (k, v) :: rest =>
    match d.text? k, named? d rest with
    | some k, some es => some ((k, v) :: es)
    | _, _ => none

/-- The entries of a section. -/
def section? (d : YamlDocument) (n : Yaml) : Option (List (String × Yaml)) :=
  match d.resolve n with
  | .mapping _ es => d.named? es
  | n => if isBlank n then some [] else none

/-! ## 2. Entries

A section is a list of entries, in which a name may be looked for more than once. To find it twice
is refused only when the name is one that is asked for. -/

/-- The value of a name that may be missing but does not occur twice. -/
def entry? (k : String) (es : List (String × Yaml)) : Option (Option Yaml) :=
  match es.filter (·.1 == k) with
  | [] => some none
  | [e] => some (some e.2)
  | _ => none

/-- An entry that may be missing or stand for nothing, read when it is there. -/
def optional? {α : Type} (d : YamlDocument) (read : Yaml → Option α) (k : String)
    (es : List (String × Yaml)) : Option (Option α) :=
  match entry? k es with
  | none => none
  | some none => some none
  | some (some n) =>
    match isNothing? (d.resolve n) with
    | none => none
    | some true => some none
    | some false => (read n).map some

/-! ## 3. Sections

One function for each section, and the document as a whole. -/

/-- The section about the documentation. -/
def resources? (d : YamlDocument) (n : Yaml) : Option Resources := do
  let es ← d.section? n
  let changelog ← d.optional? d.text? "changelog_dir" es
  let links ← d.optional? d.text? "links_file" es
  return ⟨changelog, links⟩

/-- The section about the matchers. -/
def matchers? (d : YamlDocument) (n : Yaml) : Option MatcherPlace := do
  let es ← d.section? n
  let path ← d.optional? d.text? "path" es
  return ⟨path⟩

/-- The section about the engine. The arguments are a sequence wherever they are given. -/
def launch? (d : YamlDocument) (n : Yaml) : Option Launch := do
  let es ← d.section? n
  let program ← d.optional? d.text? "command" es
  let arguments ← match entry? "args" es with
    | none => none
    | some none => some []
    | some (some n) => d.texts? n
  return ⟨program, arguments⟩

end YamlDocument

/-- The configuration that a document says. -/
def Configuration.ofDocument? (d : YamlDocument) : Option Configuration := do
  let es ← match d.root with
    | none => some []
    | some n => d.section? n
  let target ← d.optional? d.label? "target" es
  let only ← d.optional? d.text? "only" es
  let indicators ← d.optional? d.text? "indicators" es
  let format ← d.optional? d.text? "format" es
  let templates ← d.optional? d.text? "template_path" es
  let resources ← d.optional? d.resources? "resources" es
  let matchers ← d.optional? d.matchers? "matchers" es
  let engine ← d.optional? d.launch? "engine" es
  return ⟨target, only, indicators, format, templates, resources, matchers, engine⟩

end UpgradeScan
