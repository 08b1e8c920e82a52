/-
`Configuration/FromToml.lean` -- a configuration from a table of keys and values.

A text is needed wherever a text is meant; only the target version may be a number as well. A
section is a table, or a list with its values in the order of their names.

Every part is read by a function that gives nothing where the value has the wrong form, and one such
part makes the whole configuration unreadable. An entry that is not there is a different matter: it
is read as a missing one (`optional?`).
-/
import UpgradeScan.Configuration.Basic
import UpgradeScan.Number.Shortest
import UpgradeScan.Toml.Reader

set_option autoImplicit false

namespace UpgradeScan

namespace Toml

/-- A value that may be missing, read when it is there. -/
def optional? {α : Type} (read : Toml → Option α) (k : String) (es : List (String × Toml)) :
    Option (Option α) :=
  match es.lookup k with
  | none => some none
  | some v => (read v).map some

/-- The label of a version: a text, or a natural number of 64 bits. -/
def label? : Toml → Option String
  | .text s => some s
  | .integer n =>
    if 0 ≤ n ∧ n < (Nat.pow 2 64 : Int) then some (String.ofList (Number.digits n.toNat)) else none
  | _ => none

/-- The texts of a list of texts. -/
def texts? : Toml → Option (List String)
  | .list xs => xs.mapM text?
  | _ => none

/-- The entries of a section whose values have these names. A list has to hold the first
`needed` values; a date has entries of other names only. -/
def section? (names : List String) (needed : Nat) : Toml → Option (List (String × Toml))
  | .table es => some es
  | .list xs => if xs.length < needed then none else some (names.zip xs)
  | .moment => some []
  | _ => none

/-- The section about the documentation. -/
def resources? (v : Toml) : Option Resources :=
  match section? ["changelog_dir", "links_file"] 2 v with
  | none => none
  | some es =>
    match optional? text? "changelog_dir" es, optional? text? "links_file" es with
    | some c, some l => some ⟨c, l⟩
    | _, _ => none

/-- The section about the matchers. -/
def matchers? (v : Toml) : Option MatcherPlace :=
  match section? ["path"] 1 v with
  | none => none
  | some es => (optional? text? "path" es).map MatcherPlace.mk

/-- The section about the engine. -/
def launch? (v : Toml) : Option Launch :=
  match section? ["command", "args"] 1 v with
  | none => none
  | some es =>
    match optional? text? "command" es, optional? texts? "args" es with
    | some c, some a => some ⟨c, a.getD []⟩
    | _, _ => none

end Toml

/-- The configuration that a table says. -/
def Configuration.ofTable? (es : List (String × Toml)) : Option Configuration := do
  let target ← Toml.optional? Toml.label? "target" es
  let only ← Toml.optional? Toml.text? "only" es
  let indicators ← Toml.optional? Toml.text? "indicators" es
  let format ← Toml.optional? Toml.text? "format" es
  let templates ← Toml.optional? Toml.text? "template_path" es
  let resources ← Toml.optional? Toml.resources? "resources" es
  let matchers ← Toml.optional? Toml.matchers? "matchers" es
  let engine ← Toml.optional? Toml.launch? "engine" es
  return ⟨target, only, indicators, format, templates, resources, matchers, engine⟩

end UpgradeScan
