/-
`Toml/Basic.lean` -- values of the key and value format for settings.

A table keeps its keys in the order in which they were written, and no key twice. Dates and times
are recognised but not kept: no setting is one.

The same holds for the value of a real number. That there is one matters, since a text is expected
in its place.
-/
import UpgradeScan.Number.Literal

set_option autoImplicit false

namespace UpgradeScan

/-- A number with a fraction or a power of ten, or one of the words for what is no number. -/
inductive TomlReal where
  | finite (x : Number.Binary64)
  | infinite (negative : Bool)
  | undefined
  deriving DecidableEq, Repr, Inhabited

/-- A value of the format. -/
inductive Toml where
  | text (s : String)
  | integer (n : Int)
  | real (x : TomlReal)
  | flag (b : Bool)
  /-- A date, a time, or both. -/
  | moment
  | list (items : List Toml)
  | table (entries : List (String × Toml))
  deriving Inhabited

namespace Toml

/-- What a table says of a key. -/
def entry? (k : String) (es : List (String × Toml)) : Option Toml := es.lookup k

/-- The text of a text value. -/
def text? : Toml → Option String
  | .text s => some s
  | _ => none

end Toml

end UpgradeScan
