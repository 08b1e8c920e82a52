/-
`Yaml/Token.lean` -- the tokens of the indented settings format.

Indentation is made explicit: a block opens with a token of its own and closes with one. A key is
announced by a token before it, which is only known once the colon after it is met.

After this no column is looked at, and a document can be read like one with brackets.
-/

set_option autoImplicit false

namespace UpgradeScan.YamlText

/-- A token. -/
inductive Token where
  /-- The version that a document is written for. -/
  | version (major minor : Nat)
  /-- What a tag handle stands for. -/
  | handle (name meaning : String)
  | documentStart
  | documentEnd
  | openSequence
  | openMapping
  | close
  | openFlowSequence
  | closeFlowSequence
  | openFlowMapping
  | closeFlowMapping
  /-- An item of a block sequence. -/
  | item
  /-- A comma within brackets. -/
  | comma
  | key
  | value
  | alias (name : String)
  | anchor (name : String)
  | tag (handle suffix : String)
  | scalar (isPlain : Bool) (text : String)
  deriving DecidableEq, Repr

end UpgradeScan.YamlText
