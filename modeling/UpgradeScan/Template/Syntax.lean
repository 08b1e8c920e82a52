/-
`Template/Syntax.lean` -- what a template consists of.

A template is a list of elements: text that is copied, tags that put a value in their place, blocks
around other elements, and calls of other templates. A tag names a value by a path through the data,
or a helper with arguments.

Elements hold elements, and terms hold terms, but no term holds an element. So what is defined on
terms comes first, and what is defined on elements uses it; both are structural. A path keeps the
text it was written with, because a word of one part can be the name of a helper as well as a path,
and which of the two it is depends on the helpers there are.
-/
import UpgradeScan.Json.Basic

set_option autoImplicit false

namespace UpgradeScan.Template

/-- A step of a path through the data. -/
inductive Step where
  /-- The data as a whole. -/
  | root
  /-- A value that a block sets for its body. -/
  | own
  /-- The block around the current one. -/
  | up
  /-- A member or an item. -/
  | name (s : String)
  deriving DecidableEq, Repr, Inhabited

/-- What stands for a value: in the first place of a tag, or as an argument. -/
inductive Term where
  /-- A bare word in the first place of a tag with arguments. -/
  | word (s : String)
  /-- A path, as written and in steps. -/
  | path (written : String) (steps : List Step)
  | literal (v : Json)
  /-- A call in parentheses. -/
  | call (head : Term) (args : List Term) (named : List (String × Term))
  deriving Inhabited

/-- The inside of a tag: what is called, and with what. -/
structure Call where
  head : Term
  args : List Term
  named : List (String × Term)
  deriving Inhabited

/-- One part of a template. -/
inductive Element where
  /-- Text that is copied. -/
  | text (s : String)
  /-- A value, or what a helper answers. -/
  | value (c : Call)
  /-- A block with names for its values, its body, and what stands for it otherwise. -/
  | block (c : Call) (names : List String) (body otherwise : List Element)
  /-- Another template, indented; its own body when there is no other of that name. -/
  | embed (c : Call) (indent : Option String) (body : Option (List Element))
  /-- A definition that applies from here on. -/
  | define (c : Call) (body : Option (List Element))
  deriving Inhabited

end UpgradeScan.Template
