/-
`Yaml/Basic.lean` -- documents of the indented settings format.

A document is a tree of texts, sequences and mappings. A text remembers whether it was written
plainly, since only then it may mean something else than itself. A node with an anchor can be named
again further on; the name then stands in the tree, and the document says what it means.

What a text means is left open here. It depends on what is expected where it stands.
-/

set_option autoImplicit false

namespace UpgradeScan

/-- A node of a document. -/
inductive Yaml where
  | scalar (tag : Option String) (isPlain : Bool) (text : String)
  | sequence (tag : Option String) (items : List Yaml)
  | mapping (tag : Option String) (entries : List (Yaml × Yaml))
  /-- The node with the anchor of that number. -/
  | alias (anchor : Nat)
  deriving Inhabited

/-- A plain text that is empty, as a value that is left out. -/
def Yaml.empty : Yaml := .scalar none true ""

/-- A document. -/
structure YamlDocument where
  /-- The tree; `none` when the text holds no document. -/
  root : Option Yaml
  /-- The nodes that have an anchor, by its number. -/
  anchored : List (Nat × Yaml)
  deriving Inhabited

/-- The node that a node stands for. An alias names a text, a sequence or a mapping. -/
def YamlDocument.resolve (d : YamlDocument) : Yaml → Yaml
  | .alias n => (d.anchored.lookup n).getD (.alias n)
  | n => n

end UpgradeScan
