/-
`Template/Parser.lean` -- elements built from the parts of a template.

First the blanks are settled: a tilde takes all blanks beside its tag, and a tag that stands alone
on its line, values apart, takes the line with it. Then blocks are closed: each needs the name it
was opened with.

Both go over the row of parts once. What a text loses is decided by the tags on its two sides, and
by nothing further away. A block takes the parts up to the end that belongs to it, and the blocks
inside of it are built first.
-/
import UpgradeScan.Template.Tag

set_option autoImplicit false

namespace UpgradeScan.Template

/-! ## 1. Blanks

A text has a start, after a tag, and an end, before one. The two are settled separately. -/

/-- The tag takes its line with it when it stands alone. -/
def Tag.takesLine : Tag → Bool
  | .value _ => false
  | _ => true

/-- The tag also takes the blanks before it. An embedded template keeps them as indentation. -/
def Tag.takesIndent : Tag → Bool
  | .value _ => false
  | .embed _ => false
  | _ => true

/-- The text without its first line end. -/
def dropLineEnd : List Char → List Char
  | '\r' :: '\n' :: r => r
  | '\n' :: r => r
  | s => s

/-- The text without the blanks at the end of its last line. -/
def dropIndent (s : List Char) : List Char := (s.reverse.dropWhile isIndent).reverse

/-- The start of a text after a tag: `tight` when a tilde takes the blanks, `line` when the tag
takes its line. -/
def settleStart (tight line : Bool) (s : List Char) : List Char :=
  if tight then Text.trimLeft s
  else if line then dropLineEnd (s.dropWhile isIndent)
  else s

/-- The end of a text before the next part. -/
def settleEnd (next : List Part) (s : List Char) : List Char :=
  match next with
  | .mark m alone _ :: _ =>
    let s := if m.tightBefore then Text.trimRight s else s
    if alone && m.tag.takesIndent then dropIndent s else s
  | _ => s

/-- The parts with their blanks settled. -/
def settle : Bool → Bool → List Part → List Part
  | _, _, [] => []
  | tight, line, .text s :: rest =>
    .text (settleEnd rest (settleStart tight line s)) :: settle tight false rest
  | tight, line, .mark m alone indent :: rest =>
    let tight' := match m.tag with
      | .comment => tight
      | _ => m.tightAfter
    .mark m alone indent :: settle tight' (if m.tag.takesLine then alone else line) rest

/-! ## 2. Blocks

Parts are taken from the front until one of them belongs to the block around: its end, or what
stands for its body otherwise. -/

/-- The name that the end of a block repeats. -/
def Call.name (c : Call) : String :=
  match c.head with
  | .word s => s
  | .path written _ => written
  | _ => ""

mutual

/-- Elements up to a part that belongs to the block around them. -/
def build : Nat → List Part → Except Stop (List Element × List Part)
  | 0, _ => .error .broken
  | _, [] => .ok ([], [])
  | n + 1, .text s :: rest => do
    let (es, rest) ← build n rest
    return (.text (String.ofList s) :: es, rest)
  | n + 1, .mark m alone indent :: rest =>
    match m.tag with
    | .value c => do
      let (es, rest) ← build n rest
      return (.value c :: es, rest)
    | .comment => build n rest
    | .define c => do
      let (es, rest) ← build n rest
      return (.define c none :: es, rest)
    | .embed c => do
      let (es, rest) ← build n rest
      let indent := if indent = [] then none else some (String.ofList indent)
      return (.embed c indent none :: es, rest)
    | .opening c names => do
      let (body, rest) ← build n rest
      let (otherwise, name, rest) ← buildTail n rest
      if name = c.name then
        let (es, rest) ← build n rest
        return (.block c names body otherwise :: es, rest)
      else .error .broken
    | .rawOpening c names =>
      match rest with
      | .text s :: .mark ⟨.rawClosing name, _, _⟩ _ _ :: rest =>
        if name = c.name then do
          let (es, rest) ← build n rest
          return (.block c names [.text (String.ofList s)] [] :: es, rest)
        else .error .broken
      | _ => .error .broken
    | .defineOpening c => do
      let (body, rest) ← build n rest
      match rest with
      | .mark ⟨.closing name true, _, _⟩ _ _ :: rest =>
        if name = c.name then
          let (es, rest) ← build n rest
          return (.define c (some body) :: es, rest)
        else .error .broken
      | _ => .error .broken
    | .embedOpening c => do
      let (body, rest) ← build n rest
      match rest with
      | .mark ⟨.closing name _, _, _⟩ _ _ :: rest =>
        if name = c.name then
          let (es, rest) ← build n rest
          return (.embed c none (some body) :: es, rest)
        else .error .broken
      | _ => .error .broken
    | .otherwise | .chain _ _ | .closing _ _ | .rawClosing _ =>
      .ok ([], .mark m alone indent :: rest)

/-- What stands for a body otherwise, and the name at the end of its block. -/
def buildTail : Nat → List Part → Except Stop (List Element × String × List Part)
  | 0, _ => .error .broken
  | n + 1, parts =>
    match parts with
    | .mark ⟨.closing name true, _, _⟩ _ _ :: rest => .ok ([], name, rest)
    | .mark ⟨.otherwise, _, _⟩ _ _ :: rest => do
      let (es, rest) ← build n rest
      match rest with
      | .mark ⟨.closing name true, _, _⟩ _ _ :: rest => return (es, name, rest)
      | _ => .error .broken
    | .mark ⟨.chain c names, _, _⟩ _ _ :: rest => do
      let (body, rest) ← build n rest
      let (otherwise, name, rest) ← buildTail n rest
      return ([.block c names body otherwise], name, rest)
    | _ => .error .broken

end

/-- The elements of a template. `none` when its text is not one. -/
def parse? (s : String) : Option (List Element) :=
  match cut (s.length + 1) [] s.toList with
  | .error _ => none
  | .ok parts =>
    match build (2 * parts.length + 2) (settle false false parts) with
    | .ok (es, []) => some es
    | _ => none

end UpgradeScan.Template
