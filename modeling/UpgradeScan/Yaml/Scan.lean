/-
`Yaml/Scan.lean` -- from the characters of a document to its tokens.

Between two tokens four things are remembered: the columns at which the open blocks began; for every
open bracket the place where a key may have begun; whether a key may begin here; and the tokens so
far. A colon makes a key of what began at the remembered place, so its token, and that of a mapping
that begins with it, are put in there. A key has to end on its line and within 1024 characters; one
that stands at the column of its block has to be a key.

All of it is one state (`Scan`), and every kind of token is a function from one state to the next. A
function that gives nothing refuses the document. The tokens are kept in reverse, the last one
first, and where one has to be put in before others, the place is given by how many there were.
-/
import UpgradeScan.Yaml.Scalar
import UpgradeScan.Yaml.Tag

set_option autoImplicit false

namespace UpgradeScan.YamlText

/-! ## 1. The state

The text that is left, where in the document it begins, and what is remembered. -/

/-- A place at which a key may have begun. -/
structure Mark where
  /-- The number of tokens before it. -/
  before : Nat
  line : Nat
  column : Nat
  index : Nat
  /-- What stands there can only be a key. -/
  required : Bool

/-- What is remembered between two tokens. -/
structure Scan where
  rest : List Char
  line : Nat
  column : Nat
  index : Nat
  /-- The columns of the open blocks, the innermost first. -/
  blocks : List Nat
  /-- Where a key may have begun, within each open bracket, the innermost first. -/
  marks : List (Option Mark)
  /-- Where a key may have begun, outside all brackets. -/
  mark : Option Mark
  keyAllowed : Bool
  /-- The tokens, the last first. -/
  tokens : List Token

namespace Scan

/-- The state before the first character. -/
def ofText (s : List Char) : Scan := ⟨s, 0, 0, 0, [], [], none, true, []⟩

/-- Some bracket is open. -/
def inFlow (z : Scan) : Bool := !z.marks.isEmpty

/-- One character further. -/
def advance (z : Scan) : Scan :=
  match z.rest with
  | [] => z
  | c :: r =>
    if isBreak c then { z with rest := r, line := z.line + 1, column := 0, index := z.index + 1 }
    else { z with rest := r, column := z.column + 1, index := z.index + 1 }

/-- Some characters further. -/
def skip : Nat → Scan → Scan
  | 0, z => z
  | n + 1, z => skip n z.advance

/-- Further to a text that the rest ends with. -/
def skipTo (rest : List Char) (z : Scan) : Scan := z.skip (z.rest.length - rest.length)

/-- The state with one more token. -/
def emit (t : Token) (z : Scan) : Scan := { z with tokens := t :: z.tokens }

/-- The tokens with one put in after the first `n`. -/
def insertToken (n : Nat) (t : Token) (z : Scan) : Scan :=
  let k := z.tokens.length - n
  { z with tokens := z.tokens.take k ++ t :: z.tokens.drop k }

/-! ## 2. Where a key may have begun

Each bracket has its own place. It is set when something begins that could be a key, and forgotten
when it turns out to be none. At a place where only a key can stand that is a fault. -/

/-- The place that counts: that of the innermost bracket. -/
def current (z : Scan) : Option Mark :=
  match z.marks with
  | m :: _ => m
  | [] => z.mark

/-- The state with another place of the innermost bracket. -/
def setCurrent (m : Option Mark) (z : Scan) : Scan :=
  match z.marks with
  | _ :: ms => { z with marks := m :: ms }
  | [] => { z with mark := m }

/-- A place is forgotten; one where only a key can stand may not be. -/
def forget (z : Scan) : Option Scan :=
  match z.current with
  | some m => if m.required then none else some (z.setCurrent none)
  | none => some z

/-- This place is remembered if a key may begin here. -/
def remember (z : Scan) : Option Scan :=
  if z.keyAllowed then
    let required := !z.inFlow && z.blocks.head? == some z.column
    z.forget.map fun z =>
      z.setCurrent (some ⟨z.tokens.length, z.line, z.column, z.index, required⟩)
  else some z

/-- The place is too far back for a key that ends here. -/
def isStale (z : Scan) (m : Mark) : Bool := m.line < z.line || m.index + 1024 < z.index

/-- A place that is not too far back; one where only a key can stand may not be. -/
def fresh? (z : Scan) : Option Mark → Option (Option Mark)
  | none => some none
  | some m =>
    if z.isStale m then if m.required then none else some none
    else some (some m)

/-- Places that are too far back are forgotten. -/
def dropStale (z : Scan) : Option Scan :=
  match z.fresh? z.mark, z.marks.mapM z.fresh? with
  | some m, some ms => some { z with mark := m, marks := ms }
  | _, _ => none

/-! ## 3. Blocks

A block opens with the first token at a new column, and closes when a token stands further to the
left. In brackets columns do not count. -/

/-- A block opens at a column that is greater than that of the innermost one. Its token goes
after the first `n`. Brackets know no blocks. -/
def openBlock (column n : Nat) (t : Token) (z : Scan) : Scan :=
  let opens := match z.blocks with
    | b :: _ => b < column
    | [] => true
  if !z.inFlow && opens then
    { z with blocks := column :: z.blocks }.insertToken n t
  else z

/-- The blocks that began at a greater column close; without a column all do. -/
def closeBlocks (column : Option Nat) (z : Scan) : Scan :=
  if z.inFlow then z
  else
    let closing := z.blocks.takeWhile fun b => (column.map fun n => decide (n < b)).getD true
    { z with
      blocks := z.blocks.drop closing.length
      tokens := closing.map (fun _ => Token.close) ++ z.tokens }

/-! ## 4. Between tokens

Blanks, line ends and comments. They also decide whether a key may begin. -/

/-- The number of characters before the next token, and whether a line ended among them. Tabs
count as blanks where no key may begin, and within brackets. -/
def voidLength (flow : Bool) : Bool → Bool → List Char → Nat
  | _, _, [] => 0
  | keyAllowed, inComment, c :: r =>
    if isBreak c then voidLength flow (keyAllowed || !flow) false r + 1
    else if inComment then voidLength flow keyAllowed true r + 1
    else if c = ' ' ∨ (c = '\t' ∧ (flow ∨ !keyAllowed)) then
      voidLength flow keyAllowed false r + 1
    else if c = '#' then voidLength flow keyAllowed true r + 1
    else 0

/-- The state at the next token. Outside brackets a key may begin on a new line. A byte order
mark at the very front is passed over. -/
def toToken (z : Scan) : Scan :=
  let z := if z.index = 0 ∧ z.rest.head? = some '\uFEFF' then z.advance else z
  let k := voidLength z.inFlow z.keyAllowed false z.rest
  let allowed := z.keyAllowed || (!z.inFlow && (z.rest.take k).any isBreak)
  { z.skip k with keyAllowed := allowed }

/-! ## 5. Tokens

One function for each kind of token, and the choice between them by the next characters. -/

/-- A bracket opens. -/
def openFlow (t : Token) (z : Scan) : Option Scan :=
  z.remember.map fun z =>
    ({ z with marks := none :: z.marks, keyAllowed := true }.advance).emit t

/-- A bracket closes. -/
def closeFlow (t : Token) (z : Scan) : Option Scan :=
  z.forget.map fun z =>
    ({ z with marks := z.marks.drop 1, keyAllowed := false }.advance).emit t

/-- A comma. -/
def comma (z : Scan) : Option Scan :=
  z.forget.map fun z => ({ z with keyAllowed := true }.advance).emit .comma

/-- The dash of an item. -/
def item (z : Scan) : Option Scan :=
  if !z.inFlow && !z.keyAllowed then none
  else
    (z.openBlock z.column z.tokens.length .openSequence).forget.map fun z =>
      ({ z with keyAllowed := true }.advance).emit .item

/-- The question mark before a key. -/
def complexKey (z : Scan) : Option Scan :=
  if !z.inFlow && !z.keyAllowed then none
  else
    (z.openBlock z.column z.tokens.length .openMapping).forget.map fun z =>
      ({ z with keyAllowed := !z.inFlow }.advance).emit .key

/-- The colon before a value. -/
def value (z : Scan) : Option Scan :=
  match z.current with
  | some m =>
    let z := (z.insertToken m.before .key).openBlock m.column m.before .openMapping
    let z := { z.setCurrent none with keyAllowed := false }
    some (z.advance.emit .value)
  | none =>
    if !z.inFlow && !z.keyAllowed then none
    else
      let z := z.openBlock z.column z.tokens.length .openMapping
      some ({ z with keyAllowed := !z.inFlow }.advance.emit .value)

/-- A name after an indicator. -/
def named (t : String → Token) (z : Scan) : Option Scan :=
  match z.remember with
  | none => none
  | some z =>
    match anchorName (z.rest.drop 1) with
    | some (w, r) =>
      some (({ z with keyAllowed := false }.skipTo r).emit (t (String.ofList w)))
    | none => none

/-- A tag. -/
def tagged (z : Scan) : Option Scan :=
  match z.remember with
  | none => none
  | some z =>
    match tag z.rest with
    | some ((h, u), r) =>
      if endsTag z.inFlow r then
        some (({ z with keyAllowed := false }.skipTo r).emit
          (.tag (String.ofList h) (String.ofList u)))
      else none
    | none => none

/-- A block of text. -/
def blockText (folded : Bool) (z : Scan) : Option Scan :=
  match z.forget with
  | none => none
  | some z =>
    match block folded z.blocks.head? (z.rest.drop 1) with
    | some (u, r) =>
      some (({ z with keyAllowed := true }.skipTo r).emit (.scalar false (String.ofList u)))
    | none => none

/-- A quoted text. -/
def quotedText (q : Char) (z : Scan) : Option Scan :=
  match z.remember with
  | none => none
  | some z =>
    match quoted q 0 Gap.none (z.rest.drop 1) with
    | some (u, r) =>
      some (({ z with keyAllowed := false }.skipTo r).emit (.scalar false (String.ofList u)))
    | none => none

/-- A plain text. After one that ends at a line end a key may begin. -/
def plainText (z : Scan) : Option Scan :=
  match z.remember with
  | none => none
  | some z =>
    let least := match z.blocks.head? with
      | some b => b + 1
      | none => 0
    match plain z.inFlow least (z.rest.length + 1) z.column z.rest with
    | some p =>
      some (({ z with keyAllowed := p.broke }.skipTo p.rest).emit
        (.scalar true (String.ofList p.text)))
    | none => none

/-- The blocks close and no key is begun, as before a mark between documents. -/
def endDocument (z : Scan) : Option Scan :=
  (z.closeBlocks none).forget.map fun z => { z with keyAllowed := false }

/-- A directive, up to the end of its line. -/
def directiveLine (z : Scan) : Option Scan :=
  match z.endDocument with
  | none => none
  | some z =>
    match directive (z.rest.drop 1) with
    | none => none
    | some (t, r) => (endLine r).map fun r => (z.skipTo r).emit t

/-- A mark between documents. -/
def documentMark (t : Token) (z : Scan) : Option Scan :=
  z.endDocument.map fun z => (z.skip 3).emit t

/-- A plain text begins with this character, before these. -/
def beginsPlain (flow : Bool) (c : Char) (r : List Char) : Bool :=
  !("-?:,[]\x7b\x7d#&*!|>\x27\"%@\x60".toList.contains c || isGap c) ||
    (c == '-' && !(r.head?.map isBlank).getD false) ||
    (!flow && (c == '?' || c == ':') && !atGap r)

/-- The next token, which begins here. -/
def token (z : Scan) (c : Char) (r : List Char) : Option Scan :=
  if z.column = 0 ∧ c = '%' then z.directiveLine
  else if z.column = 0 ∧ hasMark '-' z.rest then z.documentMark .documentStart
  else if z.column = 0 ∧ hasMark '.' z.rest then z.documentMark .documentEnd
  else if c = '[' then z.openFlow .openFlowSequence
  else if c = '{' then z.openFlow .openFlowMapping
  else if c = ']' then z.closeFlow .closeFlowSequence
  else if c = '}' then z.closeFlow .closeFlowMapping
  else if c = ',' then z.comma
  else if c = '-' ∧ atGap r then z.item
  else if c = '?' ∧ (z.inFlow ∨ atGap r) then z.complexKey
  else if c = ':' ∧ (z.inFlow ∨ atGap r) then z.value
  else if c = '*' then z.named .alias
  else if c = '&' then z.named .anchor
  else if c = '!' then z.tagged
  else if c = '|' ∧ !z.inFlow then z.blockText false
  else if c = '>' ∧ !z.inFlow then z.blockText true
  else if c = '\'' ∨ c = '"' then z.quotedText c
  else if beginsPlain z.inFlow c r then z.plainText
  else none

/-- All tokens. Each takes at least one character, which bounds their number. -/
def run : Nat → Scan → Option (List Token)
  | 0, _ => none
  | n + 1, z =>
    match z.toToken.dropStale with
    | none => none
    | some z =>
      let z := z.closeBlocks (some z.column)
      match z.rest with
      | [] => z.endDocument.map fun z => z.tokens.reverse
      | c :: r =>
        match z.token c r with
        | some z => run n z
        | none => none

end Scan

/-- The tokens of a text; `none` when it is not written in the format. -/
def tokens? (s : List Char) : Option (List Token) :=
  if s.all isAllowed then
    let s := oneLineEnd (Text.dropMark s)
    Scan.run (s.length + 1) (Scan.ofText s)
  else none

end UpgradeScan.YamlText
