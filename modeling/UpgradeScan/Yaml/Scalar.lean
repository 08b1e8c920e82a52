/-
`Yaml/Scalar.lean` -- the texts of the indented settings format.

A text is plain, quoted, or a block below an indicator. In the first two, blanks around a line end
are dropped, one line end becomes a blank, and of several all but the first stay; a block is cut at
its indentation, and its kind says whether single line ends stay. Each function gives the text and
what follows it.

Words and the gaps between them are read by turns, and what a gap becomes is known only when the
next word is there, since a gap at the end belongs to no text.
-/
import UpgradeScan.Number.Literal
import UpgradeScan.Yaml.Character

set_option autoImplicit false

namespace UpgradeScan.YamlText

/-! ## 1. Gaps

Folding is the same for plain and for quoted text. -/

/-- What line ends between two words become. -/
def foldBreaks : List Char → List Char
  | [] => []
  | b :: bs => if b = '\n' then if bs = [] then [' '] else bs else b :: bs

/-- What a gap between two words becomes. -/
def foldGap (gap : List Char) : List Char :=
  if gap.any isBreak then foldBreaks (gap.filter isBreak) else gap

/-- No tab stands in a gap at a column below `least` once a line has ended. -/
def gapIndented (least : Nat) : Option Nat → List Char → Bool
  | _, [] => true
  | column, c :: r =>
    if isBreak c then gapIndented least (some 0) r
    else match column with
      | none => gapIndented least none r
      | some n => !(c == '\t' && n < least) && gapIndented least (some (n + 1)) r

/-! ## 2. Plain text

A plain text ends where something else begins: a comment, a colon with a blank after it, a line that
is not indented enough, or, within brackets, one of their marks. -/

/-- The characters that end a word within brackets. -/
def isFlowMark (c : Char) : Bool := [',', '[', ']', '{', '}'].contains c

/-- A colon within brackets has to be followed by something else than a bracket. -/
def badColon (r : List Char) : Bool :=
  (r.head?.map fun c => isFlowMark c || c == '?').getD false

/-- One word of a plain text; none when a colon stands where it may not. -/
def word (flow : Bool) : List Char → Option (List Char)
  | [] => some []
  | c :: r =>
    if isGap c then some []
    else if flow && c == ':' && badColon r then none
    else if (c == ':' && atGap r) || (flow && isFlowMark c) then some []
    else (word flow r).map (c :: ·)

/-- A plain text. -/
structure Plain where
  text : List Char
  rest : List Char
  /-- A line has ended after its last word. -/
  broke : Bool

/-- The plain text at the front, which stands at `column`; its further lines are indented by
`least` at least, or stand within brackets. -/
def plain (flow : Bool) (least : Nat) : Nat → Nat → List Char → Option Plain
  | 0, _, s => some ⟨[], s, false⟩
  | n + 1, column, s =>
    if (column = 0 ∧ atMark s) ∨ s.head? = some '#' then some ⟨[], s, false⟩
    else match word flow s with
      | none => none
      | some w =>
        let t := s.drop w.length
        let gap := t.takeWhile isGap
        let next := columnAfter (column + w.length) gap
        if gap = [] then some ⟨w, t, false⟩
        else if !gapIndented least none gap then none
        else if !flow ∧ next < least then some ⟨w, t.drop gap.length, gap.any isBreak⟩
        else match plain flow least n next (t.drop gap.length) with
          | none => none
          | some p =>
            if p.text = [] then some ⟨w, p.rest, gap.any isBreak⟩
            else some { p with text := w ++ foldGap gap ++ p.text }

/-! ## 3. Quoted text

Between double quotes there are escapes, also for a line end. Between single ones there is only the
quote written twice. -/

/-- What a backslash and a letter stand for. -/
def letterEscape? (c : Char) : Option Char :=
  [('0', '\x00'), ('a', '\x07'), ('b', '\x08'), ('t', '\t'), ('\t', '\t'), ('n', '\n'),
    ('v', '\x0B'), ('f', '\x0C'), ('r', '\r'), ('e', '\x1B'), (' ', ' '), ('"', '"'),
    ('/', '/'), ('\\', '\\'), ('N', '\u0085'), ('_', '\u00A0'), ('L', '\u2028'),
    ('P', '\u2029')].lookup c

/-- The character that the first `k` hexadecimal digits name, and the length of the escape. -/
def numberEscape? (k : Nat) (s : List Char) : Option (Char × Nat) :=
  if s.length < k then none
  else
    match Number.ofDigits? 16 (s.take k) with
    | some n => if n.isValidChar then some (Char.ofNat n, k + 1) else none
    | none => none

/-- An escape after its backslash: the character it stands for, and its length. -/
def escape? : List Char → Option (Char × Nat)
  | [] => none
  | 'x' :: r => numberEscape? 2 r
  | 'u' :: r => numberEscape? 4 r
  | 'U' :: r => numberEscape? 8 r
  | c :: _ => (letterEscape? c).map (·, 1)

/-- The gap before the next word of a quoted text. -/
structure Gap where
  /-- Blanks before the first line end. -/
  blanks : List Char
  /-- The line ends; `none` as long as there is none. A line end after a backslash makes the
  list without being in it. -/
  breaks : Option (List Char)
  /-- Blanks and line ends without a backslash follow a line end with one. -/
  escaped : Bool
  /-- Nothing follows the last line end. -/
  atStart : Bool

/-- No gap. -/
def Gap.none : Gap := ⟨[], Option.none, false, false⟩

/-- The gap after a backslash at the end of a line. -/
def Gap.joined : Gap := ⟨[], some [], true, true⟩

/-- A gap with one more character. -/
def Gap.push (g : Gap) (c : Char) : Gap :=
  if isBreak c then { g with breaks := some (g.breaks.getD [] ++ [c]), atStart := true }
  else match g.breaks with
    | Option.none => { g with blanks := g.blanks ++ [c] }
    | some _ => { g with atStart := false }

/-- What a gap becomes. -/
def Gap.text (g : Gap) : List Char :=
  match g.breaks with
  | Option.none => g.blanks
  | some bs => if g.escaped then bs else foldBreaks bs

/-- A quoted text after its opening quote `q`. The first argument counts the characters of an
escape that are still to be passed over. Escapes are read between double quotes; between single
ones a quote is written twice. -/
def quoted (q : Char) : Nat → Gap → List Char → Option (List Char × List Char)
  | _, _, [] => none
  | n + 1, g, _ :: r => quoted q n g r
  | 0, g, c :: r =>
    if isGap c then quoted q 0 (g.push c) r
    else if g.atStart && atMark (c :: r) then none
    else if c = q then
      if q = '\'' ∧ r.head? = some q then
        (quoted q 1 Gap.none r).map fun (u, t) => (g.text ++ q :: u, t)
      else some (g.text, r)
    else if q = '"' ∧ c = '\\' then
      if (r.head?.map isBreak).getD false then
        (quoted q 1 Gap.joined r).map fun (u, t) => (g.text ++ u, t)
      else match escape? r with
        | some (e, k) => (quoted q k Gap.none r).map fun (u, t) => (g.text ++ e :: u, t)
        | none => none
    else (quoted q 0 Gap.none r).map fun (u, t) => (g.text ++ c :: u, t)

/-! ## 4. Blocks

A block has a header, which may say its indentation and what becomes of its end. Without the first
the indentation is that of its first line. -/

/-- What becomes of the line ends at the end of a block. -/
inductive Chomp where
  | strip
  | clip
  | keep
  deriving DecidableEq

/-- What follows the indicator of a block: the indentation, if it is given, and what becomes of
the end. -/
def blockHeader (s : List Char) : Option (Option Nat × Chomp × List Char) :=
  match chomp s with
  | (some c, r) =>
    match digit r with
    | none => none
    | some (d, r) => some (d, c, r)
  | (none, r) =>
    match digit r with
    | none => none
    | some (d, r) =>
      match d, chomp r with
      | some _, (some c, r) => some (d, c, r)
      | _, _ => some (d, .clip, r)
where
  /-- The sign for the end. -/
  chomp : List Char → Option Chomp × List Char
    | '+' :: r => (some .keep, r)
    | '-' :: r => (some .strip, r)
    | r => (none, r)
  /-- The digit for the indentation, which is not zero. -/
  digit : List Char → Option (Option Nat × List Char)
    | c :: r =>
      match Number.digit? 10 c with
      | some 0 => none
      | some d => some (some d, r)
      | none => some (none, c :: r)
    | [] => some (none, [])

/-- What is left after blanks, a comment and the end of the line. -/
def endLine (s : List Char) : Option (List Char) :=
  let s := s.dropWhile isBlank
  let s := if s.head? = some '#' then s.dropWhile fun c => !isBreak c else s
  if atBreak s then some (s.drop 1) else none

/-- The empty lines before the next line of a block. -/
structure Lead where
  breaks : List Char
  /-- The column of the next line. -/
  column : Nat
  /-- The greatest column of all of them. -/
  greatest : Nat
  rest : List Char

/-- Empty lines, and the blanks of the next one up to the indentation. No tab may stand among
them. -/
def emptyLines (indent : Option Nat) : Nat → Nat → List Char → Option Lead
  | column, greatest, [] => some ⟨[], column, max greatest column, []⟩
  | column, greatest, c :: r =>
    let inside := (indent.map fun n => decide (column < n)).getD true
    if inside && c == ' ' then emptyLines indent (column + 1) greatest r
    else if inside && c == '\t' then none
    else if isBreak c then
      (emptyLines indent 0 (max greatest column) r).map fun l =>
        { l with breaks := c :: l.breaks }
    else some ⟨[], column, max greatest column, c :: r⟩

/-- The line ends before a line of a block. In a folded block one line end between two lines
that begin with no blank becomes a blank. -/
def blockGap (folded afterBlank : Bool) (ending breaks : List Char) (s : List Char) :
    List Char :=
  if folded && ending == ['\n'] && !afterBlank && !(s.head?.map isBlank).getD false then
    if breaks = [] then [' '] else breaks
  else ending ++ breaks

/-- The lines of a block from the one that `lead` comes to. -/
def blockLines (folded : Bool) (indent : Nat) (chomp : Chomp) :
    Nat → Bool → List Char → Lead → Option (List Char × List Char)
  | 0, _, _, _ => none
  | n + 1, afterBlank, ending, lead =>
    let s := lead.rest
    if lead.column = indent ∧ s ≠ [] then
      let line := s.takeWhile fun c => !isBreak c
      let t := s.drop line.length
      match emptyLines (some indent) 0 0 (t.drop 1) with
      | none => none
      | some next =>
        let next := if t = [] then { next with column := lead.column + line.length } else next
        (blockLines folded indent chomp n ((s.head?.map isBlank).getD false) (t.take 1) next).map
          fun (u, rest) => (blockGap folded afterBlank ending lead.breaks s ++ line ++ u, rest)
    else
      let tail := match chomp with
        | .strip => []
        | .clip => ending
        | .keep => ending ++ lead.breaks
      some (tail, s)

/-- A block after its indicator, within lines that are indented by `outer`, or by nothing. -/
def block (folded : Bool) (outer : Option Nat) (s : List Char) :
    Option (List Char × List Char) :=
  match blockHeader s with
  | none => none
  | some (given, chomp, s) =>
    match endLine s with
    | none => none
    | some s =>
      let indent := given.map (· + outer.getD 0)
      match emptyLines indent 0 0 s with
      | none => none
      | some lead =>
        let least := match outer with
          | some n => n + 1
          | none => 1
        let indent := indent.getD (max lead.greatest least)
        blockLines folded indent chomp (s.length + 1) false [] lead

end UpgradeScan.YamlText
