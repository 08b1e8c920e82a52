/-
`Template/Tag.lean` -- a template cut into text and tags.

Text runs up to the next pair of opening braces that no backslash protects. A backslash directly
before the braces is dropped and the braces are text; of several backslashes one is dropped and the
braces open a tag. Every tag remembers whether a tilde asks for the blanks beside it to go, and
whether it stands alone on its line.

The result is a row of parts that are not nested yet, since which tags belong together is not a
matter of the cut. Blanks are only looked at here and not taken away: whether a tag takes its line
with it depends on what kind of tag it is and on its neighbours.

A tag is read by trying the kinds of tag one after the other, in a fixed order. What is read of a
tag is taken back when its end does not fit, and the next kind is tried from the same place.
-/
import UpgradeScan.Template.Term
import UpgradeScan.Text.Blank

set_option autoImplicit false

namespace UpgradeScan.Template

/-- The kinds of tag. -/
inductive Tag where
  | value (c : Call)
  | opening (c : Call) (names : List String)
  | rawOpening (c : Call) (names : List String)
  | rawClosing (name : String)
  | otherwise
  /-- An `otherwise` that opens a block of its own, closed together with the one around it. -/
  | chain (c : Call) (names : List String)
  /-- The end of a block; `plain` when the name could be that of a helper. -/
  | closing (name : String) (plain : Bool)
  | comment
  | define (c : Call)
  | defineOpening (c : Call)
  | embed (c : Call)
  | embedOpening (c : Call)
  deriving Inhabited

/-- A tag and what it asks for on its two sides. -/
structure Mark where
  tag : Tag
  tightBefore : Bool
  tightAfter : Bool
  deriving Inhabited

/-- A stretch of a template. -/
inductive Part where
  | text (s : List Char)
  | mark (m : Mark) (alone : Bool) (indent : List Char)
  deriving Inhabited

/-! ## 1. Text

What is text and what opens a tag. Only braces, and the backslashes before them, have a meaning
here. -/

/-- The braces that open a tag. -/
def openBraces : List Char := ['\x7b', '\x7b']

/-- The braces that close a tag. -/
def closeBraces : List Char := ['\x7d', '\x7d']

/-- The text begins with the word. -/
def begins (w s : List Char) : Bool := (Text.dropWord? w s).isSome

/-- How many characters after a backslash it protects; nothing when it is an ordinary one. -/
def protected? (r : List Char) : Option Nat :=
  if begins (openBraces ++ openBraces) r then some 4
  else if begins openBraces r then some 2
  else
    let more := r.takeWhile (· == '\\')
    if more ≠ [] ∧ begins openBraces (r.drop more.length) then some more.length else none

/-- Text up to `stop`, without the backslashes that protect, and what is left. The first
argument counts the characters that are protected. -/
def takeText (stop : List Char) : Nat → List Char → List Char × List Char
  | _, [] => ([], [])
  | n + 1, c :: r =>
    let (t, u) := takeText stop n r
    (c :: t, u)
  | 0, c :: r =>
    if begins stop (c :: r) then ([], c :: r)
    else match (if c = '\\' then protected? r else none) with
      | some k => takeText stop k r
      | none =>
        let (t, u) := takeText stop 0 r
        (c :: t, u)

/-! ## 2. Tags

One reading for each kind of tag, and the order in which they are tried. Inside the braces the rules
for terms hold. -/

/-- The tilde of an opening, and the inside. -/
def afterOpening (s : List Char) : Bool × List Char :=
  match skipGap s with
  | '~' :: r => (true, skipGap r)
  | r => (false, r)

/-- The end of a tag: a tilde or none, and the closing braces. -/
def readClosing (close s : List Char) : Piece Bool :=
  let (tight, r) := afterOpening s
  match expect close r with
  | .ok t => .ok (tight, t)
  | .error e => .error e

/-- A tag whose inside was read. -/
def finish (tightBefore : Bool) (close : List Char) (tag : Tag) (s : List Char) : Piece Mark :=
  match readClosing close s with
  | .ok (tightAfter, r) => .ok (⟨tag, tightBefore, tightAfter⟩, r)
  | .error e => .error e

/-- A tag with a sign after its opening, from what follows the sign. -/
def signed (sign : List Char) (s : List Char) (inside : List Char → Piece Tag) :
    Except Stop (Mark × List Char) := do
  let r ← expect openBraces s
  let (tight, r) := afterOpening r
  let r ← expect sign r
  let (tag, r) ← inside (skipGap r)
  finish tight closeBraces tag r

/-- `else`, or its sign. -/
def readElse (s : List Char) : Except Stop (List Char) :=
  match expect ['e', 'l', 's', 'e'] s with
  | .ok r => .ok r
  | .error _ => expect ['^'] s

/-- A line and the names after it. -/
def readOpening (f : Call → List String → Tag) (s : List Char) : Piece Tag :=
  match readLine s with
  | .error e => .error e
  | .ok (c, r) =>
    let (names, t) := readBlockNames r
    .ok (f c names, t)

/-- A call under a constructor. -/
def wrap (f : Call → Tag) (p : Piece Call) : Piece Tag :=
  match p with
  | .ok (c, r) => .ok (f c, r)
  | .error e => .error e

/-- The name at the end of a block. -/
def readClosingName (s : List Char) : Piece Tag :=
  let plain : Piece Tag := match readName s with
    | .ok (n, r) =>
      match readClosing closeBraces r with
      | .ok _ => .ok (.closing n true, r)
      | .error e => .error e
    | .error e => .error e
  orElse plain fun _ =>
    match runOf isEmbedChar s with
    | .ok (w, r) => .ok (.closing (String.ofList w) false, r)
    | .error e => .error e

/-- A comment: with dashes up to the closing dashes, else up to the first closing braces. -/
def readComment (s : List Char) : Piece Mark :=
  let rec upTo (w : List Char) : List Char → Option (List Char)
    | [] => none
    | c :: r =>
      match Text.dropWord? w (c :: r) with
      | some t => some t
      | none => upTo w r
  match expect (openBraces ++ ['!']) s with
  | .error e => .error e
  | .ok r =>
    let long := match Text.dropWord? ['-', '-'] r with
      | some t => upTo (['-', '-'] ++ closeBraces) t
      | none => none
    match long.or (upTo closeBraces r) with
    | some t => .ok (⟨.comment, false, false⟩, t)
    | none => .error .noMatch

/-- A value tag with one more brace on each side, the outer tilde outside or inside. -/
def readTriple (s : List Char) : Piece Mark :=
  let third : List Char := ['\x7b']
  let whole : Except Stop (Mark × List Char) := do
    let r ← expect (openBraces ++ third) s
    let (tight, r) := afterOpening r
    let (c, r) ← readValueCall r
    finish tight (closeBraces ++ ['\x7d']) (.value c) r
  let inner (_ : Unit) : Except Stop (Mark × List Char) := do
    let r ← expect openBraces s
    let (tight, r) := afterOpening r
    let r ← expect third r
    let (c, r) ← readValueCall (skipGap r)
    let r ← expect ['\x7d'] (skipGap r)
    finish tight closeBraces (.value c) r
  orElse whole inner

/-- A value tag with an ampersand: a path or a call in parentheses. -/
def readAmp (s : List Char) : Piece Mark :=
  signed ['&'] s fun r =>
    match orElse (readNested (enough r) r) (fun _ => readPath r) with
    | .ok (p, t) => .ok (.value ⟨p, [], []⟩, t)
    | .error e => .error e

/-- The first reading in a list that fits. -/
def firstOf (s : List Char) : List (List Char → Piece Mark) → Piece Mark
  | [] => .error .noMatch
  | f :: fs => orElse (f s) fun _ => firstOf s fs

/-- The tag at the start of the text, raw blocks apart. -/
def readTag (s : List Char) : Piece Mark :=
  firstOf s
    [fun s => signed [] s fun r => match readElse r with
        | .ok t => .ok (.otherwise, t)
        | .error e => .error e,
      fun s => signed [] s fun r => match readElse r with
        | .ok t => readOpening .chain (skipGap t)
        | .error e => .error e,
      fun s => signed [] s fun r => wrap .value (readValueCall r),
      readTriple,
      readAmp,
      fun s => signed ['#'] s (readOpening .opening),
      readComment,
      fun s => signed ['*'] s fun r => wrap .define (readLine r),
      fun s => signed ['#', '*'] s fun r => wrap .defineOpening (readLine r),
      fun s => signed ['>'] s fun r => wrap .embed (readEmbedLine r),
      fun s => signed ['#', '>'] s fun r => wrap .embedOpening (readEmbedLine r),
      fun s => signed ['/'] s readClosingName]

/-- The opening of a raw block. -/
def readRawOpening (s : List Char) : Except Stop (Mark × List Char) := do
  let r ← expect (openBraces ++ openBraces) s
  let (tight, r) := afterOpening r
  let (tag, r) ← readOpening .rawOpening r
  finish tight (closeBraces ++ closeBraces) tag r

/-- The end of a raw block. -/
def readRawClosing (s : List Char) : Except Stop (Mark × List Char) := do
  let r ← expect (openBraces ++ openBraces) s
  let (tight, r) := afterOpening r
  let r ← expect ['/'] r
  let (name, r) ← readName (skipGap r)
  finish tight (closeBraces ++ closeBraces) (.rawClosing name) r

/-! ## 3. Lines

A tag stands alone on its line when there are only blanks before it and behind it up to the line
ends, or the ends of the template. -/

/-- A blank within a line. -/
def isIndent (c : Char) : Bool := c == ' ' || c == '\t'

/-- A character that ends a line. -/
def isLineEnd (c : Char) : Bool := c == '\n' || c == '\r'

/-- Only blanks follow on the line, and the line ends. -/
def restIsBlank (after : List Char) : Bool :=
  match after.dropWhile isIndent with
  | c :: _ => isLineEnd c
  | [] => false

/-- Only blanks stand before on the line. The text is given from its end. -/
def startIsBlank (before : List Char) : Bool :=
  match before.dropWhile isIndent with
  | c :: _ => isLineEnd c
  | [] => true

/-- A tag between what stands before it, from its end, and what follows. -/
def place (m : Mark) (before after : List Char) : Part :=
  .mark m (restIsBlank after && startIsBlank before) (before.takeWhile isIndent).reverse

/-! ## 4. The cut

Text and tag by turns, until the template has ended. -/

/-- What was read of `s` when `r` is left, put in front of `before` from its end. -/
def advance (before s r : List Char) : List Char :=
  (s.take (s.length - r.length)).reverse ++ before

/-- All parts of a template. `n` bounds their number, `before` is the text read so far, from
its end. -/
def cut : Nat → List Char → List Char → Except Stop (List Part)
  | 0, _, _ => .error .broken
  | n + 1, before, s =>
    if s = [] then .ok []
    else if begins openBraces s then
      match readTag s with
      | .ok (m, r) => do
        let rest ← cut n (advance before s r) r
        return place m before r :: rest
      | .error .broken => .error .broken
      | .error .noMatch => do
        let (m, r) ← readRawOpening s
        let (t, u) := takeText (openBraces ++ openBraces) 0 (skipGap r)
        let (m', v) ← readRawClosing u
        let rest ← cut n (advance before s v) v
        return place m before r :: .text t :: place m' (advance before s u) v :: rest
    else do
      let (t, r) := takeText openBraces 0 s
      let rest ← cut n (advance before s r) r
      return .text t :: rest

end UpgradeScan.Template
