/-
`Yaml/Node.lean` -- from the tokens of a document to its tree.

The grammar looks at one token to choose, and every node but an empty one takes a token. What may be
left out becomes an empty plain text. A text holds one document at most.

The functions for sequences and mappings take the reader of a node as an argument, so each of them
can be read by itself, and the recursion is tied once, in `node`. Its first argument bounds how deep
nodes stand within each other.
-/
import UpgradeScan.Yaml.Basic
import UpgradeScan.Yaml.Scan

set_option autoImplicit false

namespace UpgradeScan.YamlText

/-- What is left of the tokens, and the names met so far. -/
structure Reading where
  tokens : List Token
  /-- The anchors by name, the last first, with their numbers. -/
  names : List (String × Nat)
  anchored : List (Nat × Yaml)
  /-- The tag handles and what they stand for. -/
  handles : List (String × String)

/-- A function that reads a node. -/
abbrev NodeReader := Reading → Option (Yaml × Reading)

namespace Reading

/-- The reading without its first token. -/
def next (r : Reading) : Reading := { r with tokens := r.tokens.drop 1 }

/-- A node, unless the next token is one of those before which it is left out. -/
def orEmpty (stops : List Token) (node : NodeReader) : NodeReader := fun r =>
  match r.tokens with
  | t :: _ => if stops.contains t then some (.empty, r) else node r
  | [] => none

/-! ## 1. Blocks

Sequences and mappings whose extent is given by their columns. The tokens that open and close them
have been put in before. -/

/-- The items of a block sequence. -/
def blockItems (node : NodeReader) : Nat → Reading → Option (List Yaml × Reading)
  | 0, _ => none
  | n + 1, r =>
    match r.tokens with
    | .item :: _ =>
      match orEmpty [.item, .close] node r.next with
      | some (x, r) => (blockItems node n r).map fun (xs, r) => (x :: xs, r)
      | none => none
    | .close :: _ => some ([], r.next)
    | _ => none

/-- The items of a block sequence that stands at the column of the mapping around it. -/
def levelItems (node : NodeReader) : Nat → Reading → Option (List Yaml × Reading)
  | 0, _ => none
  | n + 1, r =>
    match r.tokens with
    | .item :: _ =>
      match orEmpty [.item, .key, .value, .close] node r.next with
      | some (x, r) => (levelItems node n r).map fun (xs, r) => (x :: xs, r)
      | none => none
    | _ => some ([], r)

/-- The value of a key, which may be missing with its colon. -/
def valueOf (stops : List Token) (node : NodeReader) : NodeReader := fun r =>
  match r.tokens with
  | .value :: _ => orEmpty stops node r.next
  | _ => some (.empty, r)

/-- The entries of a block mapping. -/
def blockEntries (node : NodeReader) : Nat → Reading → Option (List (Yaml × Yaml) × Reading)
  | 0, _ => none
  | n + 1, r =>
    match r.tokens with
    | .key :: _ =>
      match orEmpty [.key, .value, .close] node r.next with
      | none => none
      | some (k, r) =>
        match valueOf [.key, .value, .close] node r with
        | some (v, r) => (blockEntries node n r).map fun (es, r) => ((k, v) :: es, r)
        | none => none
    | .close :: _ => some ([], r.next)
    | _ => none

/-! ## 2. Brackets

The same between brackets, where items are separated by commas and a single entry may stand for a
mapping. -/

/-- A single entry within a sequence in brackets. A key that is left out takes the token in its
place with it. -/
def flowPair (node : NodeReader) : NodeReader := fun r =>
  let key := match r.tokens with
    | t :: _ =>
      if [Token.value, .comma, .closeFlowSequence].contains t then some (.empty, r.next)
      else node r
    | [] => none
  match key with
  | none => none
  | some (k, r) =>
    (valueOf [.comma, .closeFlowSequence] node r).map fun (v, r) =>
      (.mapping none [(k, v)], r)

/-- An item of a sequence in brackets. -/
def flowItem (node : NodeReader) : NodeReader := fun r =>
  match r.tokens with
  | .key :: _ => flowPair node r.next
  | _ => node r

/-- An entry of a mapping in brackets. -/
def flowEntry (node : NodeReader) : Reading → Option ((Yaml × Yaml) × Reading) := fun r =>
  match r.tokens with
  | .key :: _ =>
    match orEmpty [.value, .comma, .closeFlowMapping] node r.next with
    | none => none
    | some (k, r) =>
      (valueOf [.comma, .closeFlowMapping] node r).map fun (v, r) => ((k, v), r)
  | _ => (node r).map fun (k, r) => ((k, .empty), r)

/-- What stands in brackets: items with commas between them, perhaps one at the end. -/
def inBrackets {α : Type} (closing : Token) (item : Reading → Option (α × Reading)) :
    Nat → Bool → Reading → Option (List α × Reading)
  | 0, _, _ => none
  | n + 1, first, r =>
    if r.tokens.head? = some closing then some ([], r.next)
    else
      let r? := if first then some r
        else if r.tokens.head? = some .comma then some r.next
        else none
      match r? with
      | none => none
      | some r =>
        if r.tokens.head? = some closing then some ([], r.next)
        else match item r with
          | some (x, r) => (inBrackets closing item n false r).map fun (xs, r) => (x :: xs, r)
          | none => none

/-! ## 3. Nodes

A node has properties and a content. An anchor has its number before the content is read. -/

/-- The properties of a node. -/
structure Properties where
  anchor : Option String
  tag : Option String

/-- The meaning of a tag; a handle has to be known. -/
def tagOf (r : Reading) (handle suffix : String) : Option String :=
  if handle = "" then some suffix else (r.handles.lookup handle).map (· ++ suffix)

/-- The properties at the front: an anchor and a tag in either order. -/
def properties (r : Reading) : Option (Properties × Reading) :=
  match r.tokens with
  | .anchor a :: .tag h s :: _ =>
    (r.tagOf h s).map fun t => (⟨some a, some t⟩, r.next.next)
  | .tag h s :: .anchor a :: _ =>
    (r.tagOf h s).map fun t => (⟨some a, some t⟩, r.next.next)
  | .anchor a :: _ => some (⟨some a, none⟩, r.next)
  | .tag h s :: _ => (r.tagOf h s).map fun t => (⟨none, some t⟩, r.next)
  | _ => some (⟨none, none⟩, r)

/-- The reading in which an anchor has a number. -/
def bind (a : Option String) (r : Reading) : Reading :=
  match a with
  | some a => { r with names := (a, r.names.length) :: r.names }
  | none => r

/-- A node with an anchor is kept. -/
def keep (number : Option Nat) (x : Yaml × Reading) : Yaml × Reading :=
  match number with
  | some n => (x.1, { x.2 with anchored := (n, x.1) :: x.2.anchored })
  | none => x

/-- The content of a node after its properties. Block content may not stand within brackets; a
block sequence may stand at the column of its mapping where `level` says so. -/
def content (node : Bool → Bool → NodeReader) (block level : Bool) (p : Properties)
    (r : Reading) : Option (Yaml × Reading) :=
  let n := r.tokens.length + 1
  match r.tokens with
  | .scalar isPlain s :: _ =>
    if p.tag = some "!" then some (.scalar none isPlain s, r.next)
    else some (.scalar p.tag isPlain s, r.next)
  | .openFlowSequence :: _ =>
    (inBrackets .closeFlowSequence (flowItem (node false false)) n true r.next).map
      fun (xs, r) => (.sequence p.tag xs, r)
  | .openFlowMapping :: _ =>
    (inBrackets .closeFlowMapping (flowEntry (node false false)) n true r.next).map
      fun (es, r) => (.mapping p.tag es, r)
  | t :: _ =>
    if level && t == .item then
      (levelItems (node true false) n r).map fun (xs, r) => (.sequence p.tag xs, r)
    else if block && t == .openSequence then
      (blockItems (node true false) n r.next).map fun (xs, r) => (.sequence p.tag xs, r)
    else if block && t == .openMapping then
      (blockEntries (node true true) n r.next).map fun (es, r) => (.mapping p.tag es, r)
    else omitted
  | [] => omitted
where
  /-- A node of properties only. -/
  omitted : Option (Yaml × Reading) :=
    if p.anchor.isSome || p.tag.isSome then some (.scalar p.tag true "", r) else none

/-- A node; the first argument bounds how deep nodes stand within each other. -/
def node : Nat → Bool → Bool → NodeReader
  | 0, _, _, _ => none
  | n + 1, block, level, r =>
    match r.tokens with
    | .alias a :: _ => (r.names.lookup a).map fun k => (.alias k, r.next)
    | _ =>
      match r.properties with
      | none => none
      | some (p, r) =>
        (content (node n) block level p (r.bind p.anchor)).map
          (keep (p.anchor.map fun _ => r.names.length))

/-! ## 4. Documents

Directives, a mark, one node, and the end. -/

/-- The version that a document asks for is one that is read here. -/
def isKnownVersion (major minor : Nat) : Bool := major == 1 && (minor == 1 || minor == 2)

/-- The directives at the front; each says a thing once. The flag says that a version was
given. -/
def directives : Bool → List (String × String) → List Token →
    Option (List (String × String) × List Token)
  | seen, hs, .version major minor :: ts =>
    if seen || !isKnownVersion major minor then none else directives true hs ts
  | seen, hs, .handle h m :: ts =>
    if (hs.lookup h).isSome then none else directives seen ((h, m) :: hs) ts
  | _, hs, ts => some (hs, ts)

/-- The handles that are known when no directive says otherwise. -/
def standardHandles : List (String × String) := [("!", "!"), ("!!", "tag:yaml.org,2002:")]

/-- The tree of a document whose mark, if it has one, is read. -/
def document (marked : Bool) (hs : List (String × String)) (ts : List Token) :
    Option YamlDocument :=
  let r : Reading := ⟨ts, [], [], hs ++ standardHandles⟩
  let isOmitted := marked && match ts with
    | [] | .documentStart :: _ | .documentEnd :: _ | .version _ _ :: _ | .handle _ _ :: _ => true
    | _ => false
  let x := if isOmitted then some (.empty, r) else node (ts.length + 1) true false r
  match x with
  | none => none
  | some (root, r) =>
    if r.tokens.all (· == .documentEnd) then some ⟨some root, r.anchored⟩ else none

end Reading

end UpgradeScan.YamlText

namespace UpgradeScan

/-- The document of a text; `none` when the text is not written in the format, or holds more
than one document. -/
def YamlDocument.parse? (s : String) : Option YamlDocument :=
  match YamlText.tokens? s.toList with
  | none => none
  | some [] => some ⟨none, []⟩
  | some ts =>
    match YamlText.Reading.directives false [] ts with
    | none => none
    | some (hs, .documentStart :: rest) => YamlText.Reading.document true hs rest
    | some (_, rest) =>
      if rest.length < ts.length then none else YamlText.Reading.document false [] ts

end UpgradeScan
