/-
`Yaml/Tag.lean` -- tags, anchors and directives.

A tag has a handle and a suffix. The suffix is written with the characters of an address, and any
other byte as a percent sign and two hexadecimal digits.

What a handle stands for can be said by a directive, so a tag is only cut into its two parts here.
-/
import UpgradeScan.Number.Literal
import UpgradeScan.Text.Utf8
import UpgradeScan.Yaml.Character
import UpgradeScan.Yaml.Token

set_option autoImplicit false

namespace UpgradeScan.YamlText

/-! ## 1. Addresses

An address is read as bytes, which have to be a text together. -/

/-- A character of an address. Brackets and commas stand only in a tag within angle brackets. -/
def isAddress (wide : Bool) (c : Char) : Bool :=
  isWord c || ";/?:@&=+$.!~*\x27()".toList.contains c || (wide && ",[]".toList.contains c)

/-- The byte that a percent sign and two digits stand for. -/
def percent? : List Char → Option UInt8
  | '%' :: a :: b :: _ => (Number.ofDigits? 16 [a, b]).map UInt8.ofNat
  | _ => none

/-- The bytes of an address, and what follows it. The first argument counts the characters of
an escape that are still to be passed over. -/
def address (wide : Bool) : Nat → List Char → Option (Bytes × List Char)
  | _, [] => some ([], [])
  | n + 1, _ :: r => address wide n r
  | 0, c :: r =>
    if c = '%' then
      match percent? (c :: r) with
      | some b => (address wide 2 r).map fun (u, t) => (b :: u, t)
      | none => none
    else if isAddress wide c then
      (address wide 0 r).map fun (u, t) => (String.utf8EncodeChar c ++ u, t)
    else some ([], c :: r)

/-- An address of at least `least` characters. Escaped bytes have to be well-formed. -/
def addressText (wide : Bool) (least : Nat) (s : List Char) : Option (List Char × List Char) :=
  match address wide 0 s with
  | none => none
  | some (b, t) =>
    match Text.Utf8.decode? b with
    | some u => if u.length < least then none else some (u, t)
    | none => none

/-! ## 2. Tags

A tag stands in angle brackets as a whole, or begins with a handle. -/

/-- A tag handle: an exclamation mark, then perhaps a word and a second mark. -/
def handleText (s : List Char) : Option (List Char × List Char) :=
  match s with
  | '!' :: r =>
    let w := r.takeWhile isWord
    match r.drop w.length with
    | '!' :: t => some ('!' :: w ++ ['!'], t)
    | t => some ('!' :: w, t)
  | _ => none

/-- The handle is one that stands for something else. -/
def isHandle (h : List Char) : Bool := 2 ≤ h.length && h.getLast? == some '!'

/-- A tag, and what follows it. -/
def tag (s : List Char) : Option ((List Char × List Char) × List Char) :=
  match s with
  | '!' :: '<' :: r =>
    match addressText true 1 r with
    | some (u, '>' :: t) => some (([], u), t)
    | _ => none
  | _ =>
    match handleText s with
    | none => none
    | some (h, r) =>
      if isHandle h then (addressText false 1 r).map fun (u, t) => ((h, u), t)
      else
        (addressText false 0 r).map fun (u, t) =>
          let suffix := h.drop 1 ++ u
          if suffix = [] then (([], ['!']), t) else ((['!'], suffix), t)

/-- The text after a tag may go on: at a blank, a line end, or a comma within brackets. -/
def endsTag (flow : Bool) (s : List Char) : Bool :=
  atGap s || (flow && s.head? == some ',')

/-! ## 3. Anchors

The name of an anchor is one word. -/

/-- The name of an anchor or an alias, after its indicator. -/
def anchorName (s : List Char) : Option (List Char × List Char) :=
  let w := s.takeWhile isWord
  let t := s.drop w.length
  if w = [] then none
  else if atGap t || (t.head?.map fun c => "?:,]\x7d%@\x60".toList.contains c).getD false then
    some (w, t)
  else none

/-! ## 4. Directives

A directive gives a version or the meaning of a handle. There are no others. -/

/-- A number of a version: at most nine digits. -/
def versionNumber (s : List Char) : Option (Nat × List Char) :=
  let w := s.takeWhile Char.isDigit
  if 9 < w.length then none
  else (Number.ofDigits? 10 w).map (·, s.drop w.length)

/-- What a directive says, after its percent sign, and what follows on its line. -/
def directive (s : List Char) : Option (Token × List Char) :=
  let name := s.takeWhile isWord
  let t := s.drop name.length
  if name = [] ∨ !atGap t then none
  else
    let t := t.dropWhile isBlank
    if name = "YAML".toList then
      match versionNumber t with
      | some (major, '.' :: r) =>
        (versionNumber r).map fun (minor, r) => (.version major minor, r)
      | _ => none
    else if name = "TAG".toList then
      match handleText t with
      | none => none
      | some (h, r) =>
        if (h ≠ ['!'] ∧ !isHandle h) ∨ !(r.head?.map isBlank).getD false then none
        else match addressText true 1 (r.dropWhile isBlank) with
          | some (u, r) =>
            if atGap r then some (.handle (String.ofList h) (String.ofList u), r) else none
          | none => none
    else none

end UpgradeScan.YamlText
