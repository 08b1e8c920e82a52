/-
`Template/Term.lean` -- the inside of a tag, read from text.

A grammar of ordered choice: alternatives are tried in turn and the first that fits is taken, so the
order of the choices is part of the rule. Blanks may stand between the parts of a tag, not inside a
path or a literal word. A literal that has the shape of one but stands for no value ends the reading
of the whole template.

There are accordingly two ways not to read something (`Stop`). A piece that does not fit leaves the
other choices open, one that is wrong closes them. Every reading takes a text and gives a piece with
what is left of it.

Calls stand inside of calls, so the readings of arguments go through one another. Their first
argument is a bound on the parts of a text, for which its length is enough (`enough`).
-/
import UpgradeScan.Json.Reader
import UpgradeScan.Template.Syntax
import UpgradeScan.Text.Split

set_option autoImplicit false

namespace UpgradeScan.Template

/-- Why a piece was not read. -/
inductive Stop where
  /-- The text does not have this shape; another alternative may fit. -/
  | noMatch
  /-- The template is wrong. -/
  | broken
  deriving DecidableEq, Repr

/-- A piece and what is left, or why not. -/
abbrev Piece (α : Type) := Except Stop (α × List Char)

/-- The second reading when the first does not fit. -/
def orElse {α : Type} (a : Piece α) (b : Unit → Piece α) : Piece α :=
  match a with
  | .error .noMatch => b ()
  | r => r

/-! ## 1. Characters

What may stand between parts, and what a name is made of. -/

/-- The blanks between the parts of a tag. -/
def isGap (c : Char) : Bool := c == ' ' || c == '\t' || c == '\n' || c == '\r'

/-- What is left after blanks. -/
def skipGap (s : List Char) : List Char := s.dropWhile isGap

/-- The characters of a name: ASCII letters and digits, `_`, `-`, `$`, and everything beyond
ASCII. -/
def isNameChar (c : Char) : Bool :=
  c.isAlphanum || c == '_' || c == '-' || c == '$' || 0x80 ≤ c.toNat

/-- The characters of the name of an embedded template. -/
def isEmbedChar (c : Char) : Bool :=
  c.isAlphanum || c == '_' || c == '-' || c == '/' || c == '.' || 0x80 ≤ c.toNat

/-- What is left after a fixed text. -/
def expect (w : List Char) (s : List Char) : Except Stop (List Char) :=
  match Text.dropWord? w s with
  | some r => .ok r
  | none => .error .noMatch

/-- A longest run of characters, at least one. -/
def runOf (p : Char → Bool) (s : List Char) : Piece (List Char) :=
  match s.takeWhile p with
  | [] => .error .noMatch
  | w => .ok (w, s.dropWhile p)

/-- A name. -/
def readName (s : List Char) : Piece String :=
  match runOf isNameChar s with
  | .ok (w, r) => .ok (String.ofList w, r)
  | .error e => .error e

/-- The text does not go on with a character of a name. -/
def atNameEnd (s : List Char) : Bool :=
  match s with
  | [] => true
  | c :: _ => !isNameChar c

/-! ## 2. Paths

A path begins outside, at the root or in a block further out, or at the current place. Then come its
steps, with a separator before each. -/

/-- A separator of a path. -/
def isSeparator (c : Char) : Bool := c == '/' || c == '.'

/-- An optional fixed beginning followed by a separator. -/
def optionalLead (w : List Char) (s : List Char) : Option (List Char) :=
  match Text.dropWord? w s with
  | some (c :: r) => if isSeparator c then some r else none
  | _ => none

/-- One step: a name, or any text between brackets. The name `this` is no step. -/
def readStep (s : List Char) : Piece (List Step) :=
  let named (w : List Char) : List Step :=
    if w = ['t', 'h', 'i', 's'] then [] else [.name (String.ofList w)]
  match s with
  | '[' :: r =>
    match r.dropWhile (· != ']') with
    | ']' :: t => .ok (named (r.takeWhile (· != ']')), t)
    | _ => .error .noMatch
  | s =>
    match runOf isNameChar s with
    | .ok (w, r) => .ok (named w, r)
    | .error e => .error e

/-- Leading steps out of blocks. -/
def readUps : Nat → List Char → List Step × List Char
  | 0, s => ([], s)
  | n + 1, s =>
    match optionalLead ['.', '.'] s with
    | some r =>
      let (us, t) := readUps n r
      (.up :: us, t)
    | none => ([], s)

/-- Further steps, each after a separator. -/
def readSteps : Nat → List Char → List Step × List Char
  | 0, s => ([], s)
  | n + 1, s =>
    match s with
    | [] => ([], [])
    | c :: r =>
      if isSeparator c then
        match readStep r with
        | .ok (st, t) =>
          let (sts, u) := readSteps n t
          (st ++ sts, u)
        | .error _ => ([], s)
      else ([], s)

/-- A path. -/
def readPath (s : List Char) : Piece Term :=
  let s₁ := match optionalLead ['t', 'h', 'i', 's'] s with
    | some r => r
    | none => (Text.dropWord? ['.', '/'] s).getD s
  let (root, s₂) := match optionalLead ['@', 'r', 'o', 'o', 't'] s₁ with
    | some r => ([Step.root], r)
    | none => ([], s₁)
  let (own, s₃) := match s₂ with
    | '@' :: r => ([Step.own], r)
    | r => ([], r)
  let (ups, s₄) := readUps s₃.length s₃
  match readStep s₄ with
  | .error e => .error e
  | .ok (first, s₅) =>
    let (rest, s₆) := readSteps s₅.length s₅
    let written := String.ofList (s.take (s.length - s₆.length))
    .ok (.path written (root ++ own ++ ups ++ first ++ rest), s₆)

/-! ## 3. Literals

Whether something is a literal is decided from its shape alone, and its value is read afterwards, as
a JSON value. So the two can disagree, and then the template is refused. -/

/-- What follows a quoted string, after its opening quote `q`. -/
def stringEnd (q : Char) : Nat → List Char → Option (List Char)
  | _, [] => none
  | n + 1, _ :: r => stringEnd q n r
  | 0, c :: r =>
    if c = q then some r
    else if c = '\\' then
      match r with
      | [] => none
      | e :: t =>
        if e = 'u' then
          if 4 ≤ (t.take 4).length ∧ (t.take 4).all (fun h => (h.isDigit || ('a' ≤ h && h ≤ 'f') ||
              ('A' ≤ h && h ≤ 'F'))) then stringEnd q 5 r
          else none
        else if e = q || e = '\\' || e = '/' || e = 'b' || e = 'f' || e = 'n' || e = 'r' || e = 't'
        then stringEnd q 1 r
        else none
    else stringEnd q 0 r

/-- What follows a number. -/
def numberEnd (s : List Char) : Option (List Char) :=
  let s := match s with
    | '-' :: r => r
    | r => r
  match s.takeWhile Char.isDigit with
  | [] => none
  | _ =>
    let s := s.dropWhile Char.isDigit
    let s := match s with
      | '.' :: r => r
      | r => r
    let s := s.dropWhile Char.isDigit
    let s := match s with
      | 'E' :: r =>
        let t := match r with
          | '-' :: u => u
          | u => u
        match t.takeWhile Char.isDigit with
        | [] => s
        | _ => t.dropWhile Char.isDigit
      | _ => s
    if atNameEnd s then some s else none

/-- What follows a literal word. -/
def wordEnd (w s : List Char) : Option (List Char) :=
  match Text.dropWord? w s with
  | some r => if atNameEnd r then some r else none
  | none => none

mutual

/-- What follows a literal. `n` bounds the number of its parts. -/
def literalEnd : Nat → List Char → Option (List Char)
  | 0, _ => none
  | n + 1, s =>
    let plain (_ : Unit) : Option (List Char) :=
      (numberEnd s).or ((wordEnd ['n', 'u', 'l', 'l'] s).or
        ((wordEnd ['t', 'r', 'u', 'e'] s).or (wordEnd ['f', 'a', 'l', 's', 'e'] s)))
    match s with
    | '"' :: r => stringEnd '"' 0 r
    | '\'' :: r => stringEnd '\'' 0 r
    | '[' :: r =>
      let r := skipGap r
      arrayEnd n ((literalEnd n r).getD r)
    | '{' :: r =>
      let r := skipGap r
      objectEnd n ((memberEnd n r).getD r)
    | _ => plain ()

/-- What follows the further items of an array literal. -/
def arrayEnd : Nat → List Char → Option (List Char)
  | 0, _ => none
  | n + 1, s =>
    match skipGap s with
    | ']' :: r => some r
    | ',' :: r =>
      match literalEnd n (skipGap r) with
      | some t => arrayEnd n t
      | none => none
    | _ => none

/-- What follows a member of an object literal. -/
def memberEnd : Nat → List Char → Option (List Char)
  | 0, _ => none
  | n + 1, s =>
    let name? := match s with
      | '"' :: r => stringEnd '"' 0 r
      | '\'' :: r => stringEnd '\'' 0 r
      | _ => none
    match name? with
    | none => none
    | some r =>
      match skipGap r with
      | ':' :: t => literalEnd n (skipGap t)
      | _ => none

/-- What follows the further members of an object literal. -/
def objectEnd : Nat → List Char → Option (List Char)
  | 0, _ => none
  | n + 1, s =>
    match skipGap s with
    | '}' :: r => some r
    | ',' :: r =>
      match memberEnd n (skipGap r) with
      | some t => objectEnd n t
      | none => none
    | _ => none

end

/-- The JSON text of a string in single quotes, without its quotes. -/
def requote (inner : List Char) : List Char :=
  '"' :: (Text.replace ['"'] ['\\', '"'] (Text.replace ['\\', '\''] ['\''] inner) ++ ['"'])

/-- A literal. -/
def readLiteral (s : List Char) : Piece Term :=
  match literalEnd (s.length + 1) s with
  | none => .error .noMatch
  | some r =>
    let written := s.take (s.length - r.length)
    let json := match written with
      | '\'' :: t => requote t.dropLast
      | t => t
    match Json.parse? (Text.Utf8.encode json) with
    | some v => .ok (.literal v, r)
    | none => .error .broken

/-! ## 4. Arguments and calls

What is called, the arguments by their place, and those with a name. An argument with a name may be
followed by any other. -/

/-- A word that ends the arguments: `as` or `else`, not followed by a name. -/
def atKeyword (s : List Char) : Bool :=
  let ends (w : List Char) : Bool :=
    match Text.dropWord? w s with
    | some r => atNameEnd (skipGap r)
    | none => false
  if (Text.dropWord? ['a', 's'] s).isSome then ends ['a', 's'] else ends ['e', 'l', 's', 'e']

/-- A path by itself. -/
def readBare (s : List Char) : Piece Call :=
  match readPath s with
  | .ok (p, r) => .ok (⟨p, [], []⟩, r)
  | .error e => .error e

/-- Named arguments with an earlier one. Of a name that comes twice the later argument counts. -/
def addNamed (kv : String × Term) (named : List (String × Term)) : List (String × Term) :=
  if named.any (·.1 == kv.1) then named else kv :: named

mutual

/-- An argument. -/
def readArg : Nat → List Char → Piece Term
  | 0, _ => .error .broken
  | n + 1, s =>
    if atKeyword s then .error .noMatch
    else orElse (readLiteral s) fun _ => orElse (readPath s) fun _ => readNested n s

/-- A call in parentheses. -/
def readNested : Nat → List Char → Piece Term
  | 0, _ => .error .broken
  | n + 1, s =>
    match s with
    | '(' :: r =>
      let r := skipGap r
      match orElse (readHelper n r) (fun _ => readBare r) with
      | .error e => .error e
      | .ok (c, t) =>
        match skipGap t with
        | ')' :: u => .ok (.call c.head c.args c.named, u)
        | _ => .error .noMatch
    | _ => .error .noMatch

/-- A helper with at least one argument. -/
def readHelper : Nat → List Char → Piece Call
  | 0, _ => .error .broken
  | n + 1, s =>
    match readName s with
    | .error e => .error e
    | .ok (name, r) =>
      match readArgs n r with
      | .error e => .error e
      | .ok ((args, named), t) =>
        if args.isEmpty && named.isEmpty then .error .noMatch
        else .ok (⟨.word name, args, named⟩, t)

/-- As many arguments as follow. -/
def readArgs : Nat → List Char → Piece (List Term × List (String × Term))
  | 0, _ => .error .broken
  | n + 1, s =>
    let r := skipGap s
    match readNamed n r with
    | .error .broken => .error .broken
    | .ok (kv, t) =>
      match readArgs n t with
      | .ok ((args, named), u) => .ok ((args, addNamed kv named), u)
      | .error e => .error e
    | .error .noMatch =>
      match readArg n r with
      | .error .broken => .error .broken
      | .error .noMatch => .ok (([], []), s)
      | .ok (a, t) =>
        match readArgs n t with
        | .ok ((args, named), u) => .ok ((a :: args, named), u)
        | .error e => .error e

/-- An argument with a name. -/
def readNamed : Nat → List Char → Piece (String × Term)
  | 0, _ => .error .broken
  | n + 1, s =>
    match readName s with
    | .error e => .error e
    | .ok (k, r) =>
      match skipGap r with
      | '=' :: t =>
        match readArg n (skipGap t) with
        | .ok (v, u) => .ok ((k, v), u)
        | .error e => .error e
      | _ => .error .noMatch

end

/-- The bound on parts that is enough for a text. -/
def enough (s : List Char) : Nat := 4 * s.length + 8

/-- The inside of a value tag: a helper with arguments, else a call in parentheses or a path. -/
def readValueCall (s : List Char) : Piece Call :=
  orElse (readHelper (enough s) s) fun _ =>
    match orElse (readNested (enough s) s) (fun _ => readPath s) with
    | .ok (p, r) => .ok (⟨p, [], []⟩, r)
    | .error e => .error e

/-- A name and as many arguments as follow. -/
def readLine (s : List Char) : Piece Call :=
  match readName s with
  | .error e => .error e
  | .ok (name, r) =>
    match readArgs (enough r) r with
    | .ok ((args, named), t) => .ok (⟨.word name, args, named⟩, t)
    | .error e => .error e

/-- The name of an embedded template. Quotes around it belong to the name. -/
def readEmbedName (s : List Char) : Piece Term :=
  match runOf isEmbedChar s, s with
  | .ok (w, r), _ => .ok (.word (String.ofList w), r)
  | .error _, '\'' :: r =>
    match r.takeWhile (· != '\''), r.dropWhile (· != '\'') with
    | c :: w, _ :: t => .ok (.word (String.ofList ('\'' :: c :: (w ++ ['\'']))), t)
    | _, _ => .error .noMatch
  | .error _, _ => orElse (readNested (enough s) s) fun _ => readPath s

/-- An embedded template and as many arguments as follow. -/
def readEmbedLine (s : List Char) : Piece Call :=
  match readEmbedName s with
  | .error e => .error e
  | .ok (name, r) =>
    match readArgs (enough r) r with
    | .ok ((args, named), t) => .ok (⟨name, args, named⟩, t)
    | .error e => .error e

/-- Names for the values of a block, between bars. -/
def readBlockNames (s : List Char) : List String × List Char :=
  let result : Except Stop (List String × List Char) := do
    let r ← expect ['a', 's'] (skipGap s)
    let r ← expect ['|'] (skipGap r)
    let (a, r) ← readName (skipGap r)
    match readName (skipGap r) with
    | .ok (b, t) =>
      let t ← expect ['|'] (skipGap t)
      return ([a, b], t)
    | .error _ =>
      let t ← expect ['|'] (skipGap r)
      return ([a], t)
  match result with
  | .ok (ns, r) => (ns, r)
  | .error _ => ([], s)

end UpgradeScan.Template
