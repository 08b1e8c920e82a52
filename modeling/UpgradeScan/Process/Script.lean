/-
`Process/Script.lean` -- command scripts.

A script is a list of pipelines; whether one runs may depend on how the one before it ended. A word
is made of pieces, each with or without quotes, because only what is unquoted falls into several
words when parameters are filled in. Conditions, loops, groups and substitutions of output are not
part of the language.

A script that uses what is not part of the language is not read at all, rather than read as
something else. Reading has two passes: the characters into tokens, where quotes and comments are
dealt with, and the tokens into pipelines, where only their order matters.
-/
import UpgradeScan.Number.Literal
import UpgradeScan.Text.Split

set_option autoImplicit false

namespace UpgradeScan.Script

/-! ## 1. Types

What a script is when it has been read. -/

/-- What a dollar sign names. -/
inductive Parameter where
  /-- The script itself for 0, else an argument. -/
  | position (n : Nat)
  /-- All arguments, each a word of its own. -/
  | each
  /-- All arguments in one word. -/
  | together
  | count
  | processId
  | lastStatus
  | variable (name : String)
  deriving DecidableEq, Repr

/-- A piece of a word. -/
inductive Piece where
  | text (isQuoted : Bool) (s : List Char)
  | parameter (isQuoted : Bool) (p : Parameter)
  deriving DecidableEq, Repr

/-- A word before its parameters are filled in. -/
abbrev Word := List Piece

/-- What is done with a stream. -/
inductive Redirection where
  /-- To a file, which is emptied or continued. -/
  | toFile (stream : Nat) (continued : Bool) (file : Word)
  | fromFile (file : Word)
  /-- To where another stream goes. -/
  | toStream (stream other : Nat)
  deriving DecidableEq, Repr

/-- A command: its words and what is done with its streams. -/
structure Simple where
  words : List Word
  redirections : List Redirection
  deriving DecidableEq, Repr, Inhabited

/-- When a pipeline runs. -/
inductive Condition where
  | always
  | afterSuccess
  | afterFailure
  deriving DecidableEq, Repr

/-- Commands each of which reads what the one before it writes. -/
structure Pipeline where
  line : Nat
  condition : Condition
  commands : List Simple
  deriving Repr

/-! ## 2. Tokens

Words are put together character by character, since quotes may begin and end inside of them. A
digit directly before an arrow is no word, it names a stream. -/

/-- A token of a script. -/
inductive Token where
  | word (w : Word)
  | newline
  | semicolon
  | pipe
  | and
  | or
  /-- An arrow out of a stream. -/
  | output (stream : Nat) (continued : Bool)
  | input
  /-- An arrow from a stream to another one. -/
  | joined (stream other : Nat)
  deriving DecidableEq, Repr

/-- How the characters of a word are read. -/
inductive Quoting where
  | bare
  | single
  | double
  deriving DecidableEq

/-- A character of a name. -/
def isNameChar (c : Char) : Bool := c.isAlphanum || c == '_'

/-- What follows a dollar sign, and its length; none for a lone dollar sign. -/
def bareParameter? : List Char → Option (Parameter × Nat)
  | '@' :: _ => some (.each, 1)
  | '*' :: _ => some (.together, 1)
  | '#' :: _ => some (.count, 1)
  | '$' :: _ => some (.processId, 1)
  | '?' :: _ => some (.lastStatus, 1)
  | c :: r =>
    match Number.digit? 10 c with
    | some d => some (.position d, 1)
    | none =>
      let n := (c :: r).takeWhile isNameChar
      if n = [] then none else some (.variable (String.ofList n), n.length)
  | [] => none

/-- What follows a dollar sign, perhaps between braces, and its length. Braces with more than a
parameter between them are not part of the language. -/
def parameter? : List Char → Option (Parameter × Nat)
  | '\x7b' :: r =>
    let n := r.takeWhile Char.isDigit
    let inner := match Number.ofDigits? 10 n with
      | some d => some (Parameter.position d, n.length)
      | none => bareParameter? r
    match inner with
    | some (p, k) => if (r.drop k).head? = some '\x7d' then some (p, k + 2) else none
    | none => none
  | r => bareParameter? r

/-- A dollar sign begins something that is not part of the language: the output of a script, or
braces around more than a parameter. -/
def isSubstitution (r : List Char) : Bool :=
  r.head? == some '(' || (r.head? == some '\x7b' && (parameter? r).isNone)

/-- A word with one more character. -/
def push (isQuoted : Bool) (c : Char) : Option Word → Word
  | some (.text q s :: w) =>
    if q = isQuoted then .text q (s ++ [c]) :: w else .text isQuoted [c] :: .text q s :: w
  | some w => .text isQuoted [c] :: w
  | none => [.text isQuoted [c]]

/-- The finished word, if there is one. Its pieces were put in front of one another. -/
def finish (w : Option Word) : List Token :=
  match w with
  | some w => [.word w.reverse]
  | none => []

/-- The number of a stream that stands directly before an arrow, and what else is finished. -/
def streamBefore (standard : Nat) : Option Word → List Token × Nat
  | some [.text false [c]] =>
    match Number.digit? 10 c with
    | some d => ([], d)
    | none => ([.word [.text false [c]]], standard)
  | w => (finish w, standard)

/-- An operator at the front of a text, after a word that is finished or names a stream: the
tokens and the length. -/
def operator? (w : Option Word) : List Char → Option (List Token × Nat)
  | '\n' :: _ => some (finish w ++ [.newline], 1)
  | ';' :: _ => some (finish w ++ [.semicolon], 1)
  | '|' :: '|' :: _ => some (finish w ++ [.or], 2)
  | '|' :: _ => some (finish w ++ [.pipe], 1)
  | '&' :: '&' :: _ => some (finish w ++ [.and], 2)
  | '>' :: '>' :: _ =>
    let (ts, n) := streamBefore 1 w
    some (ts ++ [.output n true], 2)
  | '>' :: '&' :: c :: _ =>
    let (ts, n) := streamBefore 1 w
    (Number.digit? 10 c).map fun d => (ts ++ [.joined n d], 3)
  | '>' :: _ =>
    let (ts, n) := streamBefore 1 w
    some (ts ++ [.output n false], 1)
  | '<' :: _ =>
    let (ts, _) := streamBefore 0 w
    some (ts ++ [.input], 1)
  | _ => none

/-- The characters that do not stand for themselves and are not part of the language. -/
def isForeign (c : Char) : Bool := c == '&' || c == '(' || c == ')' || c == '\x60'

/-- The tokens of a script. The first argument counts the characters of a token that are still
to be passed over; the word that is being read has its last piece first. -/
def tokens : Nat → Quoting → Option Word → List Char → Option (List Token)
  | _, .bare, w, [] => some (finish w)
  | _, _, _, [] => none
  | n + 1, q, w, _ :: r => tokens n q w r
  | 0, .single, w, c :: r =>
    if c = '\'' then tokens 0 .bare w r else tokens 0 .single (some (push true c w)) r
  | 0, .double, w, c :: r =>
    if c = '"' then tokens 0 .bare w r
    else if c = '\\' then
      match r with
      | e :: _ =>
        if e = '\n' then tokens 1 .double w r
        else if "$\"\\\x60".toList.contains e then tokens 1 .double (some (push true e w)) r
        else tokens 0 .double (some (push true c w)) r
      | [] => none
    else if c = '\x60' ∨ (c = '$' ∧ isSubstitution r) then none
    else if c = '$' then
      match parameter? r with
      | some (p, k) => tokens k .double (some (.parameter true p :: w.getD [])) r
      | none => tokens 0 .double (some (push true c w)) r
    else tokens 0 .double (some (push true c w)) r
  | 0, .bare, w, c :: r =>
    if c = ' ' ∨ c = '\t' then (tokens 0 .bare none r).map (finish w ++ ·)
    else if c = '#' ∧ w = none then
      tokens ((r.takeWhile (· != '\n')).length) .bare none r
    else if c = '\'' then tokens 0 .single (some (.text true [] :: w.getD [])) r
    else if c = '"' then tokens 0 .double (some (.text true [] :: w.getD [])) r
    else if c = '\\' then
      match r with
      | e :: _ =>
        if e = '\n' then tokens 1 .bare w r else tokens 1 .bare (some (push true e w)) r
      | [] => tokens 0 .bare (some (push true c w)) r
    else
      match operator? w (c :: r) with
      | some (ts, k) => (tokens (k - 1) .bare none r).map (ts ++ ·)
      | none =>
        if isForeign c ∨ (c = '$' ∧ isSubstitution r) then none
        else if c = '$' then
          match parameter? r with
          | some (p, k) => tokens k .bare (some (.parameter false p :: w.getD [])) r
          | none => tokens 0 .bare (some (push false c w)) r
        else tokens 0 .bare (some (push false c w)) r

/-! ## 3. Commands

Tokens are taken from the front into the command that they continue. Where a command is still owed,
a line end does not end the pipeline. -/

/-- Tokens read into the command that they continue, and the commands before it in the same
pipeline. -/
structure Reading where
  line : Nat
  condition : Condition
  before : List Simple
  current : Simple

/-- The pipeline that was read. -/
def Reading.pipeline (r : Reading) : Pipeline := ⟨r.line, r.condition, r.before ++ [r.current]⟩

/-- Nothing was read yet. -/
def Reading.begin (line : Nat) (c : Condition) : Reading := ⟨line, c, [], ⟨[], []⟩⟩

/-- The command that is read has neither words nor redirections. -/
def Reading.isBlank (r : Reading) : Bool :=
  r.current.words.isEmpty && r.current.redirections.isEmpty

/-- No command is owed: nothing stands before the one that is read. -/
def Reading.isFresh (r : Reading) : Bool := r.before.isEmpty && r.condition == .always

/-- The pipeline that ends here; none if its last command is missing. An empty line is no
fault. -/
def Reading.close (mayBeEmpty : Bool) (r : Reading) : Option (List Pipeline) :=
  if !r.isBlank then some [r.pipeline]
  else if mayBeEmpty && r.isFresh then some []
  else none

/-- A command with one more word. -/
def Simple.addWord (w : Word) (c : Simple) : Simple := { c with words := c.words ++ [w] }

/-- A command with one more redirection. -/
def Simple.redirect (d : Redirection) (c : Simple) : Simple :=
  { c with redirections := c.redirections ++ [d] }

/-- The pipeline that ends here, and those that follow it. -/
def Reading.closeBefore (mayBeEmpty : Bool) (r : Reading) :
    Option (List Pipeline) → Option (List Pipeline)
  | some rest => (r.close mayBeEmpty).map (· ++ rest)
  | none => none

/-- The pipelines of some tokens. A semicolon needs a command before it, a line end does not;
after `|`, `&&` and `||` a command has to follow, perhaps on a later line. -/
def pipelines : List Token → Reading → Option (List Pipeline)
  | [], r => r.close true
  | .word w :: ts, r => pipelines ts { r with current := r.current.addWord w }
  | .output n c :: .word w :: ts, r =>
    pipelines ts { r with current := r.current.redirect (.toFile n c w) }
  | .input :: .word w :: ts, r =>
    pipelines ts { r with current := r.current.redirect (.fromFile w) }
  | .joined n k :: ts, r =>
    pipelines ts { r with current := r.current.redirect (.toStream n k) }
  | .pipe :: ts, r =>
    if r.isBlank then none
    else pipelines ts { r with before := r.before ++ [r.current], current := ⟨[], []⟩ }
  | .and :: ts, r => r.closeBefore false (pipelines ts (.begin r.line .afterSuccess))
  | .or :: ts, r => r.closeBefore false (pipelines ts (.begin r.line .afterFailure))
  | .semicolon :: ts, r => r.closeBefore false (pipelines ts (.begin r.line .always))
  | .newline :: ts, r =>
    if r.isBlank && !r.isFresh then pipelines ts { r with line := r.line + 1 }
    else r.closeBefore true (pipelines ts (.begin (r.line + 1) .always))
  | .output _ _ :: _, _ => none
  | .input :: _, _ => none

/-- The words that begin what is not part of the language. -/
def foreignWords : List String :=
  ["if", "then", "else", "elif", "fi", "for", "while", "until", "do", "done", "case", "esac", "in",
    "!", "\x7b", "\x7d"]

/-- The command begins with a word that is not part of the language. -/
def Simple.isForeign (c : Simple) : Bool :=
  match c.words with
  | [.text false w] :: _ => foreignWords.contains (String.ofList w)
  | _ => false

/-- The pipelines of a script; `none` when it is not written in the language. -/
def parse? (s : String) : Option (List Pipeline) :=
  match (tokens 0 .bare none s.toList).bind fun ts => pipelines ts (.begin 1 .always) with
  | some ps => if ps.any (·.commands.any Simple.isForeign) then none else some ps
  | none => none

end UpgradeScan.Script
