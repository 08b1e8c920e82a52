/-
`Process/Tool.lean` -- the small programs that scripts are made of.

A tool gets arguments and bytes to read, and answers with what it prints, what it complains about
and a status. It may look at the disk and does not change it.

Only what scripts need of each tool is here. An option that a tool does not know is refused with a
complaint, as is a file that cannot be read, and what could be done besides is still printed.
-/
import UpgradeScan.Process.Basic
import UpgradeScan.Process.Format

set_option autoImplicit false

namespace UpgradeScan

/-- What a tool does with its arguments and what it reads. -/
abbrev Tool := Disk → List String → Bytes → Outcome

namespace Outcome

/-- A quiet end with a status. -/
def quiet (status : Nat) : Outcome := ⟨.status status, [], []⟩

/-- Bytes printed, without a complaint. -/
def printed (b : Bytes) : Outcome := ⟨.status 0, b, []⟩

/-- A line of complaint and a status. -/
def complained (status : Nat) (line : String) : Outcome :=
  ⟨.status status, [], Text.Utf8.bytes (line ++ "\n")⟩

end Outcome

namespace Tool

/-! ## 1. Printing

Tools that print their arguments. -/

/-- Words with a blank between them. -/
def blanked (ws : List String) : Bytes := Text.Utf8.bytes (" ".intercalate ws)

/-- Prints its arguments and a line end, with backslashes carried out. -/
def echo : Tool := fun _ args _ =>
  let silent := args.head? == some "-n"
  let (b, more) := unescape (" ".intercalate (if silent then args.drop 1 else args))
  .printed (if silent || !more then b else b ++ [10])

/-- Prints its arguments and a line end, with backslashes carried out only when told to. -/
def plainEcho : Tool := fun d args input =>
  match args with
  | "-e" :: r => echo d r input
  | "-n" :: r => .printed (blanked r)
  | _ => .printed (blanked args ++ [10])

/-- Prints its arguments by a pattern. -/
def printf : Tool := fun _ args _ =>
  match args with
  | [] => .complained 2 "printf: usage: printf format [arg ...]"
  | format :: rest =>
    let p := printAll rest.length (formatPieces 0 format.toList) rest
    match p.unknown with
    | some lead =>
      ⟨.status 2, p.bytes, Text.Utf8.bytes ("printf: " ++ lead ++ ": invalid directive\n")⟩
    | none =>
      ⟨.status (if p.misfits.isEmpty then 0 else 1), p.bytes,
        p.misfits.flatMap fun s =>
          Text.Utf8.bytes ("printf: " ++ s ++ ": expected numeric value\n")⟩

/-- Prints the current directory. -/
def pwd : Tool := fun d _ _ => .printed (Text.Utf8.bytes (Disk.pathOf d.current).text ++ [10])

/-! ## 2. Reading files

Tools that print files, or parts of them, one after the other. -/

/-- The content of the files that are named, or what there is to read when none is. A lone hyphen
stands for what there is to read. -/
def contents (d : Disk) (input : Bytes) : List String → List (String × Except Fault Bytes)
  | [] => [("-", .ok input)]
  | names => names.map fun n => (n, if n = "-" then .ok input else d.read ⟨n⟩)

/-- What is made of each content, and a complaint for each file that cannot be read. -/
def eachFile (files : List (String × Except Fault Bytes)) (failed : Nat)
    (complaint : String → Fault → String) (f : Bytes → Bytes) : Outcome :=
  ⟨.status (if files.all fun (_, c) => c.isOk then 0 else failed),
    files.flatMap fun (_, c) => match c with
      | .ok b => f b
      | .error _ => [],
    files.flatMap fun (n, c) => match c with
      | .ok _ => []
      | .error e => Text.Utf8.bytes (complaint n e ++ "\n")⟩

/-- The complaint of a tool about an option that it does not know. -/
def unknownOption (tool option : String) : Outcome :=
  .complained 1
    (tool ++ ": unrecognized option \x27" ++ option ++ "\x27\nTry \x27" ++ tool
      ++ " --help\x27 for more information.")

/-- The first long option; two hyphens end the options. -/
def longOption? : List String → Option String
  | [] => none
  | a :: r =>
    if a = "--" then none
    else if "--".toList.isPrefixOf a.toList then some a
    else longOption? r

/-- The arguments without the two hyphens that end the options. -/
def operands (args : List String) : List String := args.erase "--"

/-- Prints files one after the other. -/
def cat : Tool := fun d args input =>
  match longOption? args with
  | some o => unknownOption "cat" o
  | none =>
    eachFile (contents d input (operands args)) 1 (fun n e => "cat: " ++ n ++ ": " ++ e.reason) id

/-- The lines of some bytes, each with its line end. -/
def endedLines : Bytes → List Bytes
  | [] => []
  | b :: r =>
    if b = 10 then [b] :: endedLines r
    else match endedLines r with
      | [] => [[b]]
      | l :: ls => (b :: l) :: ls

/-- How much of a content is wanted. -/
inductive Amount where
  | lines (n : Nat)
  | bytes (n : Nat)

/-- The number that a text is. -/
def number? (s : List Char) : Option Nat := Number.ofDigits? 10 s

/-- How much is wanted, and the other arguments. -/
def amount? : List String → Option (Amount × List String)
  | "-n" :: k :: r => (number? k.toList).map fun n => (.lines n, r)
  | "-c" :: k :: r => (number? k.toList).map fun n => (.bytes n, r)
  | a :: r =>
    match a.toList with
    | '-' :: 'n' :: k => (number? k).map fun n => (.lines n, r)
    | '-' :: 'c' :: k => (number? k).map fun n => (.bytes n, r)
    | ['-'] => some (.lines 10, a :: r)
    | '-' :: k => (number? k).map fun n => (.lines n, r)
    | _ => some (.lines 10, a :: r)
  | [] => some (.lines 10, [])

/-- The beginning of some bytes. -/
def Amount.first (a : Amount) (b : Bytes) : Bytes :=
  match a with
  | .lines n => ((endedLines b).take n).flatten
  | .bytes n => b.take n

/-- The end of some bytes. -/
def Amount.last (a : Amount) (b : Bytes) : Bytes :=
  match a with
  | .lines n =>
    let ls := endedLines b
    (ls.drop (ls.length - n)).flatten
  | .bytes n => b.drop (b.length - n)

/-- Prints a part of each file. -/
def partOf (tool : String) (f : Amount → Bytes → Bytes) : Tool := fun d args input =>
  match longOption? args, amount? args with
  | some o, _ => unknownOption tool o
  | none, none => .quiet 1
  | none, some (a, files) =>
    eachFile (contents d input (operands files)) 1
      (fun n e => tool ++ ": cannot open \x27" ++ n ++ "\x27 for reading: " ++ e.reason) (f a)

/-! ## 3. Replacing

The tool that replaces a fixed word in each line. -/

/-- A replacement of a fixed word in each line. -/
structure Substitution where
  word : Bytes
  replacement : Bytes
  everywhere : Bool

/-- A part of a substitution up to the mark, and what follows the mark. What a backslash stands
before is put in as `escaped` says, and an ampersand as `whole`. -/
def partUntil (mark : Char) (escaped : Char → Bytes) (whole : Bytes) :
    List Char → Option (Bytes × List Char)
  | [] => none
  | '\\' :: c :: r =>
    (partUntil mark escaped whole r).map fun (b, s) =>
      ((if c = mark then Text.Utf8.encode [c] else escaped c) ++ b, s)
  | c :: r =>
    if c = mark then some ([], r)
    else (partUntil mark escaped whole r).map fun (b, s) =>
      ((if c = '&' then whole else Text.Utf8.encode [c]) ++ b, s)

/-- What a backslash and a character stand for in a substitution. -/
def escapedByte (c : Char) : Bytes :=
  if c = 'n' then [10] else if c = 't' then [9] else Text.Utf8.encode [c]

/-- The substitution that a text describes: the letter, a mark of choice, the word, the mark, the
replacement, the mark, and perhaps a letter for every occurrence. -/
def substitution? (s : List Char) : Option Substitution :=
  match s with
  | 's' :: mark :: r =>
    match partUntil mark escapedByte [38] r with
    | some (w, r) =>
      match partUntil mark escapedByte w r with
      | some (v, r) =>
        if w = [] then none
        else if r = [] then some ⟨w, v, false⟩
        else if r = ['g'] then some ⟨w, v, true⟩
        else none
      | none => none
    | none => none
  | _ => none

/-- The first occurrence of a word replaced. -/
def replaceFirst (w v : Bytes) : Bytes → Bytes
  | [] => []
  | b :: r =>
    match Text.dropWord? w (b :: r) with
    | some s => v ++ s
    | none => b :: replaceFirst w v r

/-- A line after a substitution. -/
def Substitution.apply (s : Substitution) (line : Bytes) : Bytes :=
  if s.everywhere then Text.replace s.word s.replacement line
  else replaceFirst s.word s.replacement line

/-- Prints files with a word replaced in each line. -/
def sed : Tool := fun d args input =>
  let args := match args with
    | "-e" :: r => r
    | _ => args
  match longOption? args, args with
  | some o, _ => .complained 1 ("sed: unrecognized option \x27" ++ o ++ "\x27")
  | none, [] => .quiet 1
  | none, program :: files =>
    match substitution? program.toList with
    | none => .quiet 1
    | some s =>
      eachFile (contents d input files) 2
        (fun n e => "sed: can\x27t read " ++ n ++ ": " ++ e.reason)
        (fun b => (endedLines b).flatMap s.apply)

/-! ## 4. By name

Which tools there are, and by which names they go. -/

/-- The tools that any program can start. -/
def programs : List (String × Tool) :=
  [("true", fun _ _ _ => .quiet 0), ("false", fun _ _ _ => .quiet 1),
    ("sleep", fun _ _ _ => .quiet 0), ("echo", plainEcho), ("printf", printf), ("cat", cat),
    ("head", partOf "head" Amount.first), ("tail", partOf "tail" Amount.last), ("sed", sed),
    ("pwd", pwd)]

/-- The tools that a script has besides. -/
def inScripts : List (String × Tool) := [("echo", echo), (":", fun _ _ _ => .quiet 0)]

/-- The folders that hold the tools. -/
def folders : List String := ["/bin/", "/usr/bin/"]

/-- The name of a tool without the folder that holds it. -/
def bareName (name : String) : String :=
  match folders.filterMap fun f => Text.dropWord? f.toList name.toList with
  | [] => name
  | s :: _ => String.ofList s

end Tool

end UpgradeScan
