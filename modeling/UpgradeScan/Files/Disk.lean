/-
`Files/Disk.lean` -- the file system as a value.

A disk is a tree of folders and files together with the current directory. A path is resolved
component by component: every component but the last has to be a folder, `..` leads to the folder
above, and the result is the list of names from the root. Every operation either answers or says
which fault it met; none of them depends on anything but the disk.

A place is a list of names, a path is a text, and the difference between the two is the subject of
this module. One place has many paths. A path that leads nowhere has a reason for it, and which
reason depends on how far it came: a name that is not there, a file in the middle, a name that is
too long, a text that no operation accepts. Reading, listing and asking whether something is there
all resolve first, so they agree about what a path leads to.

Writing resolves differently, since the last name need not be there yet. It has its own reading of
the end of the path: a slash or a dot there names a folder, and a folder is never replaced.

Names are compared as they are written, and entries are listed in the order of the bytes of their
names. Whether the entries of a folder have different names is not part of the type. The first one
of a name counts, and setting an entry replaces it.
-/
import UpgradeScan.Path
import UpgradeScan.Text.Utf8

set_option autoImplicit false

namespace UpgradeScan

/-- A file or a folder. -/
inductive Node where
  | file (content : Bytes)
  | folder (entries : List (String × Node))
  deriving Inhabited, BEq

/-- Why an operation on files failed. -/
inductive Fault where
  | notFound
  | denied
  | notFolder
  | isFolder
  | nameTooLong
  /-- A path with the character U+0000. -/
  | nulInPath
  /-- A file read as text that is not UTF-8. -/
  | notText
  /-- Any other fault, as the system numbers and words it. -/
  | other (number : Nat) (reason : String)
  deriving DecidableEq, Repr

/-- What a fault says. -/
def Fault.reason : Fault → String
  | .notFound => "No such file or directory"
  | .denied => "Permission denied"
  | .notFolder => "Not a directory"
  | .isFolder => "Is a directory"
  | .nameTooLong => "File name too long"
  | .nulInPath => "file name contained an unexpected NUL byte"
  | .notText => "stream did not contain valid UTF-8"
  | .other _ r => r

/-- The number of a fault that the system knows. -/
def Fault.number? : Fault → Option String
  | .notFound => some "2"
  | .denied => some "13"
  | .notFolder => some "20"
  | .isFolder => some "21"
  | .nameTooLong => some "36"
  | .nulInPath => none
  | .notText => none
  | .other n _ => some (toString n)

/-- The wording of a fault. -/
def Fault.message (f : Fault) : String :=
  match f.number? with
  | some n => f.reason ++ " (os error " ++ n ++ ")"
  | none => f.reason

namespace Node

/-! ## 1. Trees

Folders and files without paths: a place in a tree, and the tree with a place set or taken away. -/

/-- The entry of a folder. -/
def child? (name : String) : Node → Option Node
  | .file _ => none
  | .folder es => (es.find? fun e => e.1 == name).map (·.2)

/-- The node at the end of a list of names. -/
def at? : List String → Node → Option Node
  | [], n => some n
  | name :: rest, n => (n.child? name).bind (at? rest)

/-- The node is a folder. -/
def isFolder : Node → Bool
  | .folder _ => true
  | .file _ => false

/-- Entries in the order of the bytes of their names. -/
def nameLe (a b : String × Node) : Bool := Text.Utf8.bytes a.1 ≤ Text.Utf8.bytes b.1

/-- The entries of a folder in the order of their names. -/
def sorted (es : List (String × Node)) : List (String × Node) := es.mergeSort nameLe

/-- The entries of a node in the order of their names; a file has none. -/
def listing : Node → List (String × Node)
  | .file _ => []
  | .folder es => sorted es

/-- Entries with one name set to a node. -/
def setEntry (name : String) (v : Node) (es : List (String × Node)) : List (String × Node) :=
  if es.any fun e => e.1 == name then es.map fun e => if e.1 == name then (name, v) else e
  else es ++ [(name, v)]

/-- The tree with a node set at a list of names. Folders that are missing on the way are made;
a file on the way gives way to a folder. -/
def setAt : List String → Node → Node → Node
  | [], v, _ => v
  | name :: rest, v, n =>
    let es := match n with
      | .folder es => es
      | .file _ => []
    .folder (setEntry name (setAt rest v ((n.child? name).getD (.folder []))) es)

/-- The tree without the node at a list of names. -/
def removeAt : List String → Node → Node
  | [], n => n
  | _, .file c => .file c
  | [name], .folder es => .folder (es.filter fun e => e.1 != name)
  | name :: rest, .folder es =>
    match es.find? fun e => e.1 == name with
    | none => .folder es
    | some e => .folder (setEntry name (removeAt rest e.2) es)

end Node

/-- A tree and the current directory in it. -/
structure Disk where
  root : Node
  /-- The names from the root to the current directory. -/
  current : List String
  deriving Inhabited

namespace Disk

/-! ## 2. Resolving a path

From a path to a place. Each segment is one step from a place that has to be a folder, also when the
segment is empty or a dot. -/

/-- One segment further from the place `at`, which has to be a folder. -/
def step (d : Disk) (place : List String) (seg : List Char) : Except Fault (List String) :=
  match d.root.at? place with
  | some (.folder es) =>
    if seg = [] ∨ seg = ['.'] then .ok place
    else if seg = ['.', '.'] then .ok place.dropLast
    else if 255 < (Text.Utf8.encode seg).length then .error .nameTooLong
    else if es.any fun e => e.1 == String.ofList seg then .ok (place ++ [String.ofList seg])
    else .error .notFound
  | some (.file _) => .error .notFolder
  | none => .error .notFound

/-- All segments, one after the other. -/
def walk (d : Disk) : List String → List (List Char) → Except Fault (List String)
  | place, [] => .ok place
  | place, seg :: rest =>
    match d.step place seg with
    | .ok next => d.walk next rest
    | .error e => .error e

/-- Where a path begins. -/
def start (d : Disk) (p : Path) : List String := if p.isAbsolute then [] else d.current

/-- A path that no operation accepts. -/
def refused? (p : Path) : Option Fault :=
  if p.text.toList.contains '\x00' then some .nulInPath
  else if p.text.isEmpty then some .notFound
  else none

/-- The place that a path leads to. -/
def resolve (d : Disk) (p : Path) : Except Fault (List String) :=
  match refused? p with
  | some e => .error e
  | none => d.walk (d.start p) (Text.fields '/' p.text.toList)

/-- The node that a path leads to. -/
def node (d : Disk) (p : Path) : Except Fault Node :=
  match d.resolve p with
  | .error e => .error e
  | .ok place =>
    match d.root.at? place with
    | some n => .ok n
    | none => .error .notFound

/-! ## 3. Questions

All of these resolve a path and look at what is there. Where only a yes or no is wanted, every fault
is a no. -/

/-- The path leads to something. -/
def has (d : Disk) (p : Path) : Bool :=
  match d.node p with
  | .ok _ => true
  | .error _ => false

/-- The path leads to a folder. -/
def isFolder (d : Disk) (p : Path) : Bool :=
  match d.node p with
  | .ok n => n.isFolder
  | .error _ => false

/-- The path leads to a file. -/
def isFile (d : Disk) (p : Path) : Bool :=
  match d.node p with
  | .ok n => !n.isFolder
  | .error _ => false

/-- The path of a place, from the root. -/
def pathOf (place : List String) : Path :=
  ⟨String.ofList ('/' :: Text.join ['/'] (place.map String.toList))⟩

/-- The path from the root, without dots, of what a path leads to. -/
def canonical (d : Disk) (p : Path) : Except Fault Path :=
  match d.resolve p with
  | .ok place => .ok (pathOf place)
  | .error e => .error e

/-- The content of a file. -/
def read (d : Disk) (p : Path) : Except Fault Bytes :=
  match d.node p with
  | .ok (.file c) => .ok c
  | .ok (.folder _) => .error .isFolder
  | .error e => .error e

/-- The content of a file, as text. -/
def readText (d : Disk) (p : Path) : Except Fault String :=
  match d.read p with
  | .error e => .error e
  | .ok c =>
    match Text.Utf8.string? c with
    | some s => .ok s
    | none => .error .notText

/-! ## 4. Writing

The folder of the file is resolved as always, and only the last name is looked at by itself. No
folder is made on the way. -/

/-- The segments of a path up to the last one that is not empty, that one, and whether a slash
follows it. -/
def lastSegment (p : Path) : List (List Char) × List Char × Bool :=
  let segs := (Text.fields '/' p.text.toList).reverse
  match segs.dropWhile (· == []) with
  | [] => ([], [], true)
  | seg :: before => (before.reverse, seg, segs.head? == some [])

/-- The place of the file that writing to a path replaces or makes. A path that ends in a slash
or a dot never names a file. -/
def target (d : Disk) (p : Path) : Except Fault (List String) :=
  match refused? p with
  | some e => .error e
  | none =>
    let (before, seg, slash) := lastSegment p
    match d.walk (d.start p) before with
    | .error e => .error e
    | .ok place =>
      match d.root.at? place with
      | some (.folder es) =>
        if slash || seg == ['.'] || seg == ['.', '.'] then .error .isFolder
        else if 255 < (Text.Utf8.encode seg).length then .error .nameTooLong
        else
          let name := String.ofList seg
          match es.find? fun e => e.1 == name with
          | some (_, .folder _) => .error .isFolder
          | _ => .ok (place ++ [name])
      | some (.file _) => .error .notFolder
      | none => .error .notFound

/-- The disk with a file that has this content and nothing else. -/
def write (d : Disk) (p : Path) (content : Bytes) : Except Fault Disk :=
  match d.target p with
  | .ok place => .ok { d with root := Node.setAt place (.file content) d.root }
  | .error e => .error e

/-! ## 5. Preparing a disk

How a disk is set up, or changed from outside while a program runs. These operations always succeed
and make what is missing. -/

/-- The place a path names when nothing has to exist. -/
def place (d : Disk) (p : Path) : List String :=
  (Text.fields '/' p.text.toList).foldl
    (fun names seg =>
      if seg = [] ∨ seg = ['.'] then names
      else if seg = ['.', '.'] then names.dropLast
      else names ++ [String.ofList seg])
    (d.start p)

/-- The disk with a file, and the folders above it. -/
def putFile (d : Disk) (p : Path) (content : Bytes) : Disk :=
  { d with root := Node.setAt (d.place p) (.file content) d.root }

/-- The disk with a folder, and the folders above it. What is there already stays. -/
def putFolder (d : Disk) (p : Path) : Disk :=
  match d.root.at? (d.place p) with
  | some (.folder _) => d
  | _ => { d with root := Node.setAt (d.place p) (.folder []) d.root }

/-- The disk without a file or a folder. -/
def remove (d : Disk) (p : Path) : Disk := { d with root := d.root.removeAt (d.place p) }

end Disk

end UpgradeScan
