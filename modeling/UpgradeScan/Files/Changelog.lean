/-
`Files/Changelog.lean` -- titles and addresses, remembered.

Each of the two sources is looked through at most once, and every answer is kept: what changes on
the disk afterwards is not seen until everything is forgotten at once. Lookups therefore give the
answer together with what is remembered after it.

The index of documents and the entries of the links file are remembered as a whole, titles and
addresses by the name of the document. An answer that was kept is given again before anything is
read, so a title stays the same even when the index would now say otherwise. An empty answer is an
answer and is kept as well.

The disk is an argument of each lookup and not a part of what is remembered, because it is the disk
at that time. To forget is to put all four parts back (`clear`), and nothing else is left.
-/
import UpgradeScan.Files.Document

set_option autoImplicit false

namespace UpgradeScan

/-- The two sources and everything that was read from them so far. -/
structure Changelog where
  directory : Path
  linksFile : Path
  index : Option (List (String × Path))
  links : Option (List (List Char))
  /-- Titles by the path of the document. -/
  titles : List (Path × String)
  /-- Addresses by the name of the document. -/
  urls : List (String × String)
  deriving DecidableEq, Repr, Inhabited

namespace Changelog

/-- Nothing read yet. -/
def fresh (directory linksFile : Path) : Changelog := ⟨directory, linksFile, none, none, [], []⟩

/-- Everything read so far is forgotten. -/
def clear (c : Changelog) : Changelog :=
  { c with index := none, links := none, titles := [], urls := [] }

/-- Nothing else is remembered: what was cleared is as new. -/
theorem clear_eq_fresh (c : Changelog) : c.clear = fresh c.directory c.linksFile := rfl

/-- The index, read now if it was not before. -/
def withIndex (c : Changelog) (d : Disk) : List (String × Path) × Changelog :=
  match c.index with
  | some ix => (ix, c)
  | none =>
    let ix := Document.readIndex d c.directory
    (ix, { c with index := some ix })

/-- The entries of the links file, read now if they were not before. -/
def withLinks (c : Changelog) (d : Disk) : List (List Char) × Changelog :=
  match c.links with
  | some ls => (ls, c)
  | none =>
    let ls := Document.readLinks d c.linksFile
    (ls, { c with links := some ls })

/-- The title of the change that a rule is about, and what is remembered then. -/
def title (c : Changelog) (d : Disk) (rule : String) : String × Changelog :=
  let name := Document.nameOf rule
  match Document.legacy? name with
  | some l => (l.title, c)
  | none =>
    let (ix, c) := c.withIndex d
    match ix.find? fun e => e.1 == name with
    | none => ("", c)
    | some (_, p) =>
      match c.titles.find? fun e => e.1 == p with
      | some (_, t) => (t, c)
      | none =>
        let t := Document.readTitle d p
        (t, { c with titles := (p, t) :: c.titles })

/-- The address of the page about a rule, and what is remembered then. -/
def url (c : Changelog) (d : Disk) (rule : String) : String × Changelog :=
  let name := Document.nameOf rule
  match Document.legacy? name with
  | some l => (l.url, c)
  | none =>
    if name = "" then ("", c)
    else match c.urls.find? fun e => e.1 == name with
      | some (_, u) => (u, c)
      | none =>
        let (ls, c) := c.withLinks d
        let u := Document.urlAmong ls name
        (u, { c with urls := (name, u) :: c.urls })

end Changelog

end UpgradeScan
