/-
`Path.lean` -- file paths as text, and the components read off the text.

A path keeps the text it was given: `a//b/` stays `a//b/`. What counts for its structure are its
components: the root of an absolute path, one leading `.`, and then the segments between slashes,
where empty segments and later dots do not count. Taking the parent cuts the text after the
component before the last, so the spelling of the front is kept.

Nothing here looks at a disk. A `..` is a component like any other, since what it leads to is known
only where the folders are; so it has no name, it is not taken back when paths are joined, and a
path that has one before its end has a parent that still has it.

Two paths can have the same components and different texts. They lead to the same place, but they
are shown differently, and a path that is joined to them differs as well. So the structure on which
a search works is the components, and what a report shows is the text.
-/
import UpgradeScan.Text.Split

set_option autoImplicit false

namespace UpgradeScan

/-- A path, as it is written. -/
structure Path where
  text : String
  deriving DecidableEq, Repr, Inhabited

namespace Path

/-! ## 1. Components

What stands at the front decides what kind of path it is, and only there. Behind it the text is a
row of segments, of which some are components. -/

/-- What a path consists of. -/
inductive Component where
  /-- The root of an absolute path. -/
  | root
  /-- A `.` at the very front of a relative path. -/
  | here
  /-- A `..`. -/
  | up
  /-- An ordinary name. -/
  | name (s : String)
  deriving DecidableEq, Repr

/-- What stands before the segments. -/
inductive Lead where
  | root
  | here
  | plain
  deriving DecidableEq, Repr

/-- The text of what stands before the segments. -/
def Lead.text : Lead → List Char
  | .root => ['/']
  | .here => ['.']
  | .plain => []

/-- The lead of a path and the text after it. -/
def lead : List Char → Lead × List Char
  | '/' :: r => (.root, r)
  | ['.'] => (.here, [])
  | '.' :: '/' :: r => (.here, '/' :: r)
  | s => (.plain, s)

/-- The segment is a component: neither empty nor a dot. -/
def counts (seg : List Char) : Bool := seg != [] && seg != ['.']

/-- The component that a counting segment is. -/
def Component.ofSegment (seg : List Char) : Component :=
  if seg = ['.', '.'] then .up else .name (String.ofList seg)

/-- The text of a component. -/
def Component.text : Component → String
  | .root => "/"
  | .here => "."
  | .up => ".."
  | .name s => s

/-- The segments after the lead. -/
def segments (p : Path) : List (List Char) := Text.fields '/' (lead p.text.toList).2

/-- The components of a path, from the front. -/
def components (p : Path) : List Component :=
  let front := match (lead p.text.toList).1 with
    | .root => [Component.root]
    | .here => [Component.here]
    | .plain => []
  front ++ (p.segments.filter counts).map Component.ofSegment

/-- The path begins at the root. -/
def isAbsolute (p : Path) : Bool := p.text.toList.head? == some '/'

/-! ## 2. Last component and parent

Both are found from behind. Segments that do not count are passed over first, since a slash at the
end or a dot there is not a component of its own. -/

/-- The name that the path ends with; none after a `..`, a lone lead, or nothing. -/
def fileName? (p : Path) : Option String :=
  match (p.segments.filter counts).getLast? with
  | none => none
  | some seg => if seg = ['.', '.'] then none else some (String.ofList seg)

/-- The path without its last component. A path that is only a root, or empty, has none. -/
def parent? (p : Path) : Option Path :=
  let l := (lead p.text.toList).1
  match p.segments.reverse.dropWhile (fun s => !counts s) with
  | [] => match l with
    | .here => some ⟨""⟩
    | _ => none
  | _ :: before =>
    let kept := (before.dropWhile (fun s => !counts s)).reverse
    some ⟨String.ofList (l.text ++ Text.join ['/'] kept)⟩

/-- At most `n` paths: the path, its parent, and so on. -/
def upward : Nat → Path → List Path
  | 0, _ => []
  | n + 1, p => p :: match p.parent? with
    | none => []
    | some q => upward n q

/-- The path and every path above it. A parent is shorter or has one component less. -/
def ancestors (p : Path) : List Path := upward (p.text.length + 2) p

/-! ## 3. Parts of the last name

A name is cut at its last dot. A name that begins with its only dot is a stem without an extension.
-/

/-- The name before and after its last dot. A dot that begins the name does not count. -/
def splitName (name : String) : String × Option String :=
  let r := name.toList.reverse
  match r.dropWhile (· != '.') with
  | [] => (name, none)
  | _ :: before =>
    if before = [] then (name, none)
    else
      (String.ofList before.reverse, some (String.ofList (r.takeWhile (· != '.')).reverse))

/-- The last name without its extension. -/
def fileStem? (p : Path) : Option String := p.fileName?.map fun n => (splitName n).1

/-- What follows the last dot of the last name. -/
def extension? (p : Path) : Option String :=
  match p.fileName? with
  | none => none
  | some n => (splitName n).2

/-! ## 4. Joining

The second path goes on from the first one unless it begins at the root. The slash between them is
put in where none is there already, and nothing else about the two texts is changed. -/

/-- `q` seen from `p`: an absolute `q` stays as it is. -/
def join (p q : Path) : Path :=
  if q.isAbsolute then q
  else if p.text.isEmpty || p.text.toList.getLast? == some '/' then ⟨p.text ++ q.text⟩
  else ⟨p.text ++ "/" ++ q.text⟩

/-- The path of a list of components. -/
def ofComponents (cs : List Component) : Path :=
  cs.foldl (fun p c => p.join ⟨c.text⟩) ⟨""⟩

/-! ## 5. One path seen from another

Both lists of components are walked from the front while they agree. Then every component that is
left of the second one is climbed, and what is left of the first one follows. A `..` that is left of
the second one cannot be climbed, since it is not known where it comes from. -/

/-- The components that lead from the place of the second list to that of the first. `none`
when a `..` of the second list cannot be undone. The flag says that nothing was written yet. -/
def relative (fresh : Bool) : List Component → List Component → Option (List Component)
  | [], [] => some []
  | a :: as, [] => some (a :: as)
  | [], _ :: bs => (relative false [] bs).map (.up :: ·)
  | a :: as, b :: bs =>
    if fresh && a == b then relative true as bs
    else if b == .here then (relative false as bs).map (a :: ·)
    else if b == .up then none
    else some (List.replicate (bs.length + 1) .up ++ a :: as)

/-- `p` seen from `base`. An absolute path seen from a relative one stays as it is; the other
way round there is no answer. -/
def relativeTo? (p base : Path) : Option Path :=
  if p.isAbsolute != base.isAbsolute then
    if p.isAbsolute then some p else none
  else (relative true p.components base.components).map ofComponents

end Path

end UpgradeScan
