/-
`Extension.lean` -- the extension that a scanned path belongs to.

Extensions live in directories below one that is called `ext`. The nearest such directory above the
path decides: the component right below it is the key of the extension. Where there is none, the
path itself takes the place of the extension's root.

The search goes up along the parents and keeps the name it saw last, which is the key when an `ext`
comes next. It ends at a component without a name, such as a `..`, because there is no telling what
is above it. A path that ends with `ext` has no component below it and so no key, and the search
does not go on to an `ext` further up.

The base is written from the path as it was given, with a slash at its end.
-/
import UpgradeScan.Path

set_option autoImplicit false

namespace UpgradeScan

/-- Where a scan takes place. -/
structure Site where
  /-- The key of the extension that is scanned, if it is one. -/
  key : Option String
  /-- The directory that paths in the report are seen from. -/
  base : Path
  deriving DecidableEq, Repr, Inhabited

namespace Site

/-- The place is inside an extension. -/
def isExtension (s : Site) : Bool := s.key.isSome

/-- The key as it is shown: no text where there is no extension. -/
def keyText (s : Site) : String := s.key.getD ""

/-- Looks through a path and those above it, given the name seen last. -/
def search : List Path → Option String → Option (Path × String)
  | [], _ => none
  | p :: above, below =>
    match p.fileName? with
    | none => none
    | some name =>
      if name = "ext" then below.map fun key => (p, key)
      else search above (some name)

/-- The site of a path. -/
def ofPath (p : Path) : Site :=
  match search p.ancestors none with
  | some (ext, key) => ⟨some key, ⟨(ext.join ⟨key⟩).text ++ "/"⟩⟩
  | none => ⟨none, p⟩

end Site

end UpgradeScan
