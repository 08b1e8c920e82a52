/-
`Configuration/Basic.lean` -- what a configuration file can say.

Every entry may be missing, and so may every section; a section that is there may still be empty.
Entries with other names are no fault.

Two formats are read into the same structure, so nothing after this knows in which of them a
configuration was written.
-/

set_option autoImplicit false

namespace UpgradeScan

/-- Where the documentation of the changes is. -/
structure Resources where
  /-- The folder with the changelog entries. -/
  changelog : Option String
  /-- The file with the addresses of the pages. -/
  links : Option String
  deriving DecidableEq, Repr, Inhabited

/-- How the engine is started. -/
structure Launch where
  program : Option String
  arguments : List String
  deriving DecidableEq, Repr, Inhabited

/-- Where the matchers are configured. -/
structure MatcherPlace where
  path : Option String
  deriving DecidableEq, Repr, Inhabited

/-- The content of a configuration file. -/
structure Configuration where
  target : Option String
  only : Option String
  indicators : Option String
  format : Option String
  /-- The folder with further templates. -/
  templates : Option String
  resources : Option Resources
  matchers : Option MatcherPlace
  engine : Option Launch
  deriving DecidableEq, Repr, Inhabited

/-- The configuration that says nothing. -/
def Configuration.empty : Configuration :=
  ⟨none, none, none, none, none, none, none, none⟩

end UpgradeScan
