/-
`Template/Fault.lean` -- what can go wrong with a template, before and while it is rendered.

A template is refused as a whole when its file cannot be read or its text is none. Rendering can
end early in two ways that have little in common. A fault is found by the renderer: an argument is
missing, a name stands for nothing. It is an answer like any other, and whoever asked for the report
is told about it. The other way is that the stack has no room for one more embedded template. Then
nobody is told anything, because the program is ended on the spot. So the two are kept apart here,
and every statement about rendering can say which of them it means.
-/
import UpgradeScan.Files.Disk

set_option autoImplicit false

namespace UpgradeScan.Template

/-- Why a template cannot be used under its name. -/
inductive LoadFault where
  /-- The file of the template cannot be read. -/
  | unreadable (name : String) (f : Fault)
  /-- The text is no template. -/
  | malformed (name : String)
  deriving DecidableEq, Repr

/-- Why rendering fails. -/
inductive RenderFault where
  | missingArgument
  | notAnIndex (step : String)
  | unknownHelper (name : String)
  | unknownTemplate (name : String)
  | unknownDefinition (name : String)
  | embedsItself
  | bodyRequired
  | unknownLevel
  deriving DecidableEq, Repr

/-- Why a rendering does not come to its end. -/
inductive Interruption where
  | fault (f : RenderFault)
  /-- The stack has no room for one more embedded template. -/
  | exhausted
  deriving DecidableEq, Repr

end UpgradeScan.Template
