/-
`Engine/Program.lean` -- a program as the engine.

The program is told where the configuration of the matchers is, which matchers to run, and last the
directory. It has to end by itself with status 0; what it wrote is then the report.

What it wrote is not looked at when it ended otherwise, and its complaint is passed on instead. What
it changed on the disk stays changed in any case.
-/
import UpgradeScan.Engine.Reader
import UpgradeScan.Scan.Basic

set_option autoImplicit false

namespace UpgradeScan

namespace Ruleset

/-- The arguments that tell a program what to look for in a directory. -/
def arguments (r : Ruleset) (root : Path) : List String :=
  ["--config", r.config.text] ++ r.ids.flatMap (fun id => ["--matcher", id]) ++ [root.text]

end Ruleset

/-- The report of a program that has ended. -/
def Outcome.report (program : String) (o : Outcome) : Except EngineFault Report :=
  if o.ending.isSuccess then
    match Report.ofBytes o.output with
    | .ok r => .ok r
    | .error d => .error (.unreadable d)
  else .error (.ended program o.ending (Text.trimmed (Text.Utf8.lossy o.complaints)))

/-- The engine that starts a program, with arguments of its own before the others. -/
def programEngine (launch : Launcher) (program : String) (args : List String) :
    Engine Machine := fun root rules m =>
  match m.start launch program (args ++ rules.arguments root) with
  | (.ok o, m) => (o.report program, m)
  | (.error why, m) => (.error (.notStarted program why), m)

end UpgradeScan
