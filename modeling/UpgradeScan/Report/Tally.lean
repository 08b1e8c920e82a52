/-
`Report/Tally.lean` -- how often each confidence and each category occurs.

A tally is a list of labels with counts. Both confidences come first and are always there; the
categories follow in the order of their first finding.

It is a list and not a map, because the order in which shares are shown is that of the list. Each
finding is counted twice, once for its confidence and once for its category, so the counts add up to
twice the number of findings.
-/
import UpgradeScan.Report.Basic

set_option autoImplicit false

namespace UpgradeScan

/-- What is counted. -/
inductive Label where
  | confidence (c : Confidence)
  | category (c : Category)
  deriving DecidableEq, Repr

/-- The name under which a label is shown. -/
def Label.name : Label → String
  | .confidence c => c.name
  | .category c => c.name

/-- Labels with counts, in the order in which they are shown. -/
abbrev Tally := List (Label × Nat)

namespace Tally

/-- One more of a label. -/
def add (l : Label) : Tally → Tally
  | [] => [(l, 1)]
  | (k, n) :: t => if k = l then (k, n + 1) :: t else (k, n) :: add l t

/-- Both confidences, not yet seen. -/
def empty : Tally := Confidence.all.map fun c => (.confidence c, 0)

/-- One more finding: first its confidence, then its category. -/
def addFinding (t : Tally) (f : Finding) : Tally :=
  (t.add (.confidence f.confidence)).add (.category f.category)

/-- The tally of a list of findings. -/
def ofFindings (fs : List Finding) : Tally := fs.foldl addFinding empty

/-- The count shown under a name. -/
def get? (t : Tally) (name : String) : Option Nat :=
  (t.find? fun e => e.1.name == name).map (·.2)

end Tally

/-- The tally of a report. -/
def Report.tally (r : Report) : Tally := Tally.ofFindings r.findings

end UpgradeScan
