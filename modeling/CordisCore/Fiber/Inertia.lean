import CordisCore.Runtime.Exec

/-!
# The settle slot — claim, exit recheck and kick

The protocol of `InertiaSlot` up to the passes that settle: who may take the slot,
how a holder releases it, and how a committed recheck finds a driver.
-/

namespace CordisCore
namespace Runtime

open Interleaving
open Interleaving.Program (iterate)

/-- Lifecycle code. -/
abbrev Prog := Program Op Op.Ret

/-- One atomic operation. -/
abbrev perform (op : Op) : Prog op.Ret :=
  Program.perform op

/-- One atomic operation on a Fiber. -/
abbrev on (f : FiberId) (op : FiberOp) : Prog op.Ret :=
  Program.perform (Op.on f op)

/-- One step of a loop: go around with a new value. -/
abbrev again {α β : Type} (a : α) : Prog (α ⊕ β) :=
  pure (.inl a)

/-- One step of a loop: leave with an answer. -/
abbrev leave {α β : Type} (b : β) : Prog (α ⊕ β) :=
  pure (.inr b)

/-! ## The slot -/

/-- Wait until the slot is free, then claim it. -/
def claim (f : FiberId) : Prog Unit :=
  iterate () fun _ => do
    if ← on f .tryClaim then leave ()
    else do
      on f .awaitIdle
      again ()

def hasCommittedRecheck (f : FiberId) : Prog Bool := do
  let committed ← on f .recheckRevision
  let settled ← on f .loadSettled
  pure (committed != settled)

/-- Wait for arbitration idle. -/
def waitIdle (f : FiberId) : Prog Unit :=
  iterate () fun _ => do
    if ← on f .isIdle then leave ()
    else do
      on f .awaitIdle
      again ()

/-! ## The live target -/

/-- Each edge is read in a ServiceStore section of its own. -/
def readAssignments :
    List DependencyEdge → Prog (List (DependencyEdge × Option Occurrence))
  | [] => pure []
  | edge :: edges => do
      let publication ← perform (.occurrenceId edge)
      let assignments ← readAssignments edges
      pure ((edge, publication) :: assignments)

def computeTarget (f : FiberId) : Prog SemanticTarget := do
  let input ← on f .effectiveInput
  let edges ← on f .dependencyEdges
  let assignments ← readAssignments edges
  pure { input := input, assignments := assignments }

/-! ## Releasing through RELEASING -/

/-- Judge drift from RELEASING: `true` keeps the slot for the recorded new target. -/
def exitRecheck (f : FiberId) (settled : SemanticTarget) (revision : Nat) : Prog Bool :=
  iterate revision fun revision => do
    -- from here on a commit may claim the slot back for this holder
    on f (.storeInertia .releasing)
    let live ← computeTarget f
    let observedRevision ← on f .recheckRevision
    if live ≠ settled then do
      -- drift: go on holding, toward the new target
      on f (.recordTarget live)
      on f (.storeInertia .active)
      leave true
    else if observedRevision ≠ revision then
      -- a commit came in while the target was read; its revision is judged next
      again observedRevision
    else do
      on f (.storeSettled revision settled)
      match ← on f .release with
      -- nobody intervened: the exchange published IDLE
      | .releasing => leave false
      | .active => do
          -- a committed recheck claimed the releasing slot for this holder
          let revision ← on f .recheckRevision
          again revision
      | .idle => do
          let impossible ← perform .panic
          nomatch impossible

/-! ## Kicking a committed recheck -/

/-- The kick that won the idle slot: recheck, and hand drift to a convergence task. -/
def kickClaimed (f : FiberId) : Prog Unit := do
  let revision ← on f .recheckRevision
  match ← on f .readTarget with
  | some settled =>
      -- the convergence task inherits the slot; without drift it is free again
      if ← exitRecheck f settled revision then do
        let _ ← perform (.fork (.convergence f))
        pure ()
      else pure ()
  | none => do
      -- before the creation pass recorded its first target
      let live ← computeTarget f
      on f (.recordTarget live)
      let _ ← perform (.fork (.convergence f))
      pure ()

/-- One look at the inertia word. -/
def kickOnce (f : FiberId) (revision : Nat) : Prog (Unit ⊕ Unit) := do
  match ← on f (.loadInertia revision) with
  -- the holder rechecks before it lets go
  | .active => leave ()
  | .releasing => do
      -- the releasing holder is made to go around once more
      if ← on f (.reclaim revision) then leave () else again ()
  -- nobody drives: win the slot here, which needs a runtime to spawn on
  | .idle => do
      if ← perform (.tryCurrent revision) then do
        if ← on f .tryClaim then do
          on f (.kicked revision)
          kickClaimed f
          leave ()
        else again ()
      else leave ()

/-- Ensure that some holder drives the committed revision. -/
def ensureDriven (f : FiberId) (revision : Nat) : Prog Unit := do
  if ← on f (.load .alive) then do
    -- an acknowledged revision needs no driver
    if ← hasCommittedRecheck f then iterate () fun _ => kickOnce f revision else pure ()
  else pure ()

/-- `kick` for one committed revision; its end is remembered. -/
def kick (f : FiberId) (revision : Nat) : Prog Unit := do
  ensureDriven f revision
  on f (.kicked revision)

/-- Drive every dependent of a commit, after the ServiceStore lock is free. -/
def kickAll : List (FiberId × Nat) → Prog Unit
  | [] => pure ()
  | (f, revision) :: rest => do
      kick f revision
      kickAll rest

end Runtime
end CordisCore
