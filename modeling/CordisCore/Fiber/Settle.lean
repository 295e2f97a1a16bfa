import CordisCore.Fiber.Inertia

/-!
# Settling one generation — transitions, drains, settle and teardown bodies
-/

namespace CordisCore
namespace Runtime

open Interleaving
open Interleaving.Program (iterate)

/-! ## Service drift -/

/-- Advance the durable revision of every affected dependent. -/
def advanceAll : List FiberId → Prog (List (FiberId × Nat))
  | [] => pure []
  | f :: rest => do
      let revision ← perform (.commitRecheck f)
      let affected ← advanceAll rest
      pure ((f, revision) :: affected)

/-- `CommittedServiceDrift::commit`, inside a ServiceStore section. -/
def commitDrift (edges : List DependencyEdge) : Prog (List (FiberId × Nat)) := do
  let affected ← perform (.dependentsOf edges)
  advanceAll affected

/-- The drift of the slots that a transition shows or hides. -/
def visibilityDrift (visibility : List DependencyEdge) : Prog (List (FiberId × Nat)) :=
  -- the owner publishes nothing
  if visibility = [] then pure [] else commitDrift visibility

/-- `commit_fiber_transition`: revisions first, visibility second, under one lock. -/
def commitFiberTransition (f : FiberId) (next : FiberState) : Prog (List (FiberId × Nat)) := do
  perform .lockStore
  -- the slots of this owner become visible or invisible with the state
  let visibility ← perform (.visibility f)
  let drift ← visibilityDrift visibility
  on f (.publish next)
  perform .unlockStore
  pure drift

/-- Publish one lifecycle transition together with its visibility drift. -/
def transition (f : FiberId) (next : FiberState) : Prog Unit := do
  let old ← on f .state
  if old = next then pure ()
  else do
    let root ← on f .installed
    -- only a change from or to Active moves service visibility
    if (old = .active) ≠ (next = .active) ∧ root = true then do
      let drift ← commitFiberTransition f next
      kickAll drift
    else on f (.publish next)

/-! ## Drains -/

/-- Run one claimed cleanup under framework ownership and wait for its outcome. -/
def runCleanupContained (f : FiberId) (cleanup : Cleanup) : Prog Unit := do
  let id ← perform (.claimCleanup f)
  let _ ← perform (.fork (.cleanup f id cleanup))
  perform (.awaitOutcome id)

/-- Claim the cleanup of one token and run it, unless somebody else claimed it. -/
def runToken (f : FiberId) (token : Token) : Prog Unit := do
  match ← on f (.removeDisposable token) with
  | some cleanup => runCleanupContained f cleanup
  -- a control of the occurrence claimed it first
  | none => pure ()

/-- Run the cleanups of these tokens in the given order. -/
def runTokens (f : FiberId) : List Token → Prog Unit
  | [] => pure ()
  | token :: rest => do
      runToken f token
      runTokens f rest

def waitClaimedDrainCleanup (f : FiberId) : Prog Unit := do
  match ← on f .readDrainCleanup with
  | some id => perform (.awaitCompleted id)
  | none => pure ()

def drainDisposables (f : FiberId) : Prog Unit := do
  -- a cancelled drain may have left a cleanup running
  waitClaimedDrainCleanup f
  let tokens ← on f .tokens
  on f (.store .draining true)
  -- newest first
  runTokens f tokens.reverse
  on f (.store .draining false)

/-! ## One settle pass -/

/-- Whether the first apply is left to the creation's initial pass. -/
def firstApplyHeld (f : FiberId) (ownsFirstApply : Bool) : Prog Bool := do
  if ownsFirstApply then pure false
  else do
    -- until the creation is over the first apply belongs to its own pass
    if ← on f (.load .creationPending) then do
      let applied ← on f (.load .applied)
      pure !applied
    else pure false

/-- Roll a failed generation back, then park its failure. -/
def rollback (f : FiberId) (failure : PluginFailure) : Prog Unit := do
  transition f .unloading
  -- what the failed apply registered goes before the failure shows
  drainDisposables f
  on f (.storeError (some failure))
  transition f .failed

/-- Apply the Plugin toward a target and publish what came of it. -/
def applyGeneration (f : FiberId) (target : SemanticTarget) : Prog Unit := do
  -- the new generation may register again
  on f (.store .generationReplacing false)
  transition f .loading
  on f (.startApply target)
  let outcome ← on f .finishApply
  on f (.store .applied true)
  match outcome.failure with
  | none => do
      -- an Active Fiber has no parked failure
      on f (.storeError none)
      transition f .active
  | some failure => rollback f failure

/-- Tear down what the previous generation left live. -/
def unloadGeneration (f : FiberId) : Prog Unit := do
  match ← on f .state with
  | .active | .failed | .loading => do
      transition f .unloading
      drainDisposables f
  -- nothing is live
  | .pending | .unloading | .disposed => pure ()

def settleOnceInner (f : FiberId) (target : SemanticTarget) (ownsFirstApply : Bool) :
    Prog Unit := do
  if ← on f (.load .alive) then do
    unloadGeneration f
    if target.hasMissing then do
      -- a dependency is missing
      on f (.storeError none)
      transition f .pending
    else do
      if ← firstApplyHeld f ownsFirstApply then pure ()
      else applyGeneration f target
  else pure ()

/-- One settle pass inside its attribution bracket. -/
def settleOnce (f : FiberId) (target : SemanticTarget) (ownsFirstApply : Bool) : Prog Unit := do
  on f (.enterBracket .settle)
  settleOnceInner f target ownsFirstApply
  on f (.exitBracket .settle)

/-! ## Teardown -/

/-- Withdraw the dependency rows of a Fiber that has a spawn state. -/
def unregisterInstalled (f : FiberId) : Prog Unit := do
  if ← on f .installed then perform (.unregister f) else pure ()

/-- Mark dead, withdraw from the index and drain, unless a teardown already finished. -/
def teardownBody (f : FiberId) : Prog Unit := do
  on f (.store .creationPending false)
  let state ← on f .state
  -- somebody finished the teardown already
  if state = .disposed then pure ()
  else do
    transition f .unloading
    -- no pass may apply to a Fiber that is going away
    on f .pinInactive
    on f (.store .alive false)
    unregisterInstalled f
    drainDisposables f
    transition f .disposed
    on f (.storeError none)

def bracketedTeardown (f : FiberId) : Prog Unit := do
  on f (.enterBracket .teardown)
  teardownBody f
  on f (.exitBracket .teardown)

/-- Release the exact residency claim, if nobody took it yet. -/
def releaseResidency (f : FiberId) : Prog Unit := do
  match ← on f .takeResidency with
  | some group => do
      -- the claim is weak: the allocation may be gone
      if ← perform (.upgradeClaim f group) then perform (.releaseClaim f group) else pure ()
  | none => pure ()

def publishDisposeComplete (f : FiberId) : Prog Unit :=
  on f (.store .disposeComplete true)

/-- The terminal barrier, once `disposing` is won and the slot is held. -/
def completeClaimedDispose (f : FiberId) : Prog Unit := do
  on f (.enterBracket .teardown)
  teardownBody f
  -- the slot is freed inside the bracket, the barrier is published after it
  on f .abandon
  on f (.exitBracket .teardown)
  releaseResidency f
  publishDisposeComplete f

def waitDisposeComplete (f : FiberId) : Prog Unit :=
  iterate () fun _ => do
    if ← on f (.load .disposeComplete) then leave ()
    else do
      on f .awaitDisposed
      again ()

/-- Terminal disposal: the first claim owns it, everyone else joins its barrier. -/
def dispose (f : FiberId) : Prog Unit := do
  if ← on f (.load .disposeComplete) then pure ()
  else do
    claim f
    -- the disposal finished while this call waited for the slot
    if ← on f (.load .disposeComplete) then on f .abandon
    else do
      if ← on f (.swapGated .disposing) then do
        on f .abandon
        -- another caller owns the terminal pass; this one joins its barrier
        waitDisposeComplete f
      else do
        perform .handOff
        completeClaimedDispose f

/-- The failed creation's teardown, under the slot its initial pass holds. -/
def creationTeardown (f : FiberId) : Prog Unit := do
  -- a disposal from outside that comes later joins the barrier
  let _ ← on f (.swapGated .disposing)
  bracketedTeardown f
  releaseResidency f
  publishDisposeComplete f

/-- The cancelled creation's teardown once it holds the slot. -/
def finishInterrupted (f : FiberId) : Prog Unit := do
  bracketedTeardown f
  on f .abandon
  releaseResidency f
  publishDisposeComplete f

/-- Completion of a caller-cancelled creation. -/
def creationInterruptedTeardown (f : FiberId) : Prog Unit := do
  if ← on f .takeCreationOwnership then do
    -- the cancelled pass died holding the slot
    let _ ← on f (.swapGated .disposing)
    finishInterrupted f
  else do
    -- a disposal from outside owns the end of the Fiber
    if ← on f (.swapGated .disposing) then waitDisposeComplete f
    else do
      claim f
      if ← on f (.load .alive) then finishInterrupted f
      else on f .abandon

/-- `withdraw_exact`, inside its ServiceStore section. -/
def withdrawExact (key : DependencyEdge) (occurrence : Occurrence) : Prog Unit := do
  -- a later publication under the same key stays
  if ← perform (.holds key occurrence) then perform (.removeSlot key) else pure ()

/-- What the cleanup itself does. -/
def cleanupBody : Cleanup → Prog Unit
  | .effect => perform .userCleanup
  | .withdraw key occurrence => do
      perform .lockStore
      withdrawExact key occurrence
      perform .unlockStore
  | .join cell => do
      -- waits until run has parked the handle
      let task ← perform (.takeCell cell)
      perform (.awaitTask task)

/-- Execute one claimed cleanup; its drain is told before the completion is published. -/
def runCleanup (f : FiberId) (id : CleanupId) (cleanup : Cleanup) : Prog Unit := do
  on f (.enterBracket .cleanup)
  cleanupBody cleanup
  on f (.exitBracket .cleanup)
  perform (.sendOutcome f id)
  perform (.completeCleanup id)

end Runtime
end CordisCore
