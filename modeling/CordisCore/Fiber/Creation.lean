import CordisCore.Fiber.Passes
import CordisCore.Fiber.Service

/-!
# Creation and removal — the spawn transaction, typed removal and era replacement
-/

namespace CordisCore
namespace Runtime

open Interleaving
open Interleaving.Program (iterate)

/-! ## The spawn transaction -/

/-- Judge the fresh Fiber under the slot once more, then hand it off. -/
def handoff (f : FiberId) : Prog (Except SpawnError FiberId) := do
  claim f
  let alive ← on f (.load .alive)
  -- the slot is given up whatever was found
  on f .abandon
  if alive then do
    on f (.store .creationPending false)
    perform .disarm
    on f .deliver
    pure (.ok f)
  else do
    -- a removal disposed the Fiber before it was handed out
    releaseResidency f
    perform .disarm
    pure (.error .interrupted)

/-- Allocate, attach, install and register a fresh Fiber; its guard is armed. -/
def admitFiber (key : PluginKey) (edges : List DependencyEdge) : Prog FiberId := do
  let f ← perform (.allocate edges)
  perform (.attach f key)
  -- a caller that is dropped from here on leaves a teardown behind
  perform (.arm f)
  perform (.install f key)
  perform (.register f)
  pure f

/-- The spawn gate; era replacement has no origin to ask. -/
def admitOrigin (origin : FiberId) (requireOriginOpen : Bool) : Prog Bool :=
  if requireOriginOpen then assertCanRegister origin else pure true

def spawnPreparedInner (origin : FiberId) (key : PluginKey) (edges : List DependencyEdge)
    (requireOriginOpen : Bool) : Prog (Except SpawnError FiberId) := do
  if ← admitOrigin origin requireOriginOpen then do
    let f ← admitFiber key edges
    match ← initialSpawnPass f with
    | .active | .pending => handoff f
    | .failed failure => do
        -- the initial pass has torn the Fiber down already
        perform .disarm
        pure (.error (.initialApply failure))
    | .interrupted => do
        perform .disarm
        pure (.error .interrupted)
  else pure (.error .inactiveContext)

/-! ## Typed removal -/

/-- Dispose the frozen members one after the other. -/
def disposeEach : List FiberId → Prog Unit
  | [] => pure ()
  | f :: rest => do
      dispose f
      disposeEach rest

/-- `dispose_all`, with the group size its debug assertion reads. -/
def disposeAll (group : GroupId) (fibers : List FiberId) : Prog Nat := do
  disposeEach fibers
  let fiberCount ← perform (.fiberCount group)
  perform (.dropGroup group)
  pure fiberCount

/-- How a typed removal ended. -/
inductive RemovalOutcome where
  | recursion
  | absent
  | removed (group : GroupId) (fiberCount : Nat)
  deriving DecidableEq

def removePlugins (ctx : SettleCtx) (key : PluginKey) : Prog RemovalOutcome := do
  match ← perform (.detachForRemoval ctx key) with
  | none => pure .recursion
  -- no allocation under this key
  | some none => pure .absent
  | some (some (group, fibers)) => do
      -- the frozen group is disposed under framework ownership
      perform .handOff
      let fiberCount ← disposeAll group fibers
      pure (.removed group fiberCount)

/-! ## Handle operations -/

def handleReady (ctx : SettleCtx) (f : FiberId) : Prog (Except ReadyError FiberState) := do
  if ← perform (.refuseRecursion ctx f .ready) then pure (.error .recursion)
  else do
    let result ← readyLoop f
    on f .leave
    pure result

/-- A wait with a deadline cannot outlive it. -/
def leaveBounded (f : FiberId) (bounded : Bool) : Prog Unit :=
  if bounded then on f .leave else pure ()

/-- `wait_for`: a publication since the baseline wins over the deadline. -/
def handleWaitState (ctx : SettleCtx) (f : FiberId) (state : FiberState) (bounded : Bool) :
    Prog (Except WaitStateError Unit) := do
  if ← perform (.refuseRecursion ctx f .waitState) then pure (.error .recursion)
  else do
    leaveBounded f bounded
    -- the window opens before the state is looked at
    let baseline ← on f (.revisions state)
    let observed ← on f (.awaitState state baseline.2 bounded)
    on f .leave
    if observed then pure (.ok ()) else pure (.error .elapsed)

def handleDispose (ctx : SettleCtx) (f : FiberId) : Prog Bool := do
  if ← perform (.refuseRecursion ctx f .dispose) then pure false
  else do
    dispose f
    pure true

def handleRestart (ctx : SettleCtx) (f : FiberId) : Prog (Except RestartError Unit) := do
  if ← perform (.refuseRecursion ctx f .restart) then pure (.error .recursion)
  else do
    if ← on f (.load .alive) then restartPass f else pure (.error .closed)

def handleUpdate (ctx : SettleCtx) (f : FiberId) (change : PreparedChange) :
    Prog (Except UpdateError UpdateOutcome) := do
  if ← perform (.refuseRecursion ctx f .update) then pure (.error .recursion)
  else do
    if ← on f (.load .alive) then do
      let contract ← on f .contract
      -- judged before the control chain may run
      if contract ≠ some change.contract then pure (.error .pluginContractMismatch)
      else do
        match ← perform .awaitControl with
        | .failed => pure (.error .control)
        | .vetoed => pure (.ok .vetoed)
        | .accepted => do
            match ← updatePass f with
            | .ok state => pure (.ok (.committed state))
            | .error refusal => pure (.error refusal)
    else pure (.error .closed)

/-! ## Era replacement -/

/-- The dependents whose settle context the caller runs in. -/
def refuseAny (ctx : SettleCtx) : List FiberId → Prog Bool
  | [] => pure false
  | f :: rest => do
      if ← perform (.refuseRecursion ctx f .eraSwap) then pure true else refuseAny ctx rest

/-- Wait for every captured dependent to be quiescent. -/
def converge (ctx : SettleCtx) : List FiberId → Prog Unit
  | [] => pure ()
  | f :: rest => do
      let _ ← handleReady ctx f
      converge ctx rest

/-- A fresh dependent query over these edges, then the barrier. -/
def captureAndConverge (ctx : SettleCtx) (edges : List DependencyEdge) (skip : List FiberId) :
    Prog Unit := do
  let dependents ← perform (.dependentsOf edges)
  converge ctx (dependents.filter fun f => f ∉ skip)

/-- The successor was never delivered. -/
def cleanupUndeliveredSuccessor (ctx : SettleCtx) (oldEdges : List DependencyEdge)
    (source successor : FiberId) : Prog Unit := do
  let successorEdges ← perform (.slotsOwnedBy successor)
  dispose successor
  captureAndConverge ctx (oldEdges ++ successorEdges) [source, successor]

/-- The claimed source ends, its dependents settle, its successor is born. -/
def runCommittedReplacement (ctx : SettleCtx) (source : FiberId) (key : PluginKey)
    (oldEdges : List DependencyEdge) (entryDependents : List FiberId) :
    Prog (Except EraSwapError FiberId) := do
  completeClaimedDispose source
  converge ctx entryDependents
  if ← perform .inputDrop then do
    captureAndConverge ctx oldEdges [source]
    pure (.error .inputDropPanic)
  else do
    let edges ← on source .dependencyEdges
    match ← spawnPreparedInner 0 key edges false with
    | .error refusal => do
        captureAndConverge ctx oldEdges [source]
        match refusal with
        | .initialApply failure => pure (.error (.successorApply failure))
        | .interrupted | .inactiveContext => pure (.error .successorLost)
    | .ok successor => do
        let successorEdges ← perform (.slotsOwnedBy successor)
        captureAndConverge ctx (oldEdges ++ successorEdges) [source, successor]
        pure (.ok successor)

/-- A dead or terminally claimed source is not replaced. -/
def closedSource (f : FiberId) : Prog Bool := do
  if ← on f (.load .alive) then on f (.load .disposing) else pure true

/-- What the entry of an era replacement decided under the journal lock. -/
inductive EraEntry where
  | recursion
  | closed
  | claimed (oldEdges : List DependencyEdge) (entryDependents : List FiberId)

/-- Capture the old edges under the journal lock, then claim terminally. -/
def enterEra (ctx : SettleCtx) (f : FiberId) : Prog EraEntry := do
  on f .lockDisposables
  let oldEdges ← perform (.slotsOwnedBy f)
  let dependents ← perform (.dependentsOf oldEdges)
  let entryDependents := dependents.filter fun g => g ≠ f
  if ← refuseAny ctx entryDependents then do
    on f .unlockDisposables
    pure .recursion
  else do
    let alreadyDisposing ← on f (.swapGated .disposing)
    on f .unlockDisposables
    if alreadyDisposing then pure .closed else pure (.claimed oldEdges entryDependents)

def eraSwap (ctx : SettleCtx) (f : FiberId) (change : PreparedChange) :
    Prog (Except EraSwapError FiberId) := do
  if ← perform (.refuseRecursion ctx f .eraSwap) then pure (.error .recursion)
  else do
    if ← closedSource f then pure (.error .closed)
    else do
      let contract ← on f .contract
      if contract ≠ some change.contract then pure (.error .pluginContractMismatch)
      else eraClaimed
where
  /-- Past the terminal claim; a successor that nobody receives is cleaned up. -/
  replaceEra (oldEdges : List DependencyEdge) (entryDependents : List FiberId) :
      Prog (Except EraSwapError FiberId) := do
    match ← runCommittedReplacement ctx f change.contract oldEdges entryDependents with
    | .ok successor => do
        if ← perform .offer then pure (.ok successor)
        else do
          cleanupUndeliveredSuccessor ctx oldEdges f successor
          pure (.error .successorLost)
    | .error refusal => pure (.error refusal)
  /-- Win the slot and the terminal claim. -/
  eraClaimed : Prog (Except EraSwapError FiberId) := do
    claim f
    if ← on f (.load .alive) then do
      match ← enterEra ctx f with
      | .recursion => do
          on f .abandon
          pure (.error .recursion)
      | .closed => do
          on f .abandon
          pure (.error .closed)
      | .claimed oldEdges entryDependents => do
          perform .handOff
          replaceEra oldEdges entryDependents
    else do
      on f .abandon
      pure (.error .closed)

end Runtime
end CordisCore
