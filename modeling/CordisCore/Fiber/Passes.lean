import CordisCore.Fiber.Settle

/-!
# Lifecycle passes — initial spawn, convergence, restart and update
-/

namespace CordisCore
namespace Runtime

open Interleaving
open Interleaving.Program (iterate)

/-! ## The initial spawn pass -/

/-- How the initial spawn pass ended. -/
inductive InitialOutcome where
  | active
  | pending
  | failed (failure : PluginFailure)
  | interrupted
  deriving DecidableEq

namespace InitialOutcome

/-- The endings whose exit recheck published IDLE already. -/
def released : InitialOutcome → Bool
  | active | pending => true
  | failed _ | interrupted => false

end InitialOutcome

/-- The failure reported when the parked one is gone. -/
def unparkedFailure : PluginFailure :=
  { kind := .returnedError, diagnostic := "plugin failed without a parked failure" }

/-- One round of the initial pass; `inl` goes around toward a drifted target. -/
def initialRound (f : FiberId) : Prog (Unit ⊕ InitialOutcome) := do
  let revision ← on f .recheckRevision
  let target ← computeTarget f
  settleOnce f target true
  -- the pass leaves Pending unless the target drifted meanwhile
  if target.hasMissing then do
    on f (.markPendingIfUntouched target)
    if ← exitRecheck f target revision then again () else leave .pending
  else do
    on f (.recordTarget target)
    let state ← on f .state
    if state = .failed then do
      -- a failed first apply is torn down under the slot of the pass
      let parked ← on f .takeError
      creationTeardown f
      leave (.failed (parked.getD unparkedFailure))
    else do
      if ← exitRecheck f target revision then again () else leave .active

/-- The first claim is taken at once when nobody else got there. -/
def claimInitial (f : FiberId) : Prog Unit := do
  if ← on f .tryClaim then pure () else claim f

/-- Release what the pass still holds. -/
def releaseInitial (f : FiberId) (released : Bool) : Prog Unit := do
  -- Pending and Active exits published IDLE through the release CAS already
  if ← on f (.probeIdle released) then pure () else on f .abandon

/-- Settle a fresh Fiber inline until it is quiescent, cleaned or invalidated. -/
def initialSpawnPass (f : FiberId) : Prog InitialOutcome := do
  claimInitial f
  if ← on f (.load .alive) then do
    on f (.store .creationOwned true)
    let outcome ← iterate () fun _ => initialRound f
    on f (.store .creationOwned false)
    releaseInitial f outcome.released
    pure outcome
  else do
    -- disposed before the pass got the slot
    releaseResidency f
    on f .abandon
    pure .interrupted

/-! ## Convergence -/

/-- Settle toward the recorded target until the live target matches it. -/
def convergencePass (f : FiberId) : Prog Unit :=
  iterate () fun _ => do
    let revision ← on f .recheckRevision
    match ← on f .readTarget with
    | none => do
        -- whoever forked the pass had recorded a target
        let impossible ← perform .panic
        nomatch impossible
    | some target => do
        settleOnce f target false
        let live ← computeTarget f
        if live ≠ target then do
          -- drift found without giving up the slot
          on f (.recordTarget live)
          again ()
        else do
          if ← exitRecheck f target revision then again () else leave ()

/-! ## Restart and update -/

/-- A committed generation replacement keeps the slot through every release recheck. -/
def replacementCommitted {α : Type} (f : FiberId) (result : Prog α) (target : SemanticTarget)
    (revision : Nat) : Prog α :=
  iterate (target, revision) fun (target, revision) => do
    settleOnce f target false
    -- the outcome is read while the slot is still held
    let settled ← result
    if ← exitRecheck f target revision then do
      let revision ← on f .recheckRevision
      let target ← computeTarget f
      -- another generation before the caller is answered
      on f (.recordTarget target)
      again (target, revision)
    else leave settled

def restartResult (f : FiberId) : Prog (Except RestartError Unit) := do
  match ← on f .readError with
  | some failure => pure (.error (.apply failure))
  | none => pure (.ok ())

def updateResult (f : FiberId) : Prog (Except UpdateError FiberState) := do
  match ← on f .readError with
  | some failure => pure (.error (.apply failure))
  | none => do
      let state ← on f .state
      pure (.ok state)

def restartPass (f : FiberId) : Prog (Except RestartError Unit) := do
  claim f
  if ← on f (.load .alive) then do
    let revision ← on f .recheckRevision
    let target ← computeTarget f
    on f (.recordTarget target)
    -- the commit point: from here the framework owns the pass
    let _ ← on f (.swapGated .generationReplacing)
    perform .handOff
    replacementCommitted f (restartResult f) target revision
  else do
    on f .abandon
    pure (.error .closed)

def updatePass (f : FiberId) : Prog (Except UpdateError FiberState) := do
  claim f
  if ← on f (.load .alive) then do
    let _ ← on f (.swapGated .generationReplacing)
    -- the input changes before the target is computed, so the target has it
    perform (.commitChange f)
    let revision ← on f .recheckRevision
    let target ← computeTarget f
    on f (.recordTarget target)
    perform .handOff
    replacementCommitted f (updateResult f) target revision
  else do
    -- the Fiber died while the caller waited for the slot
    on f .abandon
    pure (.error .admissionLost)

/-! ## Ready -/

/-- Kick an outstanding recheck once more. -/
def renudge (f : FiberId) : Prog Unit := do
  if ← hasCommittedRecheck f then do
    -- a Fiber without spawn state has no root to kick through
    if ← on f .installed then kick f 0 else pure ()
  else pure ()

/-- Judge what was observed, once the slot is idle. -/
def judgeReady (f : FiberId) (observed : FiberState × Nat) :
    Prog (Unit ⊕ Except ReadyError FiberState) := do
  -- somebody still has to judge a commit
  if ← hasCommittedRecheck f then again ()
  else do
    let sequence ← on f .sequence
    -- a publication since the observation makes it stale
    if sequence ≠ observed.2 then again ()
    else
      match observed.1 with
      | .failed => do
          match ← on f .readError with
          | some failure => leave (.error (.apply failure))
          -- a later pass took the failure away
          | none => again ()
      | .active | .pending | .disposed => leave (.ok observed.1)
      | .loading | .unloading => do
          let impossible ← perform .panic
          nomatch impossible

/-- One round of `ready`; `inl` looks again. -/
def readyRound (f : FiberId) : Prog (Unit ⊕ Except ReadyError FiberState) := do
  renudge f
  waitIdle f
  let observed ← on f .observe
  if ← on f .isIdle then judgeReady f observed else again ()

/-- `ready`, past its refusal. -/
def readyLoop (f : FiberId) : Prog (Except ReadyError FiberState) :=
  iterate () fun _ => readyRound f

end Runtime
end CordisCore
