import CordisCore.Fiber.Settle

/-!
# Service control — provide, set, remove and the gated registration seam
-/

namespace CordisCore
namespace Runtime

open Interleaving

/-! ## Admission -/

/-- `assert_can_register`: four separate loads. -/
def assertCanRegister (f : FiberId) : Prog Bool := do
  if ← on f (.load .alive) then do
    if ← on f (.load .disposing) then pure false
    else do
      if ← on f (.load .generationReplacing) then pure false
      else do
        let state ← on f .state
        pure (state = .loading || state = .active)
  else pure false

/-- Gate, journal lock, recheck, publish and push, in this order. -/
def pushGated {ε α : Type} (f : FiberId) (cleanup : Cleanup) (inactive : ε)
    (publish : Prog (Except ε α)) : Prog (Except ε (α × Token)) := do
  if ← assertCanRegister f then do
    on f .lockDisposables
    -- a generation may have closed before the journal was locked
    if ← assertCanRegister f then do
      match ← publish with
      | .ok published => do
          -- published and journalled under one lock
          let token ← perform (.push f cleanup)
          on f .unlockDisposables
          pure (.ok (published, token))
      | .error refused => do
          on f .unlockDisposables
          pure (.error refused)
    else do
      on f .unlockDisposables
      pure (.error inactive)
  else pure (.error inactive)

/-- Publish nothing: the plain effect push. -/
def noPublish {ε : Type} : Prog (Except ε Unit) :=
  pure (.ok ())

/-! ## Publication -/

/-- The drift of one slot of this owner: only an Active owner's slots are visible. -/
def ownerDrift (owner : FiberId) (key : DependencyEdge) : Prog (List (FiberId × Nat)) := do
  let state ← on owner .state
  if state = .active then commitDrift [key] else pure []

/-- `ServiceStore::install`: the drift to kick, or why nothing was published. -/
def installSlot (owner : FiberId) (slot : ServiceSlot) :
    Prog (Except ServicePublishError (List (FiberId × Nat))) := do
  perform .lockStore
  -- the first publication of a service fixes its contract
  if ← perform (.bindContract slot.key.service slot.contract) then do
    if ← perform (.occupied slot.key) then do
      perform .unlockStore
      pure (.error (.duplicatePublication slot.key.service))
    else do
      -- the revisions advance before the slot is there
      let drift ← ownerDrift owner slot.key
      perform (.insertSlot slot)
      perform .unlockStore
      pure (.ok drift)
  else do
    perform .unlockStore
    pure (.error (.contractMismatch slot.key.service))

/-- Publish one generation-owned occurrence. -/
def provide (f : FiberId) (key : DependencyEdge) (contract : Contract) (value : Nat) :
    Prog (Except ServicePublishError ServicePublication) := do
  -- asked before a fresh occurrence is spent
  if ← assertCanRegister f then do
    let occurrence ← perform .freshOccurrence
    let slot : ServiceSlot :=
      { key := key, occurrence := occurrence, value := value, contract := contract, fiber := f }
    match ← pushGated f (.withdraw key occurrence) .inactiveContext (installSlot f slot) with
    | .ok (drift, token) => do
        -- outside every lock
        kickAll drift
        pure (.ok { key := key, occurrence := occurrence, owner := f, cleanup := token })
    | .error refusal => pure (.error refusal)
  else pure (.error .inactiveContext)

/-! ## Control of one occurrence -/

/-- `set_exact`: staleness is judged before the closed generation. -/
def setExact (publication : ServicePublication) (value : Nat) :
    Prog (Except ServiceControlError Unit) := do
  perform .lockStore
  if ← perform (.holds publication.key publication.occurrence) then do
    on publication.owner .lockGate
    if ← assertCanRegister publication.owner then do
      -- the value changes under both locks; no drift, as no slot comes or goes
      perform (.replaceValue publication.key value)
      on publication.owner .unlockGate
      perform .unlockStore
      pure (.ok ())
    else do
      on publication.owner .unlockGate
      perform .unlockStore
      pure (.error (.mutationClosed publication.key.service))
  else do
    perform .unlockStore
    pure (.error (.stalePublication publication.key.service))

/-- `remove_exact`: an Active owner's removal commits its drift first. -/
def removeExact (publication : ServicePublication) :
    Prog (Except ServiceControlError (List (FiberId × Nat))) := do
  perform .lockStore
  if ← perform (.holds publication.key publication.occurrence) then do
    on publication.owner .lockGate
    if ← assertCanRegister publication.owner then do
      let drift ← ownerDrift publication.owner publication.key
      perform (.removeSlot publication.key)
      on publication.owner .unlockGate
      perform .unlockStore
      pure (.ok drift)
    else do
      on publication.owner .unlockGate
      perform .unlockStore
      pure (.error (.mutationClosed publication.key.service))
  else do
    perform .unlockStore
    pure (.error (.stalePublication publication.key.service))

/-- Remove this exact occurrence and disarm its cleanup. -/
def removePublication (publication : ServicePublication) :
    Prog (Except ServiceControlError Unit) := do
  match ← removeExact publication with
  | .ok drift => do
      -- the withdrawal that the drain would run is claimed and dropped
      let _ ← on publication.owner (.removeDisposable publication.cleanup)
      kickAll drift
      pure (.ok ())
  | .error refusal => pure (.error refusal)

/-! ## Plain effects and run tasks -/

def effect (f : FiberId) : Prog (Except Unit Token) := do
  match ← pushGated f .effect () noPublish with
  | .ok (_, token) => pure (.ok token)
  | .error _ => pure (.error ())

/-- `EffectRegistration::disarm`: claim the occurrence without running it. -/
def disarm (f : FiberId) (token : Token) : Prog Bool := do
  let cleanup ← on f (.removeDisposable token)
  pure cleanup.isSome

/-- `EffectRegistration::dispose`: claim the occurrence and run it now. -/
def disposeEffect (f : FiberId) (token : Token) : Prog Bool := do
  match ← on f (.removeDisposable token) with
  | some _ => do
      perform .handOff
      perform .userCleanup
      pure true
  | none => pure false

/-- Why a task registration was refused. -/
inductive TaskRegistrationError where
  | inactiveContext
  | executorUnavailable
  deriving DecidableEq

/-- `Context::run`: the join obligation is pushed before the task is spawned. -/
def run (f : FiberId) : Prog (Except TaskRegistrationError Unit) := do
  if ← assertCanRegister f then do
    -- the task needs a runtime to be spawned on
    if ← perform (.tryCurrent 0) then do
      let cell ← perform .freshCell
      match ← pushGated f (.join cell) .inactiveContext noPublish with
      | .ok _ => do
          let task ← perform (.fork (.task f))
          perform (.park cell task)
          pure (.ok ())
      | .error refusal => pure (.error refusal)
    else pure (.error .executorUnavailable)
  else pure (.error .inactiveContext)

end Runtime
end CordisCore
