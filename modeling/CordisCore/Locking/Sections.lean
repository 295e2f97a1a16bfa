import CordisCore.Interleaving.Locks
import CordisCore.Runtime.Types

/-!
# Sections — the framework's operations as sequences of mutex scopes

Every guard of the source is lexically scoped, and what the code does between
two acquisitions depends on data that the mutexes protect.  Here that data is
whatever the scheduler answers; the scopes, and the order in which the code
enters them, are those of the source.
-/

namespace CordisCore
namespace Locking

open Interleaving
open Locks (each exists?)
open CordisCore.Runtime (FiberId GroupId PluginKey Token DependencyEdge FiberState Inertia)

/-! ## Mutexes -/

inductive Lock where
  /-- `Fiber::disposables`. -/
  | journal (f : FiberId)
  /-- `ServiceStore::state`. -/
  | services
  | serviceMutationGate (f : FiberId)
  /-- `EventStore::state`. -/
  | events
  /-- `UpdateStore::state`. -/
  | updates
  /-- `LoggerService::exporters`. -/
  | exporters
  /-- `ObservationHub::observers`. -/
  | observers
  /-- `DependencyIndex::state`. -/
  | deps
  /-- `RegistryState::allocations`. -/
  | allocations
  /-- `PluginGroup::fibers`. -/
  | members (g : GroupId)
  /-- `RegistryState::residents`. -/
  | residents
  | residency (f : FiberId)
  /-- `StatePublication::inner`. -/
  | state (f : FiberId)
  /-- `SpawnState::stored`. -/
  | stored (f : FiberId)
  /-- `InertiaSlot::target`. -/
  | target (f : FiberId)
  /-- `Fiber::error`. -/
  | error (f : FiberId)
  | drainCleanup (f : FiberId)
  deriving DecidableEq

namespace Lock

/-- The stores that own the registrations of one kind. -/
def SemanticStore : Lock → Prop
  | services | events | updates | exporters | observers | deps => True
  | _ => False

end Lock

/-! ## What the code branches on -/

/-- The bodies of the cleanups that the framework itself commits; all others are user code. -/
inductive CleanupBody where
  | withdrawExact
  | removeListener
  | removeUpdate
  | removeExporter
  | removeObserver
  | user

/-- One call of a thread into the framework. -/
inductive Operation where
  | provide (f : FiberId)
  | set
  | remove
  | withdrawExact
  | tryService
  | registerListener (f : FiberId)
  | removeListener
  | preflight
  | claimHook
  | onUpdate (f : FiberId)
  | removeUpdate
  | claimUpdate
  | snapshotUpdates
  | addExporter (f : FiberId)
  | removeExporter
  | log
  | observeRuntime (f : FiberId)
  | removeObserver
  | effect (f : FiberId)
  | disarmEffect
  | disposeEffect
  | transition (f : FiberId) (next : FiberState)
  | kick (f : FiberId)
  | initialSpawnPass (f : FiberId)
  | convergencePass (f : FiberId)
  | updateCommitted (f : FiberId)
  | claimTerminal (f : FiberId)
  | markTerminal (f : FiberId)
  | markReplacing (f : FiberId)
  | eraSwap (f : FiberId)
  | attach (f : FiberId) (key : PluginKey)
  | detach (key : PluginKey)
  | dispose (f : FiberId)
  | releaseResidency (f : FiberId)
  | runtimeSnapshot

inductive Query where
  -- atomics and immutable fields
  | isAlive (f : FiberId)
  | disposing (f : FiberId)
  | generationReplacing (f : FiberId)
  | dependencyEdges (f : FiberId)
  | hasCommittedRecheck (f : FiberId)
  | recheckRevisionMoved (f : FiberId)
  | inertia (f : FiberId)
  | compareExchange (f : FiberId)
  /-- The first apply belongs to the creation, and this is another pass. -/
  | leavesFirstApply (f : FiberId)
  | handle
  | upgrades
  /-- The control's weak owner, upgraded. -/
  | owner
  -- under the mutexes of a Fiber
  | current (f : FiberId)
  | installed (f : FiberId)
  | recorded (f : FiberId)
  | drifted (f : FiberId)
  | hasMissing (f : FiberId)
  | hasError (f : FiberId)
  | claimedDrain (f : FiberId)
  | tokens (f : FiberId)
  | cleanup (f : FiberId)
  | claim (f : FiberId)
  -- under the mutexes of the stores
  | contractMismatch
  /-- The upgraded owner of the slot that the key selects. -/
  | occupant
  | isCurrent
  | ownedSlots (f : FiberId)
  | occupants
  | found
  | complete
  | dependents
  | allocation (key : PluginKey)
  | mapped (key : PluginKey)
  | frozen (g : GroupId)
  | resident
  -- outside the framework
  | refusesRecursion
  | applies
  | next

namespace Query

abbrev Answer : Query → Type
  | dependencyEdges _ | ownedSlots _ => List DependencyEdge
  | inertia _ => Inertia
  | owner | occupant => Option FiberId
  | current _ => FiberState
  | tokens _ => List Token
  | cleanup _ => Option CleanupBody
  | claim _ | mapped _ => Option GroupId
  | occupants | dependents | frozen _ | resident => List FiberId
  | allocation _ => GroupId
  | next => Option Operation
  | _ => Bool

end Query

abbrev Code := Locks.Code Lock Query.Answer

abbrev ask (q : Query) : Code q.Answer :=
  Locks.ask q

/-- The scope of a guard. -/
abbrev guarded {α : Type} (l : Lock) (x : Code α) : Code α :=
  Locks.guarded l x

/-- An access that needs no other mutex. -/
def access (l : Lock) : Code Unit :=
  guarded l (pure ())

/-! ## The state of a Fiber -/

/-- `StatePublication::current`. -/
def state (f : FiberId) : Code FiberState :=
  guarded (.state f) (ask (.current f))

/-- `StatePublication::publish`. -/
def setState (f : FiberId) : Code Unit :=
  access (.state f)

def assertCanRegister (f : FiberId) : Code Bool := do
  if ← ask (.isAlive f) then
    if ← ask (.disposing f) then pure false
    else if ← ask (.generationReplacing f) then pure false
    else
      match ← state f with
      | .loading | .active => pure true
      | .pending | .unloading | .failed | .disposed => pure false
  else pure false

def claimTerminal (f : FiberId) : Code Bool :=
  guarded (.serviceMutationGate f) (ask (.disposing f))

def markTerminal (f : FiberId) : Code Unit :=
  access (.serviceMutationGate f)

def markReplacing (f : FiberId) : Code Unit :=
  access (.serviceMutationGate f)

def storeError (f : FiberId) : Code Unit :=
  access (.error f)

/-- `SpawnState::root`. -/
def root (f : FiberId) : Code Bool :=
  guarded (.stored f) (ask (.installed f))

/-- `Fiber::remove_disposable`. -/
def removeDisposable (f : FiberId) : Code (Option CleanupBody) :=
  guarded (.journal f) (ask (.cleanup f))

/-! ## The gated publish seam -/

/-- Publish beneath the journal; `none` is a refusal. -/
def pushGated {α : Type} (f : FiberId) (publish : Code (Option α)) : Code (Option α) := do
  if ← assertCanRegister f then
    guarded (.journal f) do
      if ← assertCanRegister f then publish else pure none
  else pure none

/-! ## Stores without a second mutex -/

/-- `ObservationHub::publish`. -/
def publishObservation : Code Unit :=
  access .observers

/-- `EventStore::add_reserved`. -/
def addReserved : Code (Option Unit) :=
  guarded .events do
    if ← ask .contractMismatch then pure none else pure (some ())

def registerListener (f : FiberId) : Code Unit := do
  match ← pushGated f addReserved with
  | some _ => publishObservation
  | none => pure ()

/-- `EventStore::remove` and what its callers publish. -/
def removeHook : Code Unit := do
  if ← guarded .events (ask .found) then publishObservation else pure ()

/-- `ListenerRegistration::remove` of an event listener. -/
def removeListener : Code Unit := do
  removeHook
  match ← ask .owner with
  | some f => do
      let _ ← removeDisposable f
  | none => pure ()

/-- `EventStore::preflight`. -/
def preflight : Code Unit :=
  access .events

/-- `claim_hook`: a once listener leaves the store. -/
def claimHook : Code Unit :=
  removeHook

def onUpdate (f : FiberId) : Code Unit := do
  let _ ← pushGated f (some <$> access .updates)

/-- `ListenerRegistration::remove` of an update hook. -/
def removeUpdate : Code Unit := do
  access .updates
  match ← ask .owner with
  | some f => do
      let _ ← removeDisposable f
  | none => pure ()

def addExporter (f : FiberId) : Code Unit := do
  let _ ← pushGated f (some <$> access .exporters)

/-- `ObservationHub::register`. -/
def observeRuntime (f : FiberId) : Code Unit := do
  let _ ← pushGated f (some <$> access .observers)

/-- `register_cleanup`, and the join obligation of `run`. -/
def effect (f : FiberId) : Code Unit := do
  let _ ← pushGated f (pure (some ()))

/-! ## The dependency index and the Registry -/

/-- `DependencyIndex::register` and `unregister`. -/
def projectEdges (f : FiberId) : Code Unit :=
  guarded .deps do
    let _ ← ask (.isAlive f)

def dependentsOf : Code (Option (List FiberId)) :=
  guarded .deps do
    if ← ask .complete then some <$> ask .dependents else pure none

def snapshotFibers : Code (List FiberId) :=
  guarded .allocations (guarded .residents (ask .resident))

def attachFiber (key : PluginKey) (f : FiberId) : Code Unit :=
  guarded .allocations do
    let g ← ask (.allocation key)
    access (.residency f)
    access (.members g)
    access .residents

def detachForRemoval (key : PluginKey) : Code (List FiberId) :=
  guarded .allocations do
    match ← ask (.mapped key) with
    | none => pure []
    | some g =>
        guarded (.members g) do
          if ← ask .refusesRecursion then pure [] else ask (.frozen g)

/-- `ResidencyClaim::release`. -/
def releaseClaim (g : GroupId) : Code Unit := do
  if ← ask .upgrades then
    guarded .allocations do
      access (.members g)
      access .residents
  else pure ()

/-- `dependents_for_edges_with_retention`. -/
def dependentsForEdges : Code (List FiberId) := do
  match ← dependentsOf with
  | some indexed => pure indexed
  | none => snapshotFibers

/-! ## The Service store -/

/-- `ServiceStore::visible`. -/
def visible : Option FiberId → Code Bool
  | none => pure false
  | some f => do
      if ← ask (.isAlive f) then
        let current ← state f
        pure (current == .active)
      else pure false

/-- `ServiceStore::occurrence_id`. -/
def occurrenceId : Code Bool :=
  guarded .services do
    let slot ← ask .occupant
    visible slot

/-- `ServiceStore::visible_value`. -/
def visibleValue : Code Bool :=
  guarded .services do
    if ← ask .contractMismatch then pure false
    else
      let slot ← ask .occupant
      visible slot

/-- `CommittedServiceDrift::commit`. -/
def commitDrift : Code (List FiberId) :=
  dependentsForEdges

/-- The drift of a mutation by this owner, in this state. -/
def driftOf (current : FiberState) : Code (Option (List FiberId)) :=
  if current == .active then some <$> commitDrift else pure none

/-- `ServiceStore::install`; the answer is the drift. -/
def install (owner : FiberId) : Code (Option (Option (List FiberId))) :=
  guarded .services do
    if ← ask .contractMismatch then pure none
    else
      match ← ask .occupant with
      | some existing =>
          if ← ask (.isAlive existing) then pure none
          else do
            let current ← state owner
            some <$> driftOf current
      | none => do
          let current ← state owner
          some <$> driftOf current

def setExact : Code Bool :=
  guarded .services do
    if ← ask .isCurrent then
      match ← ask .owner with
      | some f => guarded (.serviceMutationGate f) (assertCanRegister f)
      | none => pure false
    else pure false

/-- `none`: nothing was removed. -/
def removeExact : Code (Option (Option (List FiberId))) :=
  guarded .services do
    if ← ask .isCurrent then
      match ← ask .owner with
      | some f =>
          guarded (.serviceMutationGate f) do
            if ← assertCanRegister f then do
              let current ← state f
              some <$> driftOf current
            else pure none
      | none => pure none
    else pure none

def withdrawExact : Code Unit :=
  access .services

def slotsOwnedBy (f : FiberId) : Code (List DependencyEdge) :=
  guarded .services (ask (.ownedSlots f))

def commitFiberTransition (f : FiberId) :
    Code (List DependencyEdge × Option (List FiberId)) :=
  guarded .services do
    let visibility ← ask (.ownedSlots f)
    let drift ← if visibility.isEmpty then pure none else some <$> commitDrift
    setState f
    pure (visibility, drift)

def snapshotOccurrences : Code Unit :=
  guarded .services do
    let providers ← ask .occupants
    each (fun f => do
      let _ ← state f
      let _ ← assertCanRegister f) providers

/-! ## The lifecycle slot -/

def computeTarget (f : FiberId) : Code Unit := do
  -- the committed effective input
  access (.stored f)
  each (fun _ => do
    let _ ← occurrenceId) (← ask (.dependencyEdges f))

def missingFrom (f : FiberId) : Code Unit := do
  each (fun _ => do
    let _ ← occurrenceId) (← ask (.dependencyEdges f))

/-- `record_target`, `pin_inactive` and `mark_pending_if_untouched`. -/
def recordTarget (f : FiberId) : Code Unit :=
  access (.target f)

def exitRecheck (f : FiberId) : Code Bool :=
  Program.iterate () fun _ => do
    computeTarget f
    if ← ask (.drifted f) then do
      recordTarget f
      pure (.inr true)
    else if ← ask (.recheckRevisionMoved f) then pure (.inl ())
    else if ← ask (.compareExchange f) then pure (.inr false)
    else pure (.inl ())

/-- A pass goes on for as long as its exit recheck sees drift. -/
def whileDrifted (f : FiberId) : Code (Unit ⊕ Unit) := do
  if ← exitRecheck f then pure (.inl ()) else pure (.inr ())

/-- A kick that claimed the idle slot. -/
def kickIdle (f : FiberId) : Code Unit := do
  if ← guarded (.target f) (ask (.recorded f)) then do
    let _ ← exitRecheck f
  else do
    computeTarget f
    recordTarget f

/-- `InertiaSlot::kick`. -/
def kick (f : FiberId) : Code Unit := do
  if ← ask (.isAlive f) then
    if ← ask (.hasCommittedRecheck f) then
      Program.iterate () fun _ => do
        match ← ask (.inertia f) with
        | .active => pure (.inr ())
        | .releasing =>
            if ← ask (.compareExchange f) then pure (.inr ()) else pure (.inl ())
        | .idle =>
            if ← ask .handle then
              if ← ask (.compareExchange f) then do
                kickIdle f
                pure (.inr ())
              else pure (.inl ())
            else pure (.inr ())
    else pure ()
  else pure ()

/-- `CommittedServiceDrift::kick`. -/
def kickDrift : Option (List FiberId) → Code Unit
  | some affected => each kick affected
  | none => pure ()

/-- Kick what the mutation affected, and publish its visibility if it had any. -/
def followUp (drift : Option (List FiberId)) : Code Unit := do
  kickDrift drift
  if drift.isSome then publishObservation else pure ()

/-! ## Service publications -/

def provide (f : FiberId) : Code Unit := do
  if ← assertCanRegister f then
    match ← pushGated f (install f) with
    | some drift => followUp drift
    | none => pure ()
  else pure ()

/-- `ServicePublication::set`. -/
def set : Code Unit := do
  let _ ← setExact

/-- `ServicePublication::remove`. -/
def remove : Code Unit := do
  match ← removeExact with
  | some drift => do
      match ← ask .owner with
      | some f => do
          let _ ← removeDisposable f
          followUp drift
      | none => followUp drift
  | none => pure ()

/-! ## Transitions, passes and teardown -/

def transition (f : FiberId) (next : FiberState) : Code Unit := do
  let old ← state f
  if old == next then pure ()
  else do
    let installed ← root f
    if (old == .active) != (next == .active) && installed then do
      let (visibility, drift) ← commitFiberTransition f
      kickDrift drift
      each (fun _ => publishObservation) visibility
      publishObservation
    else do
      setState f
      if installed then publishObservation else pure ()

/-- The body of a claimed cleanup, as far as it is the framework's. -/
def executeCleanup : CleanupBody → Code Unit
  | .withdrawExact => withdrawExact
  | .removeListener => removeHook
  | .removeUpdate => access .updates
  | .removeExporter => access .exporters
  | .removeObserver => access .observers
  | .user => pure ()

/-- `EffectRegistration::disarm`. -/
def disarmEffect : Code Unit := do
  match ← ask .owner with
  | some f => do
      let _ ← removeDisposable f
  | none => pure ()

/-- `EffectRegistration::dispose`. -/
def disposeEffect : Code Unit := do
  match ← ask .owner with
  | some f => do
      match ← removeDisposable f with
      | some cleanup => do
          access (.stored f)
          executeCleanup cleanup
      | none => pure ()
  | none => pure ()

/-- `run_cleanup_contained`. -/
def runCleanupContained (f : FiberId) (cleanup : CleanupBody) : Code Unit := do
  -- the Fiber's context, for its logger
  access (.stored f)
  access (.drainCleanup f)
  executeCleanup cleanup

def drainDisposables (f : FiberId) : Code Unit := do
  let _ ← guarded (.drainCleanup f) (ask (.claimedDrain f))
  let tokens ← guarded (.journal f) (ask (.tokens f))
  each (fun _ => do
    match ← removeDisposable f with
    | some cleanup => runCleanupContained f cleanup
    | none => pure ()) tokens.reverse

/-- The second half of `settle_once`, around the user's apply. -/
def apply (f : FiberId) : Code Unit := do
  -- the apply snapshot
  access (.stored f)
  transition f .loading
  if ← ask .applies then do
    storeError f
    transition f .active
  else do
    transition f .unloading
    drainDisposables f
    storeError f
    transition f .failed

def settleOnce (f : FiberId) : Code Unit := do
  if ← ask (.isAlive f) then do
    match ← state f with
    | .active | .failed | .loading => do
        transition f .unloading
        drainDisposables f
    | .pending | .unloading | .disposed => pure ()
    if ← ask (.hasMissing f) then do
      storeError f
      transition f .pending
    else if ← ask (.leavesFirstApply f) then pure ()
    else apply f
  else pure ()

def teardownBody (f : FiberId) : Code Unit := do
  match ← state f with
  | .disposed => pure ()
  | _ => do
      transition f .unloading
      recordTarget f
      if ← root f then projectEdges f else pure ()
      drainDisposables f
      transition f .disposed
      storeError f

def fiberSnapshot (f : FiberId) : Code Unit :=
  Program.iterate () fun _ => do
    let current ← state f
    if current == .pending then
      if ← ask (.isAlive f) then missingFrom f else pure ()
    else pure ()
    let again ← state f
    pure (if again == current then .inr () else .inl ())

def releaseResidency (f : FiberId) : Code Unit := do
  match ← guarded (.residency f) (ask (.claim f)) with
  | none => pure ()
  | some g => do
      let installed ← root f
      if installed then fiberSnapshot f else pure ()
      releaseClaim g
      if installed then publishObservation else pure ()

/-- `spawn_prepared_inner`, from the attach to the Admitted record. -/
def attach (f : FiberId) (key : PluginKey) : Code Unit := do
  attachFiber key f
  access (.stored f)
  projectEdges f
  fiberSnapshot f
  publishObservation

/-- `complete_claimed_dispose`, and the creation teardowns from where they own the slot. -/
def completeClaimedDispose (f : FiberId) : Code Unit := do
  teardownBody f
  releaseResidency f

def dispose (f : FiberId) : Code Unit := do
  if ← claimTerminal f then pure ()
  else do
    let _ ← root f
    completeClaimedDispose f

/-! ## The holders of the slot -/

def convergencePass (f : FiberId) : Code Unit :=
  Program.iterate () fun _ => do
    access (.target f)
    settleOnce f
    computeTarget f
    if ← ask (.drifted f) then do
      recordTarget f
      pure (.inl ())
    else whileDrifted f

/-- `restart_committed` and `update_committed`. The parked failure is looked at in the scope of
its guard, and so is the state that an update answers with. -/
def updateCommitted (f : FiberId) : Code Unit :=
  Program.iterate () fun _ => do
    settleOnce f
    guarded (.error f) do
      if ← ask (.hasError f) then pure ()
      else do
        let _ ← state f
    if ← exitRecheck f then do
      computeTarget f
      recordTarget f
      pure (.inl ())
    else pure (.inr ())

def initialSpawnPass (f : FiberId) : Code Unit := do
  if ← ask (.isAlive f) then
    Program.iterate () fun _ => do
      computeTarget f
      settleOnce f
      if ← ask (.hasMissing f) then do
        recordTarget f
        whileDrifted f
      else do
        recordTarget f
        let current ← state f
        if current == .failed then do
          -- the parked failure is the outcome
          storeError f
          markTerminal f
          completeClaimedDispose f
          pure (.inr ())
        else whileDrifted f
  else releaseResidency f

/-- The claim section of `era_swap`. -/
def eraSwap (f : FiberId) : Code Bool :=
  guarded (.journal f) do
    let _ ← slotsOwnedBy f
    let entryDependents ← dependentsForEdges
    if ← exists? (fun _ => ask .refusesRecursion) entryDependents then pure false
    else claimTerminal f

def runtimeSnapshot : Code Unit := do
  let fibers ← snapshotFibers
  each fiberSnapshot fibers
  snapshotOccurrences

/-! ## Threads -/

namespace Operation

def code : Operation → Code Unit
  | provide f => Locking.provide f
  | set => Locking.set
  | remove => Locking.remove
  | withdrawExact => Locking.withdrawExact
  | tryService => do
      let _ ← visibleValue
  | registerListener f => Locking.registerListener f
  | removeListener => Locking.removeListener
  | preflight => Locking.preflight
  | claimHook => Locking.claimHook
  | onUpdate f => Locking.onUpdate f
  | removeUpdate => Locking.removeUpdate
  | claimUpdate => access .updates
  | snapshotUpdates => access .updates
  | addExporter f => Locking.addExporter f
  | removeExporter => access .exporters
  | log => access .exporters
  | observeRuntime f => Locking.observeRuntime f
  | removeObserver => access .observers
  | effect f => Locking.effect f
  | disarmEffect => Locking.disarmEffect
  | disposeEffect => Locking.disposeEffect
  | transition f next => Locking.transition f next
  | kick f => Locking.kick f
  | initialSpawnPass f => Locking.initialSpawnPass f
  | convergencePass f => Locking.convergencePass f
  | updateCommitted f => Locking.updateCommitted f
  | claimTerminal f => do
      let _ ← Locking.claimTerminal f
  | markTerminal f => Locking.markTerminal f
  | markReplacing f => Locking.markReplacing f
  | eraSwap f => do
      let _ ← Locking.eraSwap f
  | attach f key => Locking.attach f key
  | detach key => do
      let _ ← detachForRemoval key
  | dispose f => Locking.dispose f
  | releaseResidency f => Locking.releaseResidency f
  | runtimeSnapshot => Locking.runtimeSnapshot

end Operation

/-- A thread runs operations, one after the other, as long as it likes. -/
def thread : Code Unit :=
  Program.iterate () fun _ => do
    match ← ask .next with
    | some operation => do
        operation.code
        pure (.inl ())
    | none => pure (.inr ())

abbrev machine :=
  Locks.machine fun _ : Unit => thread

abbrev State := Locks.State Lock Query.Answer

/-- States that any number of threads can come to, in any order of their steps. -/
abbrev Reachable (c : State) : Prop :=
  machine.Reachable Machine.anyRun c

end Locking
end CordisCore
