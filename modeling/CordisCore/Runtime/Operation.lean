import CordisCore.Runtime.State

/-!
# Operations — the atomic accesses of the lifecycle code to the Runtime

One operation is one atomic load, store or read-modify-write, one short critical
section, one wait, or one answer of the outside world.  Sections that other
parties can observe half-way (the ServiceStore lock, the journal lock, the
mutation gate) are opened and closed by operations of their own.
-/

namespace CordisCore
namespace Runtime

open Interleaving (Party)

/-- The lifecycle calls a `Context::run` task can make before it returns. -/
inductive TaskCall where
  | finish
  | ready (f : FiberId)
  | waitState (f : FiberId) (state : FiberState) (bounded : Bool)
  | dispose (f : FiberId)
  | restart (f : FiberId)
  | update (f : FiberId) (change : PreparedChange)
  | eraSwap (f : FiberId) (change : PreparedChange)
  | removePlugins (key : PluginKey)
  deriving DecidableEq

/-- What a party can be asked to run. -/
inductive Routine where
  -- calls from outside
  | spawn (origin : FiberId) (key : PluginKey) (edges : List DependencyEdge)
  | ready (ctx : SettleCtx) (f : FiberId)
  | waitState (ctx : SettleCtx) (f : FiberId) (state : FiberState) (bounded : Bool)
  | dispose (ctx : SettleCtx) (f : FiberId)
  | restart (ctx : SettleCtx) (f : FiberId)
  | update (ctx : SettleCtx) (f : FiberId) (change : PreparedChange)
  | eraSwap (ctx : SettleCtx) (f : FiberId) (change : PreparedChange)
  | removePlugins (ctx : SettleCtx) (key : PluginKey)
  | provide (f : FiberId) (key : DependencyEdge) (contract : Contract) (value : Nat)
  | set (publication : ServicePublication) (value : Nat)
  | remove (publication : ServicePublication)
  | tryService (key : DependencyEdge) (contract : Contract)
  | effect (f : FiberId)
  | disarm (f : FiberId) (token : Token)
  | disposeEffect (f : FiberId) (token : Token)
  | run (f : FiberId)
  -- framework work
  | convergence (f : FiberId)
  | cleanup (f : FiberId) (id : CleanupId) (cleanup : Cleanup)
  | task (f : FiberId)
  | creationGuard (f : FiberId)
  deriving DecidableEq

/-- What the outside world decides at one operation. -/
inductive Choice where
  | no
  | yes
  | apply (outcome : ApplyOutcome)
  | control (outcome : ControlOutcome)
  | call (call : TaskCall)
  deriving DecidableEq, Inhabited

/-- The atomic operations on one Fiber. -/
inductive FiberOp where
  -- `InertiaSlot::inertia`
  | tryClaim
  | storeInertia (word : Inertia)
  | release
  | abandon
  | loadInertia (revision : Nat)
  | reclaim (revision : Nat)
  | isIdle
  | probeIdle (released : Bool)
  | awaitIdle
  -- the durable recheck counters and the target cell
  | recheckRevision
  | loadSettled
  | storeSettled (revision : Nat) (settled : SemanticTarget)
  | kicked (revision : Nat)
  | readTarget
  | recordTarget (target : SemanticTarget)
  | markPendingIfUntouched (target : SemanticTarget)
  | pinInactive
  -- the other atomic booleans
  | load (flag : Flag)
  | store (flag : Flag) (value : Bool)
  | takeCreationOwnership
  | swapGated (flag : Flag)
  | lockGate
  | unlockGate
  | awaitDisposed
  -- state publication and the parked failure
  | state
  | observe
  | sequence
  | revisions (state : FiberState)
  | awaitState (state : FiberState) (baseline : Nat) (bounded : Bool)
  | publish (next : FiberState)
  | storeError (next : Option PluginFailure)
  | takeError
  | readError
  -- spawn state
  | dependencyEdges
  | installed
  | effectiveInput
  | contract
  -- the cleanup journal
  | lockDisposables
  | unlockDisposables
  | tokens
  | removeDisposable (token : Token)
  | readDrainCleanup
  -- Plugin apply
  | startApply (target : SemanticTarget)
  | finishApply
  | enterBracket (bracket : Bracket)
  | exitBracket (bracket : Bracket)
  -- residency and delivery
  | takeResidency
  | leave
  | deliver
  deriving DecidableEq

namespace FiberOp

/-- The answer of each operation. -/
abbrev Ret : FiberOp → Type
  | tryClaim => Bool
  | release => Inertia
  | loadInertia _ => Inertia
  | reclaim _ => Bool
  | isIdle => Bool
  | probeIdle _ => Bool
  | recheckRevision => Nat
  | loadSettled => Nat
  | readTarget => Option SemanticTarget
  | load _ => Bool
  | takeCreationOwnership => Bool
  | swapGated _ => Bool
  | state => FiberState
  | observe => FiberState × Nat
  | sequence => Nat
  | revisions _ => FiberState × Nat
  | awaitState _ _ _ => Bool
  | takeError => Option PluginFailure
  | readError => Option PluginFailure
  | dependencyEdges => List DependencyEdge
  | installed => Bool
  | effectiveInput => Input
  | contract => Option PluginKey
  | tokens => List Token
  | removeDisposable _ => Option Cleanup
  | readDrainCleanup => Option CleanupId
  | finishApply => ApplyOutcome
  | takeResidency => Option GroupId
  | _ => Unit

end FiberOp

/-- The atomic operations. -/
inductive Op where
  | on (f : FiberId) (op : FiberOp)
  -- operations on one Fiber that also touch what fibers share
  | commitRecheck (f : FiberId)
  | commitChange (f : FiberId)
  | push (f : FiberId) (cleanup : Cleanup)
  | claimCleanup (f : FiberId)
  | refuseRecursion (ctx : SettleCtx) (f : FiberId) (operation : LifecycleOperation)
  -- claimed cleanups
  | awaitOutcome (id : CleanupId)
  | awaitCompleted (id : CleanupId)
  | sendOutcome (f : FiberId) (id : CleanupId)
  | completeCleanup (id : CleanupId)
  | userCleanup
  -- allocation, registry and dependency index
  | allocate (edges : List DependencyEdge)
  | attach (f : FiberId) (key : PluginKey)
  | install (f : FiberId) (key : PluginKey)
  | upgradeClaim (f : FiberId) (group : GroupId)
  | releaseClaim (f : FiberId) (group : GroupId)
  | detachForRemoval (ctx : SettleCtx) (key : PluginKey)
  | fiberCount (group : GroupId)
  | dropGroup (group : GroupId)
  | register (f : FiberId)
  | unregister (f : FiberId)
  | dependentsOf (edges : List DependencyEdge)
  -- the service store
  | freshOccurrence
  | lockStore
  | unlockStore
  | bindContract (name : ServiceName) (contract : Contract)
  | occupied (key : DependencyEdge)
  | holds (key : DependencyEdge) (occurrence : Occurrence)
  | insertSlot (slot : ServiceSlot)
  | replaceValue (key : DependencyEdge) (value : Nat)
  | removeSlot (key : DependencyEdge)
  | visibility (f : FiberId)
  | occurrenceId (key : DependencyEdge)
  | slotsOwnedBy (f : FiberId)
  | visibleValue (key : DependencyEdge) (contract : Contract)
  -- tasks, executors and callers
  | tryCurrent (revision : Nat)
  | freshCell
  | park (cell : CellId) (task : Party)
  | takeCell (cell : CellId)
  | awaitTask (task : Party)
  | nextCall (f : FiberId)
  | finishTask
  | arm (f : FiberId)
  | disarm
  | handOff
  | awaitControl
  | inputDrop
  | offer
  | fork (routine : Routine)
  | panic
  deriving DecidableEq

namespace Op

/-- The answer of each operation. -/
abbrev Ret : Op → Type
  | on _ op => op.Ret
  | commitRecheck _ => Nat
  | push _ _ => Token
  | claimCleanup _ => CleanupId
  | refuseRecursion _ _ _ => Bool
  | allocate _ => FiberId
  | upgradeClaim _ _ => Bool
  | detachForRemoval _ _ => Option (Option (GroupId × List FiberId))
  | fiberCount _ => Nat
  | dependentsOf _ => List FiberId
  | freshOccurrence => Occurrence
  | bindContract _ _ => Bool
  | occupied _ => Bool
  | holds _ _ => Bool
  | visibility _ => List DependencyEdge
  | occurrenceId _ => Option Occurrence
  | slotsOwnedBy _ => List DependencyEdge
  | visibleValue _ _ => Except ServiceLookupError Nat
  | tryCurrent _ => Bool
  | freshCell => CellId
  | takeCell _ => Party
  | nextCall _ => TaskCall
  | awaitControl => ControlOutcome
  | inputDrop => Bool
  | offer => Bool
  | fork _ => Party
  | panic => Empty
  | _ => Unit

/-- Where a party waits, and where dropping its future takes effect. -/
def awaits : Op → Bool
  | on _ .awaitIdle | on _ .awaitDisposed | on _ (.awaitState _ _ _) | on _ .finishApply
  | awaitOutcome _ | awaitCompleted _ | awaitControl | panic => true
  | _ => false

/-- The Fiber whose handle an operation uses. -/
def touches : Op → Option FiberId
  | on f _ | commitRecheck f | commitChange f | push f _ | claimCleanup f
  | refuseRecursion _ f _ | sendOutcome f _ | attach f _ | install f _ | upgradeClaim f _
  | releaseClaim f _ | register f | unregister f | arm f | fork (.convergence f) | fork (.task f)
  | fork (.cleanup f _ _) => some f
  | _ => none

end Op

end Runtime
end CordisCore
