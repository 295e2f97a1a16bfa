import CordisCore.Interleaving.Machine

/-!
# Runtime data — identities, lifecycle states and journal obligations

Names, realms, contracts, inputs and occurrences are compared for identity only,
so each of them is a bare number here.
-/

namespace CordisCore
namespace Runtime

open Interleaving (Party)

/-! ## Identities -/

/-- The allocation of one Fiber; `0` is the root fiber. -/
abbrev FiberId := Nat

abbrev ServiceName := Nat
abbrev RealmKey := Nat

/-- A `TypeId`: of a Service contract or of a Plugin. -/
abbrev Contract := Nat

/-- One publication occurrence (`ServiceOccurrenceId`). -/
abbrev Occurrence := Nat

/-- One committed `EffectiveApplyInput`. -/
abbrev Input := Nat

/-- A typed `PluginKey`. -/
abbrev PluginKey := Nat

/-- One `PluginGroup` allocation. -/
abbrev GroupId := Nat

/-- A journal position (`DisposableToken`). -/
abbrev Token := Nat

/-- One cleanup claimed by a drain (`DrainCleanup`). -/
abbrev CleanupId := Nat

/-- The parking cell of one `Context::run` task. -/
abbrev CellId := Nat

/-- An exact dependency slot; also the key of a Service slot. -/
structure DependencyEdge where
  service : ServiceName
  realm : RealmKey
  deriving DecidableEq

/-! ## Lifecycle -/

/-- The word of `InertiaSlot::inertia`. -/
inductive Inertia where
  | idle
  | active
  | releasing
  deriving DecidableEq

/-- The published lifecycle state. -/
inductive FiberState where
  | loading
  | active
  | pending
  | unloading
  | failed
  | disposed
  deriving DecidableEq

/-- The atomic booleans of a Fiber and of its slot. -/
inductive Flag where
  | alive
  | disposing
  | generationReplacing
  | disposeComplete
  | draining
  | applied
  | creationPending
  | creationOwned
  deriving DecidableEq

/-- The exact semantic value a Fiber settles against. -/
structure SemanticTarget where
  input : Input
  assignments : List (DependencyEdge × Option Occurrence)
  deriving DecidableEq

namespace SemanticTarget

def hasMissing (target : SemanticTarget) : Bool :=
  target.assignments.any fun row => row.2.isNone

end SemanticTarget

inductive PluginFailureKind where
  | returnedError
  | panic
  deriving DecidableEq

/-- One apply attempt's normalized failure. -/
structure PluginFailure where
  kind : PluginFailureKind
  diagnostic : String
  deriving DecidableEq

/-- How a contained apply ended. -/
inductive ApplyOutcome where
  | succeeded
  | returned (diagnostic : String)
  | panicked (payload : String)
  deriving DecidableEq

namespace ApplyOutcome

/-- The normalized failure, if the apply failed. -/
def failure : ApplyOutcome → Option PluginFailure
  | succeeded => none
  | returned diagnostic => some { kind := .returnedError, diagnostic := diagnostic }
  | panicked payload => some { kind := .panic, diagnostic := payload }

end ApplyOutcome

/-! ## Journal obligations -/

/-- What a committed cleanup does when it runs. -/
inductive Cleanup where
  /-- A user cleanup. -/
  | effect
  /-- `withdraw_exact` of one occurrence. -/
  | withdraw (key : DependencyEdge) (occurrence : Occurrence)
  /-- Joining a `Context::run` task. -/
  | join (cell : CellId)
  deriving DecidableEq

/-- Where the handle of a `Context::run` task is parked. -/
inductive RunSlot where
  | pending
  | running (task : Party)
  | done
  deriving DecidableEq

/-- The framework bodies that carry settle attribution. -/
inductive Bracket where
  | settle
  | teardown
  | cleanup
  deriving DecidableEq

/-! ## Lifecycle operations and their refusals -/

inductive LifecycleOperation where
  | ready
  | waitState
  | restart
  | update
  | eraSwap
  | dispose
  | removePlugins
  deriving DecidableEq

/-- The attribution a call carries: `settling` frames and `run_owner`. -/
structure SettleCtx where
  settling : List FiberId := []
  runOwner : Option FiberId := none
  deriving DecidableEq

/-- A prepared replacement input for one Plugin contract. -/
structure PreparedChange where
  contract : PluginKey
  deriving DecidableEq

inductive SpawnError where
  | inactiveContext
  | initialApply (failure : PluginFailure)
  | interrupted
  deriving DecidableEq

inductive ReadyError where
  | recursion
  | apply (failure : PluginFailure)
  deriving DecidableEq

inductive RestartError where
  | closed
  | recursion
  | apply (failure : PluginFailure)
  deriving DecidableEq

/-- What awaited update control decided about a change. -/
inductive ControlOutcome where
  | accepted
  | vetoed
  | failed
  deriving DecidableEq

inductive UpdateOutcome where
  | committed (state : FiberState)
  | vetoed
  deriving DecidableEq

inductive UpdateError where
  | pluginContractMismatch
  | closed
  | recursion
  | control
  | admissionLost
  | apply (failure : PluginFailure)
  deriving DecidableEq

inductive EraSwapError where
  | pluginContractMismatch
  | closed
  | recursion
  | successorApply (failure : PluginFailure)
  | successorLost
  | inputDropPanic
  deriving DecidableEq

inductive WaitStateError where
  | elapsed
  | recursion
  deriving DecidableEq

inductive ServicePublishError where
  | inactiveContext
  | duplicatePublication (service : ServiceName)
  | contractMismatch (service : ServiceName)
  deriving DecidableEq

inductive ServiceControlError where
  | stalePublication (service : ServiceName)
  | mutationClosed (service : ServiceName)
  deriving DecidableEq

inductive ServiceLookupError where
  | unavailable (service : ServiceName)
  | contractMismatch (service : ServiceName)
  deriving DecidableEq

end Runtime
end CordisCore
