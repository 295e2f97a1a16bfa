import CordisCore.Fiber.Creation

/-!
# The lifecycle machine — every routine, run by any number of parties
-/

namespace CordisCore
namespace Runtime

open Interleaving
open Interleaving.Program (iterate)

/-- What a party answers when it ends. -/
inductive Answer where
  | gone
  | finished
  | spawned (result : Except SpawnError FiberId)
  | ready (f : FiberId) (result : Except ReadyError FiberState)
  | waited (f : FiberId) (result : Except WaitStateError Unit)
  | disposed (f : FiberId)
  | restarted (f : FiberId) (result : Except RestartError Unit)
  | updated (f : FiberId) (result : Except UpdateError UpdateOutcome)
  | swapped (f : FiberId) (result : Except EraSwapError FiberId)
  | removed (outcome : RemovalOutcome)
  | published (result : Except ServicePublishError ServicePublication)
  | controlled (publication : ServicePublication) (result : Except ServiceControlError Unit)
  | service (result : Except ServiceLookupError Nat)
  | registered (result : Except Unit Token)
  | claimed (won : Bool)
  | started (result : Except TaskRegistrationError Unit)

/-- One lifecycle call of a `Context::run` task of `f`. -/
def taskCall (f : FiberId) : TaskCall → Prog Unit
  | .finish => pure ()
  | .ready g => do
      let _ ← handleReady { runOwner := some f } g
      pure ()
  | .waitState g state bounded => do
      let _ ← handleWaitState { runOwner := some f } g state bounded
      pure ()
  | .dispose g => do
      let _ ← handleDispose { runOwner := some f } g
      pure ()
  | .restart g => do
      let _ ← handleRestart { runOwner := some f } g
      pure ()
  | .update g change => do
      let _ ← handleUpdate { runOwner := some f } g change
      pure ()
  | .eraSwap g change => do
      let _ ← eraSwap { runOwner := some f } g change
      pure ()
  | .removePlugins key => do
      let _ ← removePlugins { runOwner := some f } key
      pure ()

/-- A `Context::run` task: any lifecycle calls, one after the other. -/
def taskBody (f : FiberId) : Prog Unit := do
  iterate () fun _ => do
    let call ← perform (.nextCall f)
    if call = .finish then leave ()
    else do
      taskCall f call
      again ()
  perform .finishTask

/-- The program of every routine. -/
def body : Routine → Prog Answer
  | .spawn origin key edges => do
      let result ← spawnPreparedInner origin key edges true
      pure (.spawned result)
  | .ready ctx f => do
      let result ← handleReady ctx f
      pure (.ready f result)
  | .waitState ctx f state bounded => do
      let result ← handleWaitState ctx f state bounded
      pure (.waited f result)
  | .dispose ctx f => do
      if ← handleDispose ctx f then pure (.disposed f) else pure .gone
  | .restart ctx f => do
      let result ← handleRestart ctx f
      pure (.restarted f result)
  | .update ctx f change => do
      let result ← handleUpdate ctx f change
      pure (.updated f result)
  | .eraSwap ctx f change => do
      let result ← eraSwap ctx f change
      pure (.swapped f result)
  | .removePlugins ctx key => do
      let outcome ← removePlugins ctx key
      pure (.removed outcome)
  | .provide f key contract value => do
      let result ← provide f key contract value
      pure (.published result)
  | .set publication value => do
      let result ← setExact publication value
      pure (.controlled publication result)
  | .remove publication => do
      let result ← removePublication publication
      pure (.controlled publication result)
  | .tryService key contract => do
      let result ← perform (.visibleValue key contract)
      pure (.service result)
  | .effect f => do
      let result ← effect f
      pure (.registered result)
  | .disarm f token => do
      let won ← disarm f token
      pure (.claimed won)
  | .disposeEffect f token => do
      let won ← disposeEffect f token
      pure (.claimed won)
  | .run f => do
      let result ← run f
      pure (.started result)
  | .convergence f => do
      convergencePass f
      pure .finished
  | .cleanup f id cleanup => do
      runCleanup f id cleanup
      pure .finished
  | .task f => do
      taskBody f
      pure .finished
  | .creationGuard f => do
      creationInterruptedTeardown f
      pure .finished

/-- The routine that a fork starts. -/
def forks : Op → Option Routine
  | .fork routine => some routine
  | _ => none

/-- The lifecycle core of one Runtime. -/
def cordis : Machine Root Op Op.Ret Routine Choice Answer where
  init := Root.new
  exec := execAllocated
  forks := forks
  awaits := Op.awaits
  dropped := dropped
  gone := .gone
  body := body
  enter := enter

theorem cordis_exec {self fresh : Party} {choice : Choice} {op : Op} {s s' : Root} {r : op.Ret}
    (h : cordis.exec self fresh choice op s = some (s', r)) :
    exec self fresh choice op s = some (s', r) :=
  (execAllocated_eq_some.mp h).2

theorem cordis_touches {self fresh : Party} {choice : Choice} {op : Op} {s s' : Root}
    {r : op.Ret} (h : cordis.exec self fresh choice op s = some (s', r)) {f : FiberId}
    (hf : op.touches = some f) : f < s.nextFiber :=
  (execAllocated_eq_some.mp h).1 f hf

abbrev State := Config Root Op Op.Ret Answer

/-- A scheduling decision about this Runtime. -/
abbrev Step := Label Routine Choice

/-- A condition on the operations of a run. -/
abbrev Condition := Machine.Condition Root Op Choice

/-- The states of the runs that meet a condition. -/
abbrev Reachable (ok : Condition) (s : State) : Prop :=
  cordis.Reachable ok s

/-- A stretch of steps of one party; a fork goes to `fresh`. -/
def turns (self : Party) (n : Nat) (choice : Choice := .no) (fresh : Party := 99) : List Step :=
  List.replicate n (.step self fresh choice)

/-- The condition that every step meets, decided. -/
def always : Party → Choice → Op → Root → Bool :=
  fun _ _ _ _ => true

/-- The state at the end of a schedule that is enabled and meets the condition throughout. -/
def after (ok? : Party → Choice → Op → Root → Bool) (schedule : List Step)
    (enabled : (cordis.run ok? schedule cordis.start).isSome = true) : State :=
  (cordis.run ok? schedule cordis.start).get enabled

theorem reachable_after {ok : Condition} {ok? : Party → Choice → Op → Root → Bool}
    (h : ∀ p c op s, ok? p c op s = true → ok p c op s) (schedule : List Step)
    (enabled : (cordis.run ok? schedule cordis.start).isSome = true) :
    Reachable ok (after ok? schedule enabled) :=
  Machine.Reachable.of_run cordis h schedule (Machine.Reachable.start) (Option.some_get _).symm

/-- The state in which one more party has just started a call. -/
def State.called (c : State) (p : Party) (routine : Routine) : State :=
  { shared := c.shared.drive p { byCaller := true }
    pool := Machine.place c.pool p (body routine) }

theorem State.called_pool (c : State) (p : Party) (routine : Routine) :
    (c.called p routine).pool p = some (body routine) :=
  Machine.place_self c.pool p (body routine)

theorem reachable_called {ok : Condition} {c : State} (h : Reachable ok c) {p : Party}
    {routine : Routine} (vacant : (c.pool p).isNone = true)
    (admitted : admits c.shared routine = true) : Reachable ok (c.called p routine) := by
  refine Machine.Reachable.step (.enter p routine) h trivial ?_
  have henter : cordis.enter p routine c.shared =
      some (c.shared.drive p { byCaller := true }) := if_pos admitted
  have hbody : cordis.body routine = body routine := rfl
  simp only [Machine.step, vacant, if_true, henter, hbody, Option.map_some]
  rfl

end Runtime
end CordisCore
