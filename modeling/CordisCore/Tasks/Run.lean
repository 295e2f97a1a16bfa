import CordisCore.Interleaving.Notify
import CordisCore.Runtime.Types

/-!
# Tasks — `Context::run` and the generation that joins what it started

A task is registered with its Fiber before it exists: the journal holds the
obligation to join it, and the handle is parked in a cell that the join cleanup
may have to wait for.  Anybody may register, run and claim at any time; the passes
over one Fiber take turns by the inertia slot.  What tasks and cleanups do, how
they end and which executor is there is left open.

The trace is instrumentation: operations write it and no operation reads it back.
-/

namespace CordisCore
namespace Tasks

open Interleaving
open Interleaving.Program (iterate)
open CordisCore.Runtime (FiberState Token)

/-! ## State -/

/-- One call of `Context::run`, and the task that it spawns. -/
abbrev RunId := Nat

/-- What a `JoinHandle` answers. -/
inductive Outcome where
  | finished
  | panicked
  /-- The executor dropped the task. -/
  | cancelled
  deriving DecidableEq

/-- The task of a call, as its executor sees it. -/
inductive Task where
  | absent
  | live
  | ended (outcome : Outcome)
  deriving DecidableEq

/-- Where the handle parks between the spawn and the join. -/
inductive RunSlot where
  | pending
  | running (join : RunId)
  | done
  deriving DecidableEq

inductive TaskRegistrationError where
  | inactiveContext
  | executorUnavailable
  deriving DecidableEq

/-- Who took an obligation out of the journal. -/
inductive Claimant where
  | drain
  | dispose
  | disarm
  /-- `ListenerRegistration::remove` -/
  | removeListener
  /-- `ServicePublication::remove` -/
  | removePublication
  deriving DecidableEq

/-- What a registration hands out. -/
inductive Control where
  /-- `EffectRegistration`, of a sync or an async cleanup. -/
  | effect (isAsync : Bool)
  /-- `ListenerRegistration`, of an event or of updates. -/
  | listener
  /-- `ServicePublication` -/
  | publication
  /-- Nothing that claims the cleanup: an exporter or an observer. -/
  | permanent (isAsync : Bool)
  deriving DecidableEq

/-- What consumes this control and claims the obligation that came with it. -/
def Control.claims : Control → Claimant → Bool
  | effect _, .dispose => true
  | effect _, .disarm => true
  | listener, .removeListener => true
  | publication, .removePublication => true
  | _, _ => false

inductive Cleanup where
  /-- The join cleanup of a call of `run`. -/
  | join (run : RunId)
  /-- The cleanup of any other registration. -/
  | registered (control : Control)
  deriving DecidableEq

def Cleanup.asyncCleanup : Cleanup → Bool
  | join _ => true
  | registered (.effect isAsync) => isAsync
  | registered .listener => false
  | registered .publication => false
  | registered (.permanent isAsync) => isAsync

/-- Whether its `PublishStep` can refuse: a contract mismatch, a service that is there already. -/
def Cleanup.refusable : Cleanup → Bool
  | registered .listener => true
  | registered .publication => true
  | _ => false

inductive EffectFailureKind where
  | returnedError
  | panic
  deriving DecidableEq

/-- A call: its cell, its notification and its task. -/
structure Run where
  slot : RunSlot := .pending
  parked : Notify := {}
  task : Task := .absent
  -- trace
  /-- Who is in the call. -/
  caller : Option Party := none
  /-- The join obligation. -/
  token : Option Token := none
  /-- The thread that runs the task. -/
  worker : Option Party := none
  /-- The thread that runs the join cleanup. -/
  joiner : Option Party := none
  notified : Bool := false
  result : Option (Except TaskRegistrationError Unit) := none
  /-- The panics that were reported at the join. -/
  reports : Nat := 0

/-- An obligation of the journal from its registration on. -/
structure Occurrence where
  /-- What was sent through the `oneshot`, once the cleanup has run. -/
  outcome : Option (Option EffectFailureKind) := none
  /-- `DrainCleanup` -/
  completed : Bool := false
  -- trace
  cleanup : Option Cleanup := none
  /-- The task that registered it. -/
  author : Option RunId := none
  claimant : Option Claimant := none

/-- One Fiber. -/
structure Fiber where
  alive : Bool := true
  disposing : Bool := false
  generationReplacing : Bool := false
  state : FiberState := .pending
  /-- Who holds the inertia slot. -/
  slot : Option Party := none
  -- `DisposableList`
  sn : Token := 0
  disposables : List (Token × Cleanup) := []
  drainCleanup : Option Token := none
  draining : Bool := false
  /-- The controls that were handed out and not consumed. -/
  registrations : List (Token × Control) := []
  occurrence : Token → Occurrence := fun _ => {}
  calls : RunId := 0
  run : RunId → Run := fun _ => {}
  -- trace
  /-- What the drain claimed and has not made its current cleanup. -/
  hand : Option Token := none

namespace Fiber

variable (s : Fiber)

def modify (r : RunId) (change : Run → Run) : Fiber :=
  { s with run := fun q => if q = r then change (s.run q) else s.run q }

def mark (t : Token) (change : Occurrence → Occurrence) : Fiber :=
  { s with occurrence := fun q => if q = t then change (s.occurrence q) else s.occurrence q }

/-- `assert_can_register` -/
def admits : Bool :=
  s.alive && !s.disposing && !s.generationReplacing && (s.state == .loading || s.state == .active)

/-- `Context::run` is called. -/
def call (p : Party) : Fiber :=
  { s with calls := s.calls + 1 }.modify s.calls fun run => { run with caller := some p }

/-- `DisposableList::push` -/
def commit (cleanup : Cleanup) (author : Option RunId) : Fiber :=
  { s with sn := s.sn + 1, disposables := s.disposables ++ [(s.sn + 1, cleanup)] }.mark (s.sn + 1)
    fun o => { o with cleanup := some cleanup, author := author }

/-- The gate is open, and what is published with the cleanup is not refused. -/
def accepts (cleanup : Cleanup) (refuses : Bool) : Bool :=
  s.admits && !(cleanup.refusable && refuses)

/-- The locked part of `push_gated`: the gate is read again under the lock. -/
def push (cleanup : Cleanup) (author : Option RunId) (refuses : Bool) : Fiber × Option Token :=
  if s.accepts cleanup refuses then
    (match cleanup with
      | .join r => (s.commit cleanup author).modify r fun run => { run with token := some (s.sn + 1) }
      | .registered control =>
          { s.commit cleanup author with
            registrations := (s.sn + 1, control) :: s.registrations },
      some (s.sn + 1))
  else (s, none)

/-- `DisposableList::remove` -/
def removeDisposable (t : Token) (claimant : Claimant) : Fiber × Option Cleanup :=
  match s.disposables.lookup t with
  | some cleanup =>
      ({ s with
          disposables := s.disposables.filter fun entry => entry.1 ≠ t
          hand := match claimant with
            | .drain => some t
            | .dispose | .disarm | .removeListener | .removePublication => s.hand }.mark t
        fun o => { o with claimant := some claimant }, some cleanup)
  | none => (s, none)

/-- `DisposableList::tokens` -/
def tokens : List Token :=
  s.disposables.map Prod.fst

/-- The claimed cleanup starts on a thread of its own. -/
def detach (fresh : Party) : Cleanup → Fiber
  | .join r => s.modify r fun run => { run with joiner := some fresh }
  | .registered _ => s

/-- A control is move-only: whoever uses it gives it up. -/
def consume (t : Token) (claimant : Claimant) : Option Fiber :=
  match s.registrations.find? fun entry => entry.1 == t && entry.2.claims claimant with
  | some entry => some { s with registrations := s.registrations.erase entry }
  | none => none

end Fiber

namespace Run

variable (u : Run)

def spawn (fresh : Party) : Run :=
  { u with task := .live, worker := some fresh }

def park (r : RunId) : Run :=
  { u with slot := .running r }

def notifyWaiters : Run :=
  { u with parked := u.parked.notifyWaiters, notified := true }

def answer (result : Except TaskRegistrationError Unit) : Run :=
  { u with caller := none, result := some result }

/-- `mem::replace` by `Done`; a pending cell is restored. -/
def takeSlot : Run × Option RunId :=
  match u.slot with
  | .running join => ({ u with slot := .done }, some join)
  | .pending => (u, none)
  | .done => (u, none)

end Run

/-! ## Operations -/

/-- What a task does next, or what becomes of it. -/
inductive Decision where
  | proceed
  | register (control : Control)
  | run
  | finish (outcome : Outcome)
  deriving DecidableEq

/-- What the outside world answers. -/
structure Choice where
  answer : Bool := false
  refuses : Bool := false
  decision : Decision := .proceed
  failure : Option EffectFailureKind := none

inductive Op where
  -- `Context::run`
  | call
  | assertCanRegister
  | tryCurrent
  | push (cleanup : Cleanup) (author : Option RunId)
  | spawn (r : RunId)
  | park (r : RunId)
  | notifyWaiters (r : RunId)
  | answer (r : RunId) (result : Except TaskRegistrationError Unit)
  -- a task
  | decide (r : RunId)
  | ended (r : RunId) (outcome : Outcome)
  -- the join cleanup
  | notified (r : RunId)
  | takeSlot (r : RunId)
  | awaitParked (r : RunId)
  | join (r : RunId)
  | reportPanic (r : RunId)
  -- a claimed cleanup
  | removeDisposable (t : Token) (claimant : Claimant)
  /-- Remove the listener from its store; whether it was there. -/
  | unregister (t : Token)
  /-- `remove_exact`, refused where the occurrence is stale or the generation closed. -/
  | removeExact (t : Token)
  | setDrainCleanup (t : Token)
  | detach (t : Token) (cleanup : Cleanup) (drains : Bool)
  | invoke (t : Token)
  | send (t : Token) (outcome : Option EffectFailureKind)
  | complete (t : Token)
  | outcome (t : Token)
  | reportFailure (t : Token)
  -- the drain
  | drainCleanup
  | waitCompleted (t : Token)
  | tokens
  | setDraining (draining : Bool)
  -- the passes
  | claimSlot
  | abandon
  | isAlive
  | state
  | transition (next : FiberState)
  | hasMissing
  | awaitsFirstApply
  | reopen
  | apply
  | kill
  | claimTerminal
  | markReplacing

abbrev Op.Ret : Op → Type
  | call => RunId
  | assertCanRegister | tryCurrent => Bool
  | push _ _ => Option Token
  | decide _ => Decision
  | takeSlot _ => Option RunId
  | join _ => Outcome
  | removeDisposable _ _ => Option Cleanup
  | invoke _ | outcome _ => Option EffectFailureKind
  | drainCleanup => Option Token
  | tokens => List Token
  | unregister _ | removeExact _ => Bool
  | isAlive | hasMissing | awaitsFirstApply | apply | claimTerminal => Bool
  | state => FiberState
  | _ => Unit

def exec (self fresh : Party) (choice : Choice) : (op : Op) → Fiber → Option (Fiber × op.Ret)
  | .call, s => some (s.call self, s.calls)
  | .assertCanRegister, s => some (s, s.admits)
  | .tryCurrent, s => some (s, choice.answer)
  | .push cleanup author, s => some (s.push cleanup author choice.refuses)
  | .spawn r, s => some (s.modify r fun u => u.spawn fresh, ())
  | .park r, s => some (s.modify r fun u => u.park r, ())
  | .notifyWaiters r, s => some (s.modify r Run.notifyWaiters, ())
  | .answer r result, s => some (s.modify r fun u => u.answer result, ())
  | .decide _, s => some (s, choice.decision)
  | .ended r outcome, s => some (s.modify r fun u => { u with task := .ended outcome }, ())
  | .notified r, s =>
      some (s.modify r fun u => { u with parked := u.parked.notified self }, ())
  | .takeSlot r, s => some (s.modify r fun u => u.takeSlot.1, (s.run r).takeSlot.2)
  | .awaitParked r, s =>
      if (s.run r).parked.woken self then
        some (s.modify r fun u => { u with parked := u.parked.discard self }, ())
      else none
  | .join r, s =>
      match (s.run r).task with
      | .ended outcome => some (s, outcome)
      | _ => none
  | .reportPanic r, s => some (s.modify r fun u => { u with reports := u.reports + 1 }, ())
  | .removeDisposable t claimant, s => some (s.removeDisposable t claimant)
  | .unregister _, s => some (s, choice.answer)
  | .removeExact _, s => some (s, s.admits && choice.answer)
  | .setDrainCleanup t, s => some ({ s with drainCleanup := some t, hand := none }, ())
  | .detach _ cleanup _, s => some (s.detach fresh cleanup, ())
  | .invoke _, s => some (s, choice.failure)
  | .send t outcome, s => some (s.mark t fun o => { o with outcome := some outcome }, ())
  | .complete t, s => some (s.mark t fun o => { o with completed := true }, ())
  | .outcome t, s => (s.occurrence t).outcome.map fun outcome => (s, outcome)
  | .reportFailure _, s => some (s, ())
  | .drainCleanup, s => some (s, s.drainCleanup)
  | .waitCompleted t, s => if (s.occurrence t).completed then some (s, ()) else none
  | .tokens, s => some (s, s.tokens)
  | .setDraining draining, s => some ({ s with draining := draining }, ())
  | .claimSlot, s => if s.slot = none then some ({ s with slot := some self }, ()) else none
  | .abandon, s => some ({ s with slot := none }, ())
  | .isAlive, s => some (s, s.alive)
  | .state, s => some (s, s.state)
  | .transition next, s => some ({ s with state := next }, ())
  | .hasMissing, s => some (s, choice.answer)
  | .awaitsFirstApply, s => some (s, choice.answer)
  | .reopen, s => some ({ s with generationReplacing := false }, ())
  | .apply, s => some (s, choice.answer)
  | .kill, s => some ({ s with alive := false }, ())
  | .claimTerminal, s => some ({ s with disposing := true }, s.disposing)
  | .markReplacing, s => some ({ s with generationReplacing := true }, ())

/-! ## Programs -/

abbrev Prog := Program Op Op.Ret

abbrev perform (op : Op) : Prog op.Ret :=
  Program.perform op

/-- `push_gated` -/
def pushGated (cleanup : Cleanup) (author : Option RunId) : Prog (Option Token) := do
  if ← perform .assertCanRegister then perform (.push cleanup author) else pure none

/-- `register_cleanup`, `register_listener`, `provide` and the like. -/
def registerCleanup (control : Control) (author : Option RunId) : Prog Unit := do
  let _ ← pushGated (.registered control) author
  pure ()

/-- `Context::run`, called by a task or from elsewhere. -/
def run (author : Option RunId) : Prog Unit := do
  let r ← perform .call
  if ← perform .assertCanRegister then
    if ← perform .tryCurrent then
      match ← pushGated (.join r) author with
      | some _ => do
          perform (.spawn r)
          -- no await in between
          perform (.park r)
          perform (.notifyWaiters r)
          perform (.answer r (.ok ()))
      | none => perform (.answer r (.error .inactiveContext))
    else perform (.answer r (.error .executorUnavailable))
  else perform (.answer r (.error .inactiveContext))

/-- `run_task`; the executor may drop it where it is suspended. -/
def runTask (r : RunId) : Prog Unit :=
  iterate () fun _ => do
    match ← perform (.decide r) with
    | .proceed => pure (.inl ())
    | .register control => do
        registerCleanup control (some r)
        pure (.inl ())
    | .run => do
        run (some r)
        pure (.inl ())
    | .finish outcome => do
        perform (.ended r outcome)
        pure (.inr ())

/-- `contain_join` -/
def containJoin (r join : RunId) : Prog Unit := do
  match ← perform (.join join) with
  | .panicked => perform (.reportPanic r)
  | .finished => pure ()
  | .cancelled => pure ()

/-- The cleanup that `run` registers. -/
def joinCleanup (r : RunId) : Prog Unit :=
  iterate () fun _ => do
    perform (.notified r)
    match ← perform (.takeSlot r) with
    | some join => do
        containJoin r join
        pure (.inr ())
    | none => do
        perform (.awaitParked r)
        pure (.inl ())

/-- `execute_cleanup` -/
def executeCleanup (t : Token) : Cleanup → Prog (Option EffectFailureKind)
  | .join r => do
      joinCleanup r
      pure none
  | .registered _ => perform (.invoke t)

/-- The work of a claimed cleanup; a drain is told by its `DrainCleanup` too. -/
def work (t : Token) (cleanup : Cleanup) (drains : Bool) : Prog Unit := do
  let outcome ← executeCleanup t cleanup
  perform (.send t outcome)
  if drains then perform (.complete t) else pure ()

def awaitOutcome (t : Token) : Prog Unit := do
  match ← perform (.outcome t) with
  | some _ => perform (.reportFailure t)
  | none => pure ()

/-- A sync cleanup runs wherever its drain runs. -/
def startCleanup (t : Token) (cleanup : Cleanup) : Prog Unit :=
  if cleanup.asyncCleanup then perform (.detach t cleanup true) else work t cleanup true

/-- `run_cleanup_contained` -/
def runCleanupContained (t : Token) (cleanup : Cleanup) : Prog Unit := do
  perform (.setDrainCleanup t)
  startCleanup t cleanup
  awaitOutcome t

def runToken (t : Token) : Prog Unit := do
  match ← perform (.removeDisposable t .drain) with
  | some cleanup => runCleanupContained t cleanup
  | none => pure ()

/-- `run_tokens_contained`, of the tokens in the order they are run in. -/
def runTokensContained : List Token → Prog Unit
  | [] => pure ()
  | t :: rest => do
      runToken t
      runTokensContained rest

/-- `wait_claimed_drain_cleanup` -/
def waitClaimedDrainCleanup : Prog Unit := do
  match ← perform .drainCleanup with
  | some t => perform (.waitCompleted t)
  | none => pure ()

/-- `drain_disposables` -/
def drainDisposables : Prog Unit := do
  waitClaimedDrainCleanup
  let tokens ← perform .tokens
  perform (.setDraining true)
  runTokensContained tokens.reverse
  perform (.setDraining false)

/-- The generation is closed before it is drained. -/
def unload : Prog Unit := do
  perform (.transition .unloading)
  drainDisposables

/-- Whatever is live is torn down; an unloading generation is drained by whoever closed it. -/
def unloadLive : Prog Unit := do
  match ← perform .state with
  | .active | .failed | .loading => unload
  | .pending | .unloading | .disposed => pure ()

def applyOnce : Prog Unit := do
  perform .reopen
  perform (.transition .loading)
  if ← perform .apply then perform (.transition .active)
  else do
    unload
    perform (.transition .failed)

/-- `settle_once_inner` -/
def settleOnce : Prog Unit := do
  if ← perform .isAlive then do
    unloadLive
    if ← perform .hasMissing then perform (.transition .pending)
    -- the first apply is left to the initial pass
    else if ← perform .awaitsFirstApply then pure ()
    else applyOnce
  else pure ()

/-- `teardown_body` -/
def teardownBody : Prog Unit := do
  if (← perform .state) = .disposed then pure ()
  else do
    perform (.transition .unloading)
    perform .kill
    drainDisposables
    perform (.transition .disposed)

def settle : Prog Unit := do
  perform .claimSlot
  settleOnce
  perform .abandon

/-- The slot is held already. -/
def teardown : Prog Unit := do
  teardownBody
  perform .abandon

def dispose : Prog Unit := do
  perform .claimSlot
  if ← perform .claimTerminal then perform .abandon else teardown

/-- `EffectRegistration::dispose` -/
def disposeEffect (t : Token) : Prog Unit := do
  match ← perform (.removeDisposable t .dispose) with
  | some cleanup => do
      perform (.detach t cleanup false)
      awaitOutcome t
  | none => pure ()

/-- `EffectRegistration::disarm` -/
def disarm (t : Token) : Prog Unit := do
  let _ ← perform (.removeDisposable t .disarm)
  pure ()

/-- `ListenerRegistration::remove` -/
def removeListener (t : Token) : Prog Unit := do
  let _ ← perform (.unregister t)
  -- the claimed cleanup is dropped unexecuted
  let _ ← perform (.removeDisposable t .removeListener)
  pure ()

/-- `ServicePublication::remove` -/
def removePublication (t : Token) : Prog Unit := do
  if ← perform (.removeExact t) then do
    let _ ← perform (.removeDisposable t .removePublication)
    pure ()
  else pure ()

/-! ## The machine -/

/-- What a party can be asked to run. -/
inductive Routine where
  | run
  | register (control : Control)
  | disposeEffect (t : Token)
  | disarm (t : Token)
  | removeListener (t : Token)
  | removePublication (t : Token)
  | settle
  | dispose
  | markReplacing
  -- only started by others
  | task (r : RunId)
  | work (t : Token) (cleanup : Cleanup) (drains : Bool)
  | teardown
  deriving DecidableEq

inductive Answer where
  | done
  | dropped
  deriving DecidableEq

def code : Routine → Prog Unit
  | .run => run none
  | .register control => registerCleanup control none
  | .disposeEffect t => disposeEffect t
  | .disarm t => disarm t
  | .removeListener t => removeListener t
  | .removePublication t => removePublication t
  | .settle => settle
  | .dispose => dispose
  | .markReplacing => perform .markReplacing
  | .task r => runTask r
  | .work t cleanup drains => work t cleanup drains
  | .teardown => teardown

def forks : Op → Option Routine
  | .spawn r => some (.task r)
  | .detach t cleanup drains => some (.work t cleanup drains)
  | _ => none

/-- Where somebody waits who can be dropped. -/
def awaits : Op → Bool
  | .claimSlot | .apply | .waitCompleted _ | .outcome _ => true
  | _ => false

/-- Whoever holds the slot is followed by the teardown of a cancelled creation; only the wait of
the others is given up. -/
def dropped (p : Party) (s : Fiber) : Option (Fiber × Option Routine) :=
  some (s, if s.slot = some p then some .teardown else none)

def enter : Routine → Fiber → Option Fiber
  | .disposeEffect t, s => s.consume t .dispose
  | .disarm t, s => s.consume t .disarm
  | .removeListener t, s => s.consume t .removeListener
  | .removePublication t, s => s.consume t .removePublication
  | .run, s | .register _, s | .settle, s | .dispose, s | .markReplacing, s => some s
  | .task _, _ | .work _ _ _, _ | .teardown, _ => none

def protocol : Machine Fiber Op Op.Ret Routine Choice Answer where
  init := {}
  exec := exec
  forks := forks
  awaits := awaits
  dropped := dropped
  gone := .dropped
  body routine := do
    code routine
    pure .done
  enter _ := enter

abbrev State := Config Fiber Op Op.Ret Answer

end Tasks
end CordisCore
