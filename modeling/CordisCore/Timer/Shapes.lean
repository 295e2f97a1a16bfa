import CordisCore.Interleaving.Machine

/-!
# Timer shapes — one operation, its deadline and the cleanup it races with

A Timeout, a Sleep or an Interval is polled by its owner; its cleanup is one
occurrence of the generation's journal, which the drain may claim between any two
reads of a poll.  What the deadline, the work and the scheduler answer is left
open, and so is who polls, when and with which waker.

The trace is instrumentation: operations write it and no operation reads it back.
-/

namespace CordisCore
namespace Timer

open Interleaving
open Interleaving.Program (iterate)

/-! ## State -/

inductive Kind where
  | timeout
  | sleep
  | interval
  deriving DecidableEq

abbrev Waker := Nat

/-- What a poll returns. -/
inductive Outcome where
  | pending
  /-- `TimeoutOutcome::Completed` -/
  | completed
  /-- `TimeoutOutcome::Elapsed` -/
  | elapsed
  /-- `Ok(())` of a Sleep -/
  | slept
  /-- `Some(Ok(()))` of an Interval -/
  | tick
  /-- `TimerCancelled` -/
  | cancelled
  /-- `None` of an Interval -/
  | finished
  deriving DecidableEq

/-- The natural results of the one-shot shapes. -/
def Outcome.natural : Outcome → Bool
  | completed | elapsed | slept => true
  | _ => false

/-- Where the cleanup of an operation is. -/
inductive Occurrence where
  | absent
  | registered
  /-- The drain took it out of the journal. -/
  | claimed
  /-- Its own operation took it out of the journal. -/
  | disarmed
  deriving DecidableEq

structure Trace where
  /-- Who claimed the cleanup in order to run it. -/
  claimant : Option Party := none
  /-- Who stored the flag and has not woken the waker yet. -/
  waking : Option Party := none
  woken : List Waker := []
  /-- What the polls returned and with which waker, the latest first. -/
  results : List (Waker × Outcome) := []
  /-- The work answered with its value. -/
  workReady : Bool := false
  /-- What the deadline answered after that. -/
  repolled : Option Bool := none

/-- One operation with its `GenerationCancellation` and its `EffectEntry`. -/
structure Shape where
  kind : Kind := .timeout
  cleanup : Occurrence := .absent
  cancelled : Bool := false
  waker : Option Waker := none
  /-- The registration is still in the `EffectEntry`. -/
  entry : Bool := false
  /-- The operation still owns its work, its deadline or its scheduler. -/
  live : Bool := false
  terminated : Bool := false
  trace : Trace := {}

/-- The operations, each under the party that owns it. -/
structure Timers where
  shape : Party → Shape := fun _ => {}

def Timers.modify (s : Timers) (p : Party) (change : Shape → Shape) : Timers :=
  { shape := fun q => if q = p then change (s.shape q) else s.shape q }

namespace Shape

variable (t : Shape)

def track (change : Trace → Trace) : Shape :=
  { t with trace := change t.trace }

/-- `commit_cancellation` succeeded. -/
def construct (kind : Kind) : Shape :=
  { kind := kind, cleanup := .registered, entry := true, live := true }

/-- `remove_disposable` by the drain. -/
def claim (p : Party) : Shape × Bool :=
  if t.cleanup = .registered then
    ({ t with cleanup := .claimed }.track fun trace => { trace with claimant := some p }, true)
  else (t, false)

/-- `remove_disposable` by the operation; `alive` says whether the Fiber still exists. -/
def disarm (alive : Bool) : Shape × Bool :=
  if alive = true ∧ t.cleanup = .registered then ({ t with cleanup := .disarmed }, true)
  else (t, false)

/-- `cancelled.swap(true)`: whoever stores it first owes a wake. -/
def swapCancelled (p : Party) : Shape × Bool :=
  if t.cancelled then (t, true)
  else
    ({ t with cancelled := true }.track fun trace => { trace with waking := some p }, false)

/-- `AtomicWaker::wake` takes the waker out and wakes it. -/
def wake : Shape :=
  { t with waker := none }.track fun trace =>
    { trace with waking := none, woken := t.waker.toList ++ trace.woken }

def pollDeadline (ready : Bool) : Shape :=
  t.track fun trace =>
    { trace with repolled := if trace.workReady then some ready else trace.repolled }

def pollWork (ready : Bool) : Shape :=
  t.track fun trace => { trace with workReady := ready }

def returned (waker : Waker) (outcome : Outcome) : Shape :=
  t.track fun trace => { trace with results := (waker, outcome) :: trace.results }

end Shape

/-! ## Operations -/

/-- What a party can be asked to run. -/
inductive Routine where
  /-- Construct an operation, poll it for a while and drop it. -/
  | own (kind : Kind)
  /-- The generation of this operation is drained. -/
  | drain (timer : Party)
  deriving DecidableEq

/-- What the outside world answers. -/
structure Choice where
  answer : Bool := false
  poll : Option Waker := none

inductive PanicArm where
  | polledAfterCompletion
  /-- A live operation does not own its parts. -/
  | notLive
  deriving DecidableEq

inductive Op where
  /-- The owner polls with a waker, or drops the operation. -/
  | next
  | returned (waker : Waker) (outcome : Outcome)
  -- `GenerationCancellation`
  | loadCancelled
  | register (waker : Waker)
  | swapCancelled (timer : Party)
  | wake (timer : Party)
  -- `EffectEntry` and the journal
  | takeEntry
  | disarm
  | claim (timer : Party)
  -- the operation
  | terminated
  | terminate
  | live
  | takeParts
  | pollDeadline
  | pollWork
  | pollTick
  | panic (arm : PanicArm)
  deriving DecidableEq

abbrev Op.Ret : Op → Type
  | next => Option Waker
  | loadCancelled | swapCancelled _ | takeEntry | disarm | claim _ => Bool
  | terminated | live | pollDeadline | pollWork | pollTick => Bool
  | panic _ => Empty
  | _ => Unit

open Shape in
def exec (self _fresh : Party) (choice : Choice) :
    (op : Op) → Timers → Option (Timers × op.Ret)
  | .next, s => some (s, choice.poll)
  | .returned waker outcome, s => some (s.modify self fun t => t.returned waker outcome, ())
  | .loadCancelled, s => some (s, (s.shape self).cancelled)
  | .register waker, s => some (s.modify self fun t => { t with waker := some waker }, ())
  | .swapCancelled timer, s =>
      some (s.modify timer fun t => (t.swapCancelled self).1, ((s.shape timer).swapCancelled self).2)
  | .wake timer, s => some (s.modify timer wake, ())
  | .takeEntry, s => some (s.modify self fun t => { t with entry := false }, (s.shape self).entry)
  | .disarm, s =>
      some (s.modify self fun t => (t.disarm choice.answer).1,
        ((s.shape self).disarm choice.answer).2)
  | .claim timer, s =>
      some (s.modify timer fun t => (t.claim self).1, ((s.shape timer).claim self).2)
  | .terminated, s => some (s, (s.shape self).terminated)
  | .terminate, s => some (s.modify self fun t => { t with terminated := true }, ())
  | .live, s => some (s, (s.shape self).live)
  | .takeParts, s => some (s.modify self fun t => { t with live := false }, ())
  | .pollDeadline, s => some (s.modify self fun t => t.pollDeadline choice.answer, choice.answer)
  | .pollWork, s => some (s.modify self fun t => t.pollWork choice.answer, choice.answer)
  | .pollTick, s => some (s, choice.answer)
  | .panic _, _ => none

/-! ## Programs -/

abbrev Prog := Program Op Op.Ret

abbrev perform (op : Op) : Prog op.Ret :=
  Program.perform op

def panic {α : Type} (arm : PanicArm) : Prog α := do
  let impossible ← perform (.panic arm)
  nomatch impossible

/-- The flag is read again after the waker is registered. -/
def isCancelled (waker : Waker) : Prog Bool := do
  if ← perform .loadCancelled then pure true
  else do
    perform (.register waker)
    perform .loadCancelled

/-- `EffectEntry::disarm`. -/
def disarm : Prog Bool := do
  if ← perform .takeEntry then perform .disarm else pure false

def abandon : Prog Unit := do
  let _ ← disarm
  pure ()

/-- Cancellation is looked at before every step of a one-shot poll that may commit. -/
def unlessCancelled (waker : Waker) (commit : Prog Outcome) : Prog Outcome := do
  if ← isCancelled waker then do
    abandon
    pure .cancelled
  else commit

/-- A natural result is returned by whoever disarms the cleanup. -/
def commit (outcome : Outcome) : Prog Outcome := do
  if ← disarm then pure outcome else pure .cancelled

/-- `poll_timeout`. -/
def pollTimeout (waker : Waker) : Prog Outcome :=
  unlessCancelled waker do
    -- the deadline is looked at before the work
    if ← perform .pollDeadline then unlessCancelled waker (commit .elapsed)
    else if ← perform .pollWork then
      unlessCancelled waker do
        -- work readiness is provisional until the deadline is checked again
        if ← perform .pollDeadline then unlessCancelled waker (commit .elapsed)
        else unlessCancelled waker (commit .completed)
    else unlessCancelled waker (pure .pending)

def pollSleep (waker : Waker) : Prog Outcome :=
  unlessCancelled waker do
    if ← perform .pollDeadline then unlessCancelled waker (commit .slept)
    else unlessCancelled waker (pure .pending)

/-- The frame of `Timeout::poll` and `Sleep::poll`. -/
def oneShot (poll : Prog Outcome) : Prog Outcome := do
  -- polled again after its verdict
  if ← perform .terminated then panic .polledAfterCompletion
  else if ← perform .live then do
    let result ← poll
    if result = .pending then pure result
    else do
      -- a verdict ends the timer, its parts are dropped
      perform .terminate
      perform .takeParts
      pure result
  else panic .notLive

/-- The terminal item of an Interval, when it is cancelled. -/
def cancelInterval (waker : Waker) (item : Prog Outcome) : Prog Outcome := do
  if ← isCancelled waker then do
    perform .terminate
    abandon
    perform .takeParts
    pure .cancelled
  else item

/-- `Interval::poll_next`. -/
def pollNext (waker : Waker) : Prog Outcome := do
  -- an ended Interval answers every poll
  if ← perform .terminated then pure .finished
  else
    cancelInterval waker do
      if ← perform .live then
        if ← perform .pollTick then cancelInterval waker (pure .tick)
        else cancelInterval waker (pure .pending)
      else panic .notLive

def poll : Kind → Waker → Prog Outcome
  | .timeout, waker => oneShot (pollTimeout waker)
  | .sleep, waker => oneShot (pollSleep waker)
  | .interval, waker => pollNext waker

/-- Poll as often as the owner likes, then drop the operation. -/
def own (kind : Kind) : Prog Unit :=
  iterate () fun _ => do
    match ← perform .next with
    | some waker => do
        let outcome ← poll kind waker
        perform (.returned waker outcome)
        pure (.inl ())
    | none => do
        abandon
        pure (.inr ())

/-- `GenerationCancellation::cancel`. -/
def cancel (timer : Party) : Prog Unit := do
  if ← perform (.swapCancelled timer) then pure () else perform (.wake timer)

/-- The drain claims the occurrence before it runs the cleanup. -/
def drain (timer : Party) : Prog Unit := do
  if ← perform (.claim timer) then cancel timer else pure ()

inductive Answer where
  | done
  deriving DecidableEq

def code : Routine → Prog Unit
  | .own kind => own kind
  | .drain timer => drain timer

def protocol : Machine Timers Op Op.Ret Routine Choice Answer where
  init := {}
  exec := exec
  forks _ := none
  awaits _ := false
  dropped _ _ := none
  gone := .done
  body routine := do
    code routine
    pure .done
  enter p routine s := match routine with
    | .own kind => some (s.modify p fun _ => Shape.construct kind)
    | .drain _ => some s

abbrev State := Config Timers Op Op.Ret Answer

end Timer
end CordisCore
