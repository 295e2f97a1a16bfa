import Mathlib.Algebra.Group.Nat.Defs
import CordisCore.Interleaving.Notify
import CordisCore.Runtime.Types

/-!
# State publications — truth in revisions, wakeups as hints

A state is published under a lock, together with its revision; the broadcast comes
later and from anybody.  A waiter reads a baseline, parks on the broadcast and on
its deadline, and decides from snapshots only.

The windows are instrumentation: operations write them and no operation reads them
back.
-/

namespace CordisCore
namespace Publication

open Interleaving
open Interleaving.Program (iterate)
open CordisCore.Runtime (FiberState)

/-! ## State -/

/-- What has happened since a waiter read its baseline, the latest first. -/
structure Window where
  /-- The revisions at the baseline. -/
  base : FiberState → Nat
  /-- The states that were current, the one at the baseline included. -/
  seen : List FiberState
  published : List FiberState := []
  /-- The publications that a broadcast has followed. -/
  announced : List FiberState := []
  /-- What was published when the deadline fired, once it has. -/
  fired : Option (List FiberState) := none

/-- `StatePublication`, with the deadlines of its waiters. -/
structure StatePublication where
  current : FiberState := .pending
  revisions : FiberState → Nat := fun state => if state = .pending then 1 else 0
  sequence : Nat := 0
  changed : Notify := {}
  /-- The deadline that a waiter armed: `true` once it has fired. -/
  deadline : Party → Option Bool := fun _ => none
  window : Party → Option Window := fun _ => none
  /-- The window of each waiter as it was at its latest snapshot. -/
  latest : Party → Option Window := fun _ => none

/-- The counters are `u64`. -/
def counterLimit : Nat :=
  2 ^ 64

inductive Published where
  | unchanged
  | committed (old : FiberState)
  /-- A counter overflowed; what was written stays. -/
  | panicked
  deriving DecidableEq

namespace Window

/-- The window of a baseline that is read now. -/
def opened (revisions : FiberState → Nat) (current : FiberState) : Window :=
  { base := revisions, seen := [current] }

/-- A state became current. -/
def becomes (w : Window) (next : FiberState) : Window :=
  { w with seen := next :: w.seen }

def publishes (w : Window) (next : FiberState) : Window :=
  { w with published := next :: w.published }

def announces (w : Window) : Window :=
  { w with announced := w.published }

def fires (w : Window) : Window :=
  { w with fired := some (w.fired.getD w.published) }

end Window

namespace StatePublication

variable (s : StatePublication)

/-- Change every open window. -/
def track (change : Window → Window) : StatePublication :=
  { s with window := fun p => (s.window p).map change }

def setWindow (p : Party) (w : Option Window) : StatePublication :=
  { s with window := fun q => if q = p then w else s.window q }

/-- The party looks at the state: its window is remembered. -/
def look (p : Party) : StatePublication :=
  { s with latest := fun q => if q = p then s.window p else s.latest q }

def become (next : FiberState) : StatePublication :=
  { s with current := next }.track fun w => w.becomes next

def commitRevision (next : FiberState) : StatePublication :=
  { s with revisions := fun state =>
      if state = next then s.revisions state + 1 else s.revisions state }.track
    fun w => w.publishes next

/-- `publish`, under the lock. -/
def publish (next : FiberState) : StatePublication × Published :=
  if s.current = next then (s, .unchanged)
  else if s.revisions next + 1 = counterLimit then (s.become next, .panicked)
  else if s.sequence + 1 = counterLimit then ((s.become next).commitRevision next, .panicked)
  else
    ({ (s.become next).commitRevision next with sequence := s.sequence + 1 },
      .committed s.current)

/-- `notify`. -/
def notify : StatePublication :=
  { s with changed := s.changed.notifyWaiters }.track Window.announces

/-- The deadline of a waiter is reached. -/
def fire (p : Party) : StatePublication :=
  { s with
    deadline := fun q => if q = p then some true else s.deadline q
    window := fun q => if q = p then (s.window q).map Window.fires else s.window q }

end StatePublication

/-! ## Operations -/

/-- The branch that `select!` takes. -/
inductive Branch where
  | deadline
  | notified
  deriving DecidableEq

inductive Op where
  | current
  | publish (next : FiberState)
  | notify
  | fire (waiter : Party)
  /-- The snapshot that a wait starts from. -/
  | baseline (target : FiberState)
  | snapshot (target : FiberState)
  | watchdog
  | notified
  | select (target : FiberState)
  | discard
  | panic
  deriving DecidableEq

abbrev Op.Ret : Op → Type
  | current => FiberState
  | publish _ => Published
  | baseline _ | snapshot _ => FiberState × Nat
  | watchdog => Bool
  | select _ => Branch
  | panic => Empty
  | _ => Unit

/-- Which branch of several ready ones is taken, and whether the scheduler could be armed. -/
abbrev Choice := Bool

open StatePublication in
def exec (self _fresh : Party) (choice : Choice) :
    (op : Op) → StatePublication → Option (StatePublication × op.Ret)
  | .current, s => some (s, s.current)
  | .publish next, s => some (s.publish next)
  | .notify, s => some (s.notify, ())
  | .fire waiter, s => if s.deadline waiter = some false then some (s.fire waiter, ()) else none
  | .baseline target, s =>
      some (s.setWindow self (some (.opened s.revisions s.current)),
        (s.current, s.revisions target))
  | .snapshot target, s => some (s.look self, (s.current, s.revisions target))
  | .watchdog, s =>
      if choice then
        some ({ s with deadline := fun q => if q = self then some false else s.deadline q }, true)
      else some (s, false)
  | .notified, s => some ({ s with changed := s.changed.notified self }, ())
  | .select _, s =>
      match s.deadline self == some true, s.changed.woken self with
      -- both branches are ready: the runtime picks one
      | true, true => some (s, if choice then .deadline else .notified)
      | true, false => some (s, .deadline)
      | false, true => some (s, .notified)
      | false, false => none
  | .discard, s => some ({ s with changed := s.changed.discard self }, ())
  | .panic, _ => none

/-! ## Programs -/

abbrev Prog := Program Op Op.Ret

abbrev perform (op : Op) : Prog op.Ret :=
  Program.perform op

inductive WaitStateError where
  | deadlineUnavailable
  | elapsed
  deriving DecidableEq

def waitForAfter (target : FiberState) (baseline : Nat) : Prog (Except WaitStateError Unit) := do
  let (current, revision) ← perform (.snapshot target)
  -- already there, or there since the baseline
  if current = target ∨ revision ≠ baseline then pure (.ok ())
  -- the wait is bounded by the deadline scheduler
  else if ← perform .watchdog then
    iterate () fun _ => do
      -- the waiter is created before it looks again, so it misses no broadcast
      perform .notified
      let (current, revision) ← perform (.snapshot target)
      if current = target ∨ revision ≠ baseline then do
        perform .discard
        pure (.inr (.ok ()))
      else
        match ← perform (.select target) with
        | .deadline => do
            -- publication wins the tie
            let (current, revision) ← perform (.snapshot target)
            perform .discard
            if current = target ∨ revision ≠ baseline then pure (.inr (.ok ()))
            else pure (.inr (.error .elapsed))
        | .notified => pure (.inl ())
  else pure (.error .deadlineUnavailable)

def waitFor (target : FiberState) : Prog (Except WaitStateError Unit) := do
  let (_, baseline) ← perform (.baseline target)
  waitForAfter target baseline

/-- A lifecycle transition: the broadcast follows its publication, with other work in between. -/
def transition (next : FiberState) : Prog Unit := do
  let old ← perform .current
  if old = next then pure ()
  else
    match ← perform (.publish next) with
    -- a counter of the publication is exhausted
    | .panicked => do
        let impossible ← perform .panic
        nomatch impossible
    | _ => perform .notify

inductive Routine where
  | transition (next : FiberState)
  | publish (next : FiberState)
  | notify
  | fire (waiter : Party)
  | waitFor (target : FiberState)
  deriving DecidableEq

inductive Answer where
  | done
  | waited (target : FiberState) (result : Except WaitStateError Unit)
  | dropped

def body : Routine → Prog Answer
  | .transition next => do
      transition next
      pure .done
  | .publish next => do
      let _ ← perform (.publish next)
      pure .done
  | .notify => do
      perform .notify
      pure .done
  | .fire waiter => do
      perform (.fire waiter)
      pure .done
  | .waitFor target => do
      let result ← waitFor target
      pure (.waited target result)

/-- Publishers, broadcasters, deadlines and waiters, each at its own pace. -/
def waiting : Machine StatePublication Op Op.Ret Routine Choice Answer where
  init := {}
  exec := exec
  forks _ := none
  awaits op := match op with
    | .select _ => true
    | _ => false
  dropped p s := some ({ s with changed := s.changed.discard p }, none)
  gone := .dropped
  body := body
  enter _ _ s := some s

end Publication
end CordisCore
