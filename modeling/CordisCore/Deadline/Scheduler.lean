import CordisCore.Interleaving.Machine
import Mathlib.Tactic.NormNum

/-!
# The deadline scheduler — one ordered map, one lock and one worker

Armed deadlines are the entries of a map that is ordered by instant; the worker
fires what is due outside the lock and parks until the earliest entry.  What the
world decides is left open: how the clock moves, whether a deadline is
representable, whether a thread starts, whether a `Waker` panics, when the serving
loop fails and when a parked worker comes back.

The trace is instrumentation: operations write it and no operation reads it back.
-/

namespace CordisCore
namespace Deadline

open Interleaving
open Interleaving.Program (iterate)

/-! ## State -/

abbrev Instant := Nat

/-- Exact identity of one armed deadline: earliest first, arming order breaks ties. -/
structure DeadlineKey where
  deadline : Instant
  id : Nat
  deriving DecidableEq

/-- The order of the map. -/
def DeadlineKey.order : DeadlineKey → DeadlineKey → Ordering :=
  compareLex (compareOn deadline) (compareOn id)

instance : Std.TransCmp DeadlineKey.order :=
  inferInstanceAs (Std.TransCmp (compareLex (compareOn DeadlineKey.deadline) (compareOn DeadlineKey.id)))

instance : Std.LawfulEqCmp DeadlineKey.order where
  eq_of_compare {a b} h := by
    simp only [DeadlineKey.order, compareLex, Ordering.then_eq_eq, compareOn] at h
    have hdeadline := Std.LawfulEqCmp.eq_of_compare h.1
    have hid := Std.LawfulEqCmp.eq_of_compare h.2
    cases a
    cases b
    simp_all

theorem DeadlineKey.deadline_le {a b : DeadlineKey} (h : (order a b).isLE = true) :
    a.deadline ≤ b.deadline := by
  simp only [order, compareLex, compareOn] at h
  by_contra hlt
  have hgt : compare a.deadline b.deadline = .gt := Nat.compare_eq_gt.mpr (Nat.lt_of_not_le hlt)
  rw [hgt] at h
  cases h

/-- The sending half of the channel that a party made. -/
abbrev Sender := Party

structure Schedule where
  armed : Std.TreeMap DeadlineKey Sender DeadlineKey.order := ∅
  nextId : Nat := 0
  workerRunning : Bool := false

/-- `first_key_value`. -/
def Schedule.first (schedule : Schedule) : Option DeadlineKey :=
  schedule.armed.keys.head?

theorem Schedule.first_eq_some {schedule : Schedule} {key : DeadlineKey}
    (h : schedule.first = some key) :
    key ∈ schedule.armed ∧ ∀ other ∈ schedule.armed, (DeadlineKey.order key other).isLE = true :=
  Std.TreeMap.minKey?_eq_some_iff_mem_and_forall.mp (Std.TreeMap.minKey?_eq_head?_keys.trans h)

theorem Schedule.first_eq_none {schedule : Schedule} (h : schedule.first = none)
    (key : DeadlineKey) : key ∉ schedule.armed := by
  have hempty : schedule.armed.isEmpty = true :=
    Std.TreeMap.minKey?_eq_none_iff.mp (Std.TreeMap.minKey?_eq_head?_keys.trans h)
  exact Std.TreeMap.not_mem_of_isEmpty hempty

/-- What became of one sender. -/
structure History where
  /-- The key of its entry, once there was one. -/
  key : Option DeadlineKey := none
  /-- The instants at which it was fired. -/
  fired : List Instant := []
  /-- Its entry was removed by its own `Watchdog`. -/
  disarmed : Bool := false
  /-- It was dropped unfired. -/
  dropped : Bool := false
  /-- Its owner was refused the worker thread. -/
  refused : Bool := false

structure Trace where
  /-- The thread that runs the worker body and has not handed it over. -/
  worker : Option Party := none
  /-- The senders that the worker took out of the map and has not fired. -/
  due : List Sender := []
  /-- Those who inserted an earliest entry and have not notified. -/
  unnotified : List Party := []
  /-- A lost worker could not be replaced, and none was started since. -/
  unreplaced : Bool := false
  history : Sender → History := fun _ => {}

/-- `DeadlineScheduler`, with its clock and the receivers that were closed. -/
structure DeadlineScheduler where
  schedule : Schedule := {}
  /-- Who holds the mutex. -/
  lock : Option Party := none
  /-- The condition variable: who is parked, the first one first, and until when. -/
  changed : List (Party × Option Instant) := []
  now : Instant := 0
  closed : Sender → Bool := fun _ => false
  trace : Trace := {}

namespace DeadlineScheduler

variable (s : DeadlineScheduler)

def track (change : Trace → Trace) : DeadlineScheduler :=
  { s with trace := change s.trace }

def record (sender : Sender) (change : History → History) : DeadlineScheduler :=
  s.track fun trace =>
    { trace with
      history := fun q => if q = sender then change (trace.history q) else trace.history q }

def setSchedule (change : Schedule → Schedule) : DeadlineScheduler :=
  { s with schedule := change s.schedule }

/-- The mutex is released; a worker that cleared its flag is gone then. -/
def unlock : DeadlineScheduler :=
  { s with lock := none }.track fun trace =>
    { trace with worker := if s.schedule.workerRunning then trace.worker else none }

/-- A thread starts the worker body. -/
def startWorker (fresh : Party) : DeadlineScheduler :=
  s.track fun trace => { trace with worker := some fresh, unreplaced := false }

/-- The OS refused a thread. -/
def refuse (p : Party) : DeadlineScheduler :=
  if s.trace.worker = some p then s.track fun trace => { trace with unreplaced := true }
  else s.record p fun h => { h with refused := true }

/-- The key comes before every armed one. -/
def earliest (key : DeadlineKey) : Bool :=
  s.schedule.first.all fun first => DeadlineKey.order key first == .lt

def insertEntry (p : Party) (key : DeadlineKey) (sender : Sender) : DeadlineScheduler :=
  ((s.setSchedule fun schedule =>
      { schedule with armed := schedule.armed.insert key sender }).record sender
    fun h => { h with key := some key }).track fun trace =>
      { trace with
        unnotified := if s.earliest key then p :: trace.unnotified else trace.unnotified }

def removeEntry (key : DeadlineKey) : DeadlineScheduler :=
  s.setSchedule fun schedule => { schedule with armed := schedule.armed.erase key }

/-- `disarm` takes an entry out of the map. -/
def disarmEntry (key : DeadlineKey) : DeadlineScheduler × Option Sender :=
  match s.schedule.armed[key]? with
  | some sender =>
      ((s.removeEntry key).record sender fun h => { h with disarmed := true }, some sender)
  | none => (s.removeEntry key, none)

/-- The worker takes an entry out of the map. -/
def popEntry (key : DeadlineKey) : DeadlineScheduler × Option Sender :=
  match s.schedule.armed[key]? with
  | some sender =>
      ((s.removeEntry key).track fun trace => { trace with due := trace.due ++ [sender] },
        some sender)
  | none => (s.removeEntry key, none)

/-- `sender.send(())` consumes the sender. -/
def send (sender : Sender) : DeadlineScheduler :=
  (s.record sender fun h => { h with fired := s.now :: h.fired }).track fun trace =>
    { trace with due := trace.due.erase sender }

def dropSender (sender : Sender) : DeadlineScheduler :=
  s.record sender fun h => { h with dropped := true }

def close (sender : Sender) : DeadlineScheduler :=
  { s with closed := fun q => if q = sender then true else s.closed q }

/-- The guard is released and its holder parked, in one step. -/
def park (p : Party) (wake : Option Instant) : DeadlineScheduler :=
  { s with lock := none, changed := s.changed ++ [(p, wake)] }

/-- A parked thread is back with the guard: notified, timed out or for no reason. -/
def resume (p : Party) : DeadlineScheduler :=
  { s with lock := some p, changed := s.changed.filter fun parked => parked.1 ≠ p }

def notifyOne (p : Party) : DeadlineScheduler :=
  { s with changed := s.changed.tail }.track fun trace =>
    { trace with unnotified := trace.unnotified.filter fun q => q ≠ p }

end DeadlineScheduler

/-! ## Operations -/

/-- What a party can be asked to run. -/
inductive Routine where
  /-- Arm a deadline, keep its `Watchdog` for a while, then drop it. -/
  | watch (timeout : Nat)
  | worker
  /-- The clock moves on. -/
  | elapse
  deriving DecidableEq

/-- What the outside world answers. -/
structure Choice where
  answer : Bool := false
  elapsed : Nat := 0

/-- The identities are `u64`. -/
def identityLimit : Nat :=
  2 ^ 64

inductive Op where
  | lock
  | unlock
  | now
  | elapse
  | channel
  | checkedAdd (now : Instant) (timeout : Nat)
  -- the schedule
  | workerRunning
  | setWorkerRunning (running : Bool)
  | nextId
  | setNextId (id : Nat)
  | firstKeyValue
  | insertEntry (key : DeadlineKey) (sender : Sender)
  | disarmEntry (key : DeadlineKey)
  | popEntry (key : DeadlineKey)
  -- threads
  | refuseSpawn
  | startWorker
  -- the condition variable
  | notifyOne
  | park (wake : Option Instant)
  | resume
  -- channels
  | send (sender : Sender)
  | dropSender (sender : Sender)
  | close (sender : Sender)
  -- the owner of a `Watchdog` goes on
  | hold
  -- faults of the serving loop
  | exitWorker
  | panicServing
  /-- "deadline identity space exhausted" -/
  | panic
  deriving DecidableEq

abbrev Op.Ret : Op → Type
  | now => Instant
  | channel => Sender
  | checkedAdd _ _ => Option Instant
  | workerRunning => Bool
  | nextId => Nat
  | firstKeyValue => Option DeadlineKey
  | disarmEntry _ | popEntry _ => Option Sender
  | refuseSpawn | exitWorker | panicServing => Bool
  | send _ => Bool
  | panic => Empty
  | _ => Unit

open DeadlineScheduler in
def exec (self fresh : Party) (choice : Choice) :
    (op : Op) → DeadlineScheduler → Option (DeadlineScheduler × op.Ret)
  | .lock, s => if s.lock = none then some ({ s with lock := some self }, ()) else none
  | .unlock, s => some (s.unlock, ())
  | .now, s => some (s, s.now)
  | .elapse, s => some ({ s with now := s.now + choice.elapsed }, ())
  | .channel, s => some (s, self)
  | .checkedAdd now timeout, s => some (s, if choice.answer then some (now + timeout) else none)
  | .workerRunning, s => some (s, s.schedule.workerRunning)
  | .setWorkerRunning running, s =>
      some (s.setSchedule fun schedule => { schedule with workerRunning := running }, ())
  | .nextId, s => some (s, s.schedule.nextId)
  | .setNextId id, s => some (s.setSchedule fun schedule => { schedule with nextId := id }, ())
  | .firstKeyValue, s => some (s, s.schedule.first)
  | .insertEntry key sender, s => some (s.insertEntry self key sender, ())
  | .disarmEntry key, s => some (s.disarmEntry key)
  | .popEntry key, s => some (s.popEntry key)
  | .refuseSpawn, s => some (if choice.answer then s.refuse self else s, choice.answer)
  | .startWorker, s => some (s.startWorker fresh, ())
  | .notifyOne, s => some (s.notifyOne self, ())
  | .park wake, s => some (s.park self wake, ())
  | .resume, s => if s.lock = none then some (s.resume self, ()) else none
  -- a `Waker` of the caller runs if the receiver is still there, and it may panic
  | .send sender, s => some (s.send sender, choice.answer && !s.closed sender)
  | .dropSender sender, s => some (s.dropSender sender, ())
  | .close sender, s => some (s.close sender, ())
  | .hold, s => some (s, ())
  | .exitWorker, s | .panicServing, s => some (s, choice.answer)
  | .panic, _ => none

/-! ## Programs -/

abbrev Prog := Program Op Op.Ret

abbrev perform (op : Op) : Prog op.Ret :=
  Program.perform op

/-- The process refused to start the deadline scheduler thread. -/
structure DeadlineUnavailable where

/-- How a `Watchdog` is registered. -/
inductive Slot where
  | armed (key : DeadlineKey)
  | never
  | fired

def spawnWorker : Prog (Except DeadlineUnavailable Unit) := do
  if ← perform .refuseSpawn then pure (.error {})
  else do
    perform .startWorker
    pure (.ok ())

/-- Start the worker first if none is running. -/
def ensureWorker : Prog (Except DeadlineUnavailable Unit) := do
  if ← perform .workerRunning then pure (.ok ())
  else
    match ← spawnWorker with
    | .ok _ => do
        perform (.setWorkerRunning true)
        pure (.ok ())
    | .error e => pure (.error e)

/-- Schedule one sender. -/
def insert (deadline : Instant) (sender : Sender) :
    Prog (Except DeadlineUnavailable DeadlineKey) := do
  perform .lock
  match ← ensureWorker with
  | .error e => do
      perform .unlock
      perform (.dropSender sender)
      pure (.error e)
  | .ok _ => do
      let id ← perform .nextId
      if id + 1 = identityLimit then do
        -- the guard and the sender are dropped while the panic unwinds
        perform .unlock
        perform (.dropSender sender)
        nomatch ← perform .panic
      else do
        perform (.setNextId (id + 1))
        let key : DeadlineKey := { deadline := deadline, id := id }
        let first ← perform .firstKeyValue
        let earliest := first.all fun first => DeadlineKey.order key first == .lt
        perform (.insertEntry key sender)
        perform .unlock
        if earliest then perform .notifyOne else pure ()
        pure (.ok key)

/-- Arm `timeout` from now. -/
def arm (timeout : Nat) (sender : Sender) : Prog (Except DeadlineUnavailable Slot) := do
  let now ← perform .now
  match ← perform (.checkedAdd now timeout) with
  | none => pure (.ok .never)
  | some deadline =>
      if deadline ≤ now then do
        let _ ← perform (.send sender)
        pure (.ok .fired)
      else
        match ← insert deadline sender with
        | .ok key => pure (.ok (.armed key))
        | .error e => pure (.error e)

/-- Remove a cancelled deadline exactly; its sender is dropped outside the lock. -/
def disarm (key : DeadlineKey) : Prog Unit := do
  perform .lock
  let removed ← perform (.disarmEntry key)
  perform .unlock
  match removed with
  | some sender => perform (.dropSender sender)
  | none => pure ()

/-- `Watchdog::drop`: the receiver is closed first. -/
def dropWatchdog (sender : Sender) (slot : Slot) : Prog Unit := do
  perform (.close sender)
  match slot with
  | .armed key => disarm key
  | .never => perform (.dropSender sender)
  | .fired => pure ()

/-- Fire the due senders one by one. -/
def deliver : List Sender → Prog Unit
  | [] => pure ()
  | sender :: due => do
      -- a panicking `Waker` is contained and loses only its own wake
      let _ ← perform (.send sender)
      deliver due

/-- The senders that a vector still holds when it is dropped. -/
def dropSenders : List Sender → Prog Unit
  | [] => pure ()
  | sender :: due => do
      perform (.dropSender sender)
      dropSenders due

/-- Take what is due out of the map. -/
def takeDue (now : Instant) (due : List Sender) : Prog (List Sender) :=
  iterate due fun due => do
    match ← perform .firstKeyValue with
    | some key =>
        if key.deadline > now then pure (.inr due)
        else do
          let sender ← perform (.popEntry key)
          pure (.inl (due ++ sender.toList))
    | none => pure (.inr due)

inductive ServeExit where
  | returned
  | panicked

/-- Fire due deadlines until the serving loop fails. -/
def serve : Prog ServeExit := do
  perform .lock
  iterate [] fun due => do
    if ← perform .exitWorker then do
      perform .unlock
      dropSenders due
      pure (.inr .returned)
    else if ← perform .panicServing then do
      perform .unlock
      dropSenders due
      pure (.inr .panicked)
    else do
      let now ← perform .now
      let due ← takeDue now due
      if due ≠ [] then do
        perform .unlock
        deliver due
        perform .lock
        pure (.inl [])
      else do
        match ← perform .firstKeyValue with
        | some key => perform (.park (some key.deadline))
        | none => perform (.park none)
        perform .resume
        pure (.inl due)

/-- Hand every still-armed entry to a replacement. -/
def retire : Prog Unit := do
  perform .lock
  perform (.setWorkerRunning false)
  match ← perform .firstKeyValue with
  | none => pure ()
  | some _ =>
      match ← spawnWorker with
      | .ok _ => perform (.setWorkerRunning true)
      | .error _ => pure ()
  perform .unlock

/-- The worker thread body: a panic of the serving loop is contained and serving resumes. -/
def workerMain : Prog Unit := do
  iterate () fun _ => do
    match ← serve with
    | .returned => pure (.inr ())
    | .panicked => pure (.inl ())
  retire

inductive Answer where
  | done
  | unavailable
  deriving DecidableEq

/-- What the owner of a `Watchdog` does. -/
def watch (timeout : Nat) : Prog Answer := do
  let sender ← perform .channel
  match ← arm timeout sender with
  | .error _ => pure .unavailable
  | .ok slot => do
      perform .hold
      dropWatchdog sender slot
      pure .done

def code : Routine → Prog Answer
  | .watch timeout => watch timeout
  | .worker => do
      workerMain
      pure .done
  | .elapse => do
      perform .elapse
      pure .done

/-- Threads are started by the scheduler only. -/
def Routine.outside : Routine → Bool
  | worker => false
  | _ => true

def protocol : Machine DeadlineScheduler Op Op.Ret Routine Choice Answer where
  init := {}
  exec := exec
  forks op := match op with
    | .startWorker => some .worker
    | _ => none
  awaits _ := false
  dropped _ _ := none
  gone := .done
  body := code
  enter _ routine s := if routine.outside then some s else none

abbrev State := Config DeadlineScheduler Op Op.Ret Answer

end Deadline
end CordisCore
