import CordisCore.Interleaving.Automaton

/-!
# Committed work — inline stage, task wrappers and the completion runtime

One inner future is handed to `CallerDriven` or to `detach`.  The environment
answers each poll of it, polls and drops the caller's wrapper on threads of any
runtime flavour, and shuts executors down.
-/

namespace CordisCore
namespace Completion

open Interleaving

/-! ## Polls and outcomes -/

/-- A panic payload. -/
abbrev Payload := String

/-- `OwnerOutcome`: the inner future returned, or its poll unwound. -/
inductive OwnerOutcome where
  | returned
  | unwound (payload : Payload)
  deriving DecidableEq

/-- What one poll of the inner future does. -/
inductive Poll where
  | pending
  | ready
  | panicked (payload : Payload)
  deriving DecidableEq

/-- A multi-thread Tokio runtime. -/
abbrev Runtime := Nat

/-- The runtime that is current on a calling thread. -/
inductive Flavour where
  | multiThread (runtime : Runtime)
  | currentThread
  | none
  deriving DecidableEq

/-! ## Drivers -/

/-- A `PanicReport`: the operation it names. -/
abbrev PanicReport := String

/-- The future that `detach` receives; each of them owns the inner future. -/
inductive Parcel where
  /-- The inner future itself. -/
  | bare
  /-- The block of `hand_off`: catch the unwind and relay the outcome. -/
  | relayed (report : Option PanicReport)
  deriving DecidableEq

/-- `DetachedWork`. -/
structure DetachedWork where
  work : Option Parcel
  transferOnDrop : Bool
  deriving DecidableEq

/-- A spawned task that is neither finished nor dropped. -/
inductive Task where
  | onRuntime (runtime : Runtime) (future : DetachedWork)
  | onCompletion (parcel : Parcel)
  deriving DecidableEq

/-- `CallerDrivenStage`. -/
inductive Stage where
  | inline (report : Option PanicReport) (transferOnDrop : Bool)
  | handedOff
  | finished
  deriving DecidableEq

/-- The oneshot channel between a relayed parcel and the wrapper. -/
structure Relay where
  sent : Option OwnerOutcome := none
  receiver : Bool := false
  deriving DecidableEq

/-- Everything that holds the inner future or waits for it. -/
structure Driving where
  started : Bool := false
  /-- The caller's wrapper, until the caller drops it. -/
  wrapper : Option Stage := none
  /-- The caller awaits the wrapper: an answer or an unwind ends the awaiting frame. -/
  waiting : Bool := false
  relay : Relay := {}
  tasks : List Task := []
  shut : Runtime → Bool := fun _ => false
  -- what happened, the latest first
  polls : List Poll := []
  observed : List OwnerOutcome := []
  reported : List (PanicReport × Payload) := []

namespace Driving

/-! ## Spawning -/

def spawn (s : Driving) (task : Task) : Driving :=
  { s with tasks := task :: s.tasks }

def finish (s : Driving) (task : Task) : Driving :=
  { s with tasks := s.tasks.erase task }

/-- A dropped wrapper hands its work to the completion runtime, if it may. -/
def dropDetached (s : Driving) (future : DetachedWork) : Driving :=
  match future.work with
  | some parcel => if future.transferOnDrop then s.spawn (.onCompletion parcel) else s
  | none => s

/-- A runtime that is shut down drops what is spawned on it. -/
def spawnOn (s : Driving) (runtime : Runtime) (future : DetachedWork) : Driving :=
  if s.shut runtime then s.dropDetached future else s.spawn (.onRuntime runtime future)

/-- `detach`: stay on a multi-thread runtime, otherwise start on the completion runtime. -/
def detach (s : Driving) (flavour : Flavour) (parcel : Parcel) : Driving :=
  match flavour with
  | .multiThread runtime =>
      s.spawnOn runtime { work := some parcel, transferOnDrop := true }
  | .currentThread | .none => s.spawn (.onCompletion parcel)

/-- `hand_off`: a fresh relay, and the relaying block detached. -/
def handOff (s : Driving) (flavour : Flavour) (report : Option PanicReport) : Driving :=
  { s with relay := { receiver := true } }.detach flavour (.relayed report)

/-! ## Polling -/

/-- The inner future is polled. -/
def record (s : Driving) (poll : Poll) : Driving :=
  { s with polls := poll :: s.polls }

/-- The awaiting caller sees an outcome. -/
def observe (s : Driving) (outcome : OwnerOutcome) : Driving :=
  { s with waiting := false, observed := outcome :: s.observed }

/-- `relay.send`: a dropped receiver gives the outcome back. -/
def send (s : Driving) (report : Option PanicReport) (outcome : OwnerOutcome) : Driving :=
  if s.relay.receiver then { s with relay := { s.relay with sent := some outcome } }
  else
    match outcome, report with
    | .unwound payload, some report => { s with reported := (report, payload) :: s.reported }
    | _, _ => s

/-- The inner future of a parcel ended; a relaying block sends the outcome on. -/
def conclude (s : Driving) (parcel : Parcel) (outcome : OwnerOutcome) : Driving :=
  match parcel with
  | .bare => s
  | .relayed report => s.send report outcome

/-- The text of the panic for a relay that closed without an outcome. -/
def lost : Payload :=
  "handed-off committed lifecycle work ended without an outcome"

/-- Some task still holds the sender of the relay. -/
def senderAlive (s : Driving) : Bool :=
  s.tasks.any fun
    | .onRuntime _ { work := some (.relayed _), .. } => true
    | .onCompletion (.relayed _) => true
    | _ => false

/-- `CallerDriven::poll` in the inline stage. -/
def pollInline (s : Driving) (flavour : Flavour) (report : Option PanicReport) (poll : Poll) :
    Driving :=
  match poll with
  | .ready => ({ s with wrapper := some .finished }.record .ready).observe .returned
  -- the first suspension hands the work to the runtime
  | .pending => ({ s with wrapper := some .handedOff }.record .pending).handOff flavour report
  | .panicked payload =>
      ({ s with wrapper := some (.inline report false) }.record (.panicked payload)).observe
        (.unwound payload)

/-- `CallerDriven::poll` once handed off: the inner future is not touched. -/
def pollRelay (s : Driving) : Driving :=
  match s.relay.sent with
  | some outcome => { s with wrapper := some .finished }.observe outcome
  | none =>
      if s.senderAlive then s
      else { s with wrapper := some .finished }.observe (.unwound lost)

/-- `CallerDriven::drop`. -/
def dropWrapper (s : Driving) (flavour : Flavour) : Stage → Driving
  | .inline _ true => { s with wrapper := none, waiting := false }.detach flavour .bare
  | .inline _ false => { s with wrapper := none, waiting := false }
  | .handedOff =>
      { s with wrapper := none, waiting := false, relay := { s.relay with receiver := false } }
  | .finished => { s with wrapper := none, waiting := false }

/-- A task on a runtime is polled: `DetachedWork::poll` around the parcel. -/
def pollDetached (s : Driving) (runtime : Runtime) (future : DetachedWork) (parcel : Parcel)
    (poll : Poll) : Driving :=
  let rest := (s.finish (.onRuntime runtime future)).record poll
  match poll with
  -- the task goes on; dropped with its runtime it hands the work over
  | .pending => rest.spawn (.onRuntime runtime { work := some parcel, transferOnDrop := true })
  | .ready => rest.conclude parcel .returned
  -- the unwinding poll cleared the flag, so the dropped wrapper transfers nothing
  | .panicked payload => rest.conclude parcel (.unwound payload)

/-- A task on the completion runtime is polled. -/
def pollCompletion (s : Driving) (parcel : Parcel) (poll : Poll) : Driving :=
  match poll with
  | .pending => s.record .pending
  | .ready => ((s.finish (.onCompletion parcel)).record .ready).conclude parcel .returned
  | .panicked payload =>
      ((s.finish (.onCompletion parcel)).record (.panicked payload)).conclude parcel
        (.unwound payload)

end Driving

/-! ## All orders of events -/

inductive Action where
  | new (report : Option PanicReport)
  | detach (flavour : Flavour)
  | poll (flavour : Flavour) (poll : Poll)
  | drop (flavour : Flavour)
  | pollTask (task : Task) (poll : Poll)
  | shutdown (runtime : Runtime)
  | dropTask (runtime : Runtime) (future : DetachedWork)

def completion : Automaton Driving Action where
  init := {}
  step s
    | .new report =>
        if s.started then none
        else some { s with started := true, waiting := true, wrapper := some (.inline report true) }
    | .detach flavour =>
        if s.started then none else some ({ s with started := true }.detach flavour .bare)
    | .poll flavour poll =>
        if s.waiting then
          match s.wrapper with
          | some (.inline report _) => some (s.pollInline flavour report poll)
          | some .handedOff => some s.pollRelay
          | some .finished => some (s.observe .returned)
          | none => none
        else none
    | .drop flavour => s.wrapper.map (s.dropWrapper flavour)
    | .pollTask task poll =>
        if task ∈ s.tasks then
          match task with
          | .onRuntime runtime future =>
              if s.shut runtime then none
              else future.work.map fun parcel => s.pollDetached runtime future parcel poll
          | .onCompletion parcel => some (s.pollCompletion parcel poll)
        else none
    | .shutdown runtime =>
        some { s with shut := fun other => if other = runtime then true else s.shut other }
    | .dropTask runtime future =>
        if .onRuntime runtime future ∈ s.tasks ∧ s.shut runtime then
          some ((s.finish (.onRuntime runtime future)).dropDetached future)
        else none

end Completion
end CordisCore
