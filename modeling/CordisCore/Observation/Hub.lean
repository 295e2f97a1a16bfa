import Mathlib.Algebra.Group.Nat.Defs
import CordisCore.Fanout.Occurrences
import CordisCore.Fanout.Tickets
import CordisCore.Interleaving.Automaton

/-!
# The observation hub — committed records on their way to runtime observers

A publication clones the observers that are registered and spawns one detached task for
each.  What an observer does with a record is user code: it returns, fails or unwinds.
-/

namespace CordisCore
namespace Observation

open Interleaving Fanout

-- what an observer is told; the hub does not look into it
variable {ρ : Type}

/-! ## Registrations and tasks -/

/-- The callback of an observer, with the Context that it is called in. -/
structure RegisteredObserver where
  callback : Nat
  registration : Nat
  deriving DecidableEq

/-- One delivery: an observer and a record. -/
structure Delivery (ρ : Type) where
  /-- Instrumentation: which publication this is. -/
  publication : Nat
  observer : Occurrence RegisteredObserver
  record : ρ
  deriving DecidableEq

/-- How the callback of a delivery ends. -/
inductive Outcome where
  | delivered
  | failed (error : String)
  | panicked (payload : String)
  deriving DecidableEq

/-- The line that goes to stderr. -/
def Outcome.report : Outcome → Option String
  | delivered => none
  | failed error => some ("cordis: runtime observer failed: " ++ error)
  | panicked payload => some ("cordis: runtime observer panicked: " ++ payload)

inductive Event (ρ : Type) where
  | inserted (observer : Occurrence RegisteredObserver)
  | removed (id : Nat) (found : Bool)
  /-- The observers that were cloned, and whether tasks can be spawned for them. -/
  | published (publication : Nat) (record : ρ) (observers : List (Occurrence RegisteredObserver))
      (current : Bool)
  | ended (delivery : Delivery ρ) (outcome : Outcome)
  /-- The executor dropped the task. -/
  | abandoned (delivery : Delivery ρ)

structure ObservationHub (ρ : Type) where
  /-- `next_id` and `observers`. -/
  observers : Registry RegisteredObserver := {}
  /-- Registrations between their identity and the gate. -/
  pending : List (Occurrence RegisteredObserver) := []
  /-- The obligations of generations. -/
  cleanups : List Nat := []
  /-- Deliveries that a publication has still to spawn. -/
  spawning : List (Delivery ρ) := []
  tasks : List (Delivery ρ) := []
  publications : Nat := 0
  stderr : List String := []
  /-- A branch was taken that the code declares unreachable. -/
  unreachable : Bool := false
  /-- What happened, the latest first. -/
  trace : List (Event ρ) := []

namespace ObservationHub

def emit (s : ObservationHub ρ) (event : Event ρ) : ObservationHub ρ :=
  { s with trace := event :: s.trace }

/-- `register` up to the gate: a fresh identity, unless the space is exhausted. -/
def register (s : ObservationHub ρ) (observer : RegisteredObserver) : ObservationHub ρ :=
  if s.observers.sequence + 1 < 2 ^ 64 then
    { s with
      observers := { s.observers with sequence := s.observers.sequence + 1 }
      pending := ⟨s.observers.sequence + 1, observer⟩ :: s.pending }
  -- the panic is the caller's
  else s

/-- `ObserverPublish::publish` behind the gate. -/
def insert (s : ObservationHub ρ) (observer : Occurrence RegisteredObserver) : ObservationHub ρ :=
  let rest := { s with pending := s.pending.erase observer }
  if observer.key ∈ keys s.observers.occurrences then { rest with unreachable := true }
  else
    { rest with
      observers := s.observers.insert observer
      cleanups := observer.key :: s.cleanups }.emit (.inserted observer)

def remove (s : ObservationHub ρ) (id : Nat) : ObservationHub ρ :=
  { s with observers := (s.observers.remove id).1 }.emit (.removed id (s.observers.remove id).2)

/-- `publish` up to its loop; `current` is whether a runtime is entered. -/
def publish (s : ObservationHub ρ) (record : ρ) (observers : List (Occurrence RegisteredObserver))
    (current : Bool) : ObservationHub ρ :=
  let here := { s with publications := s.publications + 1 }.emit
    (.published s.publications record observers current)
  -- nobody to tell
  if observers.isEmpty then here
  else if current then
    { here with
      spawning := observers.map (Delivery.mk s.publications · record) ++ s.spawning }
  else here

/-- The task of a delivery ends. -/
def finish (s : ObservationHub ρ) [DecidableEq ρ] (delivery : Delivery ρ) (outcome : Outcome) :
    ObservationHub ρ :=
  { s with
    tasks := s.tasks.erase delivery
    stderr := outcome.report.toList ++ s.stderr }.emit (.ended delivery outcome)

end ObservationHub

/-! ## All interleavings -/

inductive Action (ρ : Type) where
  | register (observer : RegisteredObserver)
  | insert (observer : Occurrence RegisteredObserver)
  /-- The gate refuses, or the caller is gone. -/
  | refuse (observer : Occurrence RegisteredObserver)
  | cleanup (id : Nat)
  | publish (record : ρ) (observers : List (Occurrence RegisteredObserver)) (current : Bool)
  | spawn (delivery : Delivery ρ)
  | finish (delivery : Delivery ρ) (outcome : Outcome)
  | abandon (delivery : Delivery ρ)

def observation [DecidableEq ρ] : Automaton (ObservationHub ρ) (Action ρ) where
  init := {}
  step s
    | .register observer => some (s.register observer)
    | .insert observer => if observer ∈ s.pending then some (s.insert observer) else none
    | .refuse observer =>
        if observer ∈ s.pending then some { s with pending := s.pending.erase observer } else none
    | .cleanup id =>
        if id ∈ s.cleanups then some ({ s with cleanups := s.cleanups.erase id }.remove id)
        else none
    | .publish record observers current =>
        -- the values of the map come in any order
        if observers.isPerm s.observers.occurrences then
          some (s.publish record observers current)
        else none
    | .spawn delivery =>
        if delivery ∈ s.spawning then
          some { s with
            spawning := s.spawning.erase delivery
            tasks := delivery :: s.tasks }
        else none
    | .finish delivery outcome =>
        if delivery ∈ s.tasks then some (s.finish delivery outcome) else none
    | .abandon delivery =>
        if delivery ∈ s.tasks then
          some ({ s with tasks := s.tasks.erase delivery }.emit (.abandoned delivery))
        else none

end Observation
end CordisCore
