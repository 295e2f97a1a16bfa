import CordisCore.Interleaving.Notify
import CordisCore.Runtime.Types

/-!
# The slot protocol — one inertia word, two counters and two broadcasts

Claimants, holders, kicks and waiters of one Fiber, down to the creation of each
`Notified` and the gap between a store of IDLE and its broadcast.  What holders do
in between, and what the outside world answers, is left open.

The trace is instrumentation: operations write it and no operation reads it back.
-/

namespace CordisCore
namespace Slot

open Interleaving
open Interleaving.Program (iterate)
open CordisCore.Runtime (SemanticTarget)

/-! ## State -/

/-- No convergence holder owns the slot. -/
abbrev INERTIA_IDLE : Nat := 0

/-- A settle or converge pass holds the slot. -/
abbrev INERTIA_ACTIVE : Nat := 1

/-- The pass finished; the drift recheck is still pending. -/
abbrev INERTIA_RELEASING : Nat := 2

/-- The notifications of one Fiber. -/
inductive Cell where
  | done
  | disposeDone
  deriving DecidableEq

inductive SlotEvent where
  | acquired (p : Party)
  | released (p : Party)
  deriving DecidableEq

/-- One call of `exit_recheck`, as far as it got. -/
structure Call where
  settled : SemanticTarget
  /-- The revision that the caller brought, and the kicks that had reclaimed by then. -/
  base : Nat
  kicks : Nat
  iterations : Nat := 0
  /-- The revision compared in the latest iteration, and the kicks when it began. -/
  compared : Nat := 0
  reclaimed : Nat := 0
  /-- What the latest probe saw. -/
  live : Option SemanticTarget := none
  observed : Option Nat := none
  /-- `recheck_settled` when IDLE was published, and whether the broadcast followed. -/
  acknowledged : Option Nat := none
  announced : Bool := false

structure Trace where
  /-- Who won the slot last, until the slot is released. -/
  holder : Option Party := none
  /-- The claims and the releases, the latest first. -/
  log : List SlotEvent := []
  /-- The kicks that claimed a releasing slot for its holder. -/
  reclaims : Nat := 0
  /-- The parties between a store of IDLE and its broadcast. -/
  unannounced : List Party := []
  /-- The parties between the completion of a disposal and its broadcast. -/
  unpublished : List Party := []
  /-- The claimants that lost and have not waited yet. -/
  lost : Party → Bool := fun _ => false
  call : Party → Option Call := fun _ => none

/-- `InertiaSlot`, with the disposal barrier of its Fiber. -/
structure InertiaSlot where
  inertia : Nat := INERTIA_IDLE
  target : Option SemanticTarget := none
  recheckCommitted : Nat := 0
  recheckSettled : Nat := 0
  done : Notify := {}
  disposeComplete : Bool := false
  disposeDone : Notify := {}
  trace : Trace := {}

namespace InertiaSlot

variable (s : InertiaSlot)

def notify : Cell → Notify
  | .done => s.done
  | .disposeDone => s.disposeDone

def setNotify (n : Notify) : Cell → InertiaSlot
  | .done => { s with done := n }
  | .disposeDone => { s with disposeDone := n }

def track (change : Trace → Trace) : InertiaSlot :=
  { s with trace := change s.trace }

def trackCall (p : Party) (change : Call → Call) : InertiaSlot :=
  s.track fun trace =>
    { trace with call := fun q => if q = p then (trace.call q).map change else trace.call q }

/-- A party stores IDLE; it owes a broadcast. -/
def release (p : Party) : InertiaSlot :=
  { s with inertia := INERTIA_IDLE }.track fun trace =>
    { trace with
      holder := none
      log := .released p :: trace.log
      unannounced := p :: trace.unannounced }

/-- A party wins the idle slot. -/
def acquire (p : Party) : InertiaSlot :=
  { s with inertia := INERTIA_ACTIVE }.track fun trace =>
    { trace with holder := some p, log := .acquired p :: trace.log }

/-- A kick claims the releasing slot for its holder. -/
def reclaim : InertiaSlot :=
  { s with inertia := INERTIA_ACTIVE }.track fun trace =>
    { trace with reclaims := trace.reclaims + 1 }

/-- The final exchange of an exit recheck succeeds. -/
def releaseClean (p : Party) : InertiaSlot :=
  (s.release p).trackCall p fun call => { call with acknowledged := some s.recheckSettled }

/-- A broadcast reaches every future of the cell that exists. -/
def broadcast (p : Party) (cell : Cell) : InertiaSlot :=
  match cell with
  | .done =>
      (({ s with done := s.done.notifyWaiters }).track fun trace =>
        { trace with unannounced := trace.unannounced.filter fun q => q ≠ p }).trackCall p
          fun call => { call with announced := call.acknowledged.isSome }
  | .disposeDone =>
      ({ s with disposeDone := s.disposeDone.notifyWaiters }).track fun trace =>
        { trace with unpublished := trace.unpublished.filter fun q => q ≠ p }

/-- A call of `exit_recheck` begins. -/
def enterCall (p : Party) (settled : SemanticTarget) (revision : Nat) : InertiaSlot :=
  s.track fun trace =>
    { trace with
      call := fun q =>
        if q = p then
          some { settled := settled, base := revision, kicks := trace.reclaims }
        else trace.call q }

/-- An iteration stores RELEASING. -/
def probe (p : Party) (revision : Nat) : InertiaSlot :=
  { s with inertia := INERTIA_RELEASING }.trackCall p fun call =>
    { call with
      iterations := call.iterations + 1
      compared := revision
      reclaimed := s.trace.reclaims }

def setLost (p : Party) (lost : Bool) : InertiaSlot :=
  s.track fun trace => { trace with lost := fun q => if q = p then lost else trace.lost q }

/-- The futures of a party that is dropped. -/
def forget (p : Party) : InertiaSlot :=
  ({ s with done := s.done.discard p, disposeDone := s.disposeDone.discard p }).setLost p false

end InertiaSlot

/-! ## Operations -/

/-- The code's own panics on the inertia word and on the target cell. -/
inductive PanicArm where
  | invalidReleaseState
  | invalidState
  | noTarget
  deriving DecidableEq

/-- What a party can be asked to run. -/
inductive Routine where
  | initialSpawnPass
  | convergencePass
  | replacementPass
  | handoff
  | dispose
  | eraSwap
  | creationInterruptedTeardown
  | publishDisposeComplete
  | waitIdle
  | waitDisposeComplete
  | commitRecheck
  | kick
  deriving DecidableEq

/-- What the outside world answers: a yes or no, or the live semantic target. -/
structure Choice where
  answer : Bool := false
  live : SemanticTarget := { input := 0, assignments := [] }

inductive Op where
  | notified (cell : Cell)
  | awaitNotified (cell : Cell)
  | discard (cell : Cell)
  | notifyWaiters (cell : Cell)
  -- the inertia word
  | claim
  | compareExchange (expected new : Nat)
  | load
  | probeIdle (released : Bool)
  | abandon
  | storeActive
  | storeReleasing (revision : Nat)
  -- the durable recheck counters and the target cell
  | commitRecheck
  | recheckRevision
  | loadSettled
  | storeSettled (revision : Nat)
  | computeTarget
  | readTarget
  | recordTarget (target : SemanticTarget)
  | markPendingIfUntouched (target : SemanticTarget)
  | pinInactive
  -- the disposal barrier
  | disposeComplete
  | completeDispose
  -- answers of the outside world
  | isAlive
  | applyFailed
  | tryCurrent
  | claimTerminal
  | refused
  -- calls, tasks and panics
  | enterRecheck (settled : SemanticTarget) (revision : Nat)
  | verdict (settled : SemanticTarget) (kept : Bool)
  | fork (routine : Routine)
  | panic (arm : PanicArm)
  deriving DecidableEq

abbrev Op.Ret : Op → Type
  | claim => Bool
  | compareExchange _ _ => Except Nat Nat
  | load => Nat
  | probeIdle _ => Bool
  | recheckRevision | loadSettled => Nat
  | computeTarget => SemanticTarget
  | readTarget => Option SemanticTarget
  | disposeComplete | isAlive | applyFailed | tryCurrent | claimTerminal | refused => Bool
  | panic _ => Empty
  | _ => Unit

/-- `compare_exchange` on the inertia word. -/
def InertiaSlot.compareExchange (s : InertiaSlot) (p : Party) (expected new : Nat) :
    InertiaSlot × Except Nat Nat :=
  if s.inertia = expected then
    (if new = INERTIA_IDLE then s.releaseClean p
      else if expected = INERTIA_IDLE then s.acquire p
      else s.reclaim, .ok expected)
  else (s, .error s.inertia)

open InertiaSlot in
def exec (self fresh : Party) (choice : Choice) :
    (op : Op) → InertiaSlot → Option (InertiaSlot × op.Ret)
  | .notified cell, s => some (s.setNotify ((s.notify cell).notified self) cell, ())
  | .awaitNotified cell, s =>
      if (s.notify cell).woken self then
        some ((s.setNotify ((s.notify cell).discard self) cell).setLost self false, ())
      else none
  | .discard cell, s => some (s.setNotify ((s.notify cell).discard self) cell, ())
  | .notifyWaiters cell, s => some (s.broadcast self cell, ())
  | .claim, s =>
      if s.inertia = INERTIA_IDLE then some (s.acquire self, true)
      else some (s.setLost self true, false)
  | .compareExchange expected new, s => some (s.compareExchange self expected new)
  | .load, s => some (s, s.inertia)
  | .probeIdle _, s => some (s, s.inertia = INERTIA_IDLE)
  | .abandon, s => some (s.release self, ())
  | .storeActive, s => some ({ s with inertia := INERTIA_ACTIVE }, ())
  | .storeReleasing revision, s => some (s.probe self revision, ())
  | .commitRecheck, s => some ({ s with recheckCommitted := s.recheckCommitted + 1 }, ())
  | .recheckRevision, s =>
      some (s.trackCall self fun call => { call with observed := some s.recheckCommitted },
        s.recheckCommitted)
  | .loadSettled, s => some (s, s.recheckSettled)
  | .storeSettled revision, s => some ({ s with recheckSettled := revision }, ())
  | .computeTarget, s =>
      some (s.trackCall self fun call => { call with live := some choice.live }, choice.live)
  | .readTarget, s => some (s, s.target)
  | .recordTarget target, s => some ({ s with target := some target }, ())
  | .markPendingIfUntouched target, s =>
      some ({ s with target := some (s.target.getD target) }, ())
  | .pinInactive, s => some ({ s with target := none }, ())
  | .disposeComplete, s => some (s, s.disposeComplete)
  | .completeDispose, s =>
      some ({ s with disposeComplete := true }.track fun trace =>
        { trace with unpublished := self :: trace.unpublished }, ())
  | .isAlive, s | .applyFailed, s | .tryCurrent, s | .claimTerminal, s | .refused, s =>
      some (s, choice.answer)
  | .enterRecheck settled revision, s => some (s.enterCall self settled revision, ())
  | .verdict _ _, s => some (s, ())
  | .fork _, s => some (s.track fun trace => { trace with holder := some fresh }, ())
  | .panic _, _ => none

/-! ## Programs -/

abbrev Prog := Program Op Op.Ret

abbrev perform (op : Op) : Prog op.Ret :=
  Program.perform op

/-- A panic ends the party. -/
def panic {α : Type} (arm : PanicArm) : Prog α := do
  let impossible ← perform (.panic arm)
  nomatch impossible

/-- Wait until the slot is free, then claim it. -/
def claim : Prog Unit :=
  iterate () fun _ => do
    perform (.notified .done)
    if ← perform .claim then do
      perform (.discard .done)
      pure (.inr ())
    else do
      perform (.awaitNotified .done)
      pure (.inl ())

def waitIdle : Prog Unit :=
  iterate () fun _ => do
    perform (.notified .done)
    if (← perform .load) = INERTIA_IDLE then do
      perform (.discard .done)
      pure (.inr ())
    else do
      perform (.awaitNotified .done)
      pure (.inl ())

/-- The holder gives the slot back without a drift recheck. -/
def abandon : Prog Unit := do
  perform .abandon
  perform (.notifyWaiters .done)

/-- Judge drift from RELEASING: `true` keeps the slot for the recorded new target. -/
def exitRecheck (settled : SemanticTarget) (revision : Nat) : Prog Bool := do
  perform (.enterRecheck settled revision)
  iterate revision fun revision => do
    perform (.storeReleasing revision)
    let live ← perform .computeTarget
    let observedRevision ← perform .recheckRevision
    if live ≠ settled then do
      perform (.recordTarget live)
      perform .storeActive
      perform (.verdict settled true)
      pure (.inr true)
    else if observedRevision ≠ revision then pure (.inl observedRevision)
    else do
      perform (.storeSettled revision)
      match ← perform (.compareExchange INERTIA_RELEASING INERTIA_IDLE) with
      | .ok _ => do
          perform (.notifyWaiters .done)
          perform (.verdict settled false)
          pure (.inr false)
      | .error word =>
          if word = INERTIA_ACTIVE then do
            -- a committed recheck claimed the releasing slot for this holder
            let revision ← perform .recheckRevision
            pure (.inl revision)
          else panic .invalidReleaseState

/-- The kick that won the idle slot: recheck, and hand drift to a convergence task. -/
def kickClaimed : Prog Unit := do
  let revision ← perform .recheckRevision
  match ← perform .readTarget with
  | some settled =>
      if ← exitRecheck settled revision then perform (.fork .convergencePass) else pure ()
  | none => do
      -- before the creation pass recorded its first target
      let live ← perform .computeTarget
      perform (.recordTarget live)
      perform (.fork .convergencePass)

/-- One look at the inertia word. -/
def kickOnce : Prog (Unit ⊕ Unit) := do
  let word ← perform .load
  if word = INERTIA_ACTIVE then pure (.inr ())
  else if word = INERTIA_RELEASING then
    match ← perform (.compareExchange INERTIA_RELEASING INERTIA_ACTIVE) with
    | .ok _ => pure (.inr ())
    | .error _ => pure (.inl ())
  else if word = INERTIA_IDLE then
    if ← perform .tryCurrent then
      match ← perform (.compareExchange INERTIA_IDLE INERTIA_ACTIVE) with
      | .ok _ => do
          kickClaimed
          pure (.inr ())
      | .error _ => pure (.inl ())
    else pure (.inr ())
  else panic .invalidState

def kick : Prog Unit := do
  if ← perform .isAlive then do
    let committed ← perform .recheckRevision
    let settled ← perform .loadSettled
    if committed ≠ settled then iterate () fun _ => kickOnce else pure ()
  else pure ()

/-- How the initial spawn pass ended, as far as the slot is concerned. -/
inductive InitialOutcome where
  | active
  | pending
  | failed
  deriving DecidableEq

/-- The endings whose exit recheck published IDLE already. -/
def InitialOutcome.released : InitialOutcome → Bool
  | active | pending => true
  | failed => false

def publishDisposeComplete : Prog Unit := do
  perform .completeDispose
  perform (.notifyWaiters .disposeDone)

/-- Once the teardown under the held slot is over. -/
def creationTeardown : Prog Unit := do
  perform .pinInactive
  publishDisposeComplete

/-- One round of the initial pass, after `settle_once`. -/
def initialRound : Prog (Unit ⊕ InitialOutcome) := do
  let revision ← perform .recheckRevision
  let target ← perform .computeTarget
  if target.hasMissing then do
    perform (.markPendingIfUntouched target)
    if ← exitRecheck target revision then pure (.inl ()) else pure (.inr .pending)
  else do
    perform (.recordTarget target)
    if ← perform .applyFailed then do
      creationTeardown
      pure (.inr .failed)
    else if ← exitRecheck target revision then pure (.inl ())
    else pure (.inr .active)

def claimInitial : Prog Unit := do
  match ← perform (.compareExchange INERTIA_IDLE INERTIA_ACTIVE) with
  | .ok _ => pure ()
  | .error _ => claim

/-- Release what the pass still holds. -/
def releaseInitial (released : Bool) : Prog Unit := do
  -- Pending and Active exits published IDLE through the release exchange already
  if ← perform (.probeIdle released) then pure () else abandon

def initialSpawnPass : Prog Unit := do
  claimInitial
  if ← perform .isAlive then do
    let outcome ← iterate () fun _ => initialRound
    releaseInitial outcome.released
  else abandon

/-- Settle toward the recorded target until the live target matches it. -/
def convergencePass : Prog Unit :=
  iterate () fun _ => do
    let revision ← perform .recheckRevision
    match ← perform .readTarget with
    | none => panic .noTarget
    | some target => do
        let live ← perform .computeTarget
        if live ≠ target then do
          perform (.recordTarget live)
          pure (.inl ())
        else if ← exitRecheck target revision then pure (.inl ()) else pure (.inr ())

/-- The loop of `restart_committed` and `update_committed`, after `settle_once`. -/
def replacementCommitted (target : SemanticTarget) (revision : Nat) : Prog Unit :=
  iterate (target, revision) fun (target, revision) => do
    if ← exitRecheck target revision then do
      let revision ← perform .recheckRevision
      let target ← perform .computeTarget
      perform (.recordTarget target)
      pure (.inl (target, revision))
    else pure (.inr ())

/-- What `restart_pass` and `update_pass` do with the slot. -/
def replacementPass : Prog Unit := do
  claim
  if ← perform .isAlive then do
    let revision ← perform .recheckRevision
    let target ← perform .computeTarget
    perform (.recordTarget target)
    replacementCommitted target revision
  else abandon

/-- The recheck before a spawned Fiber is handed to its caller. -/
def handoff : Prog Unit := do
  claim
  let _ ← perform .isAlive
  abandon

def completeClaimedDispose : Prog Unit := do
  perform .pinInactive
  abandon
  publishDisposeComplete

def waitDisposeComplete : Prog Unit :=
  iterate () fun _ => do
    perform (.notified .disposeDone)
    if ← perform .disposeComplete then do
      perform (.discard .disposeDone)
      pure (.inr ())
    else do
      perform (.awaitNotified .disposeDone)
      pure (.inl ())

def dispose : Prog Unit := do
  if ← perform .disposeComplete then pure ()
  else do
    claim
    if ← perform .disposeComplete then abandon
    else if ← perform .claimTerminal then do
      abandon
      waitDisposeComplete
    else completeClaimedDispose

def eraSwap : Prog Unit := do
  claim
  if ← perform .isAlive then
    if ← perform .refused then abandon
    else if ← perform .claimTerminal then abandon
    else completeClaimedDispose
  else abandon

/-- A cancelled creation that does not hold the slot. -/
def creationInterruptedTeardown : Prog Unit := do
  if ← perform .claimTerminal then waitDisposeComplete
  else do
    claim
    if ← perform .isAlive then completeClaimedDispose else abandon

inductive Answer where
  | done
  | dropped
  deriving DecidableEq

def code : Routine → Prog Unit
  | .initialSpawnPass => initialSpawnPass
  | .convergencePass => convergencePass
  | .replacementPass => replacementPass
  | .handoff => handoff
  | .dispose => dispose
  | .eraSwap => eraSwap
  | .creationInterruptedTeardown => creationInterruptedTeardown
  | .publishDisposeComplete => publishDisposeComplete
  | .waitIdle => waitIdle
  | .waitDisposeComplete => waitDisposeComplete
  | .commitRecheck => perform .commitRecheck
  | .kick => kick

/-- Calls from outside; a convergence pass is started by a kick that owns the slot. -/
def Routine.outside : Routine → Bool
  | convergencePass => false
  | _ => true

def protocol : Machine InertiaSlot Op Op.Ret Routine Choice Answer where
  init := {}
  exec := exec
  forks op := match op with
    | .fork routine => some routine
    | _ => none
  awaits op := match op with
    | .awaitNotified _ => true
    | _ => false
  dropped p s := some (s.forget p, none)
  gone := .dropped
  body routine := do
    code routine
    pure .done
  enter _ routine s := if routine.outside then some s else none

abbrev State := Config InertiaSlot Op Op.Ret Answer

abbrev Labels := List (Label Routine Choice)

def yes : Choice := { answer := true }

/-- A party takes some steps with this answer of the world. -/
def turns (p : Party) (n : Nat) (choice : Choice) : Labels :=
  List.replicate n (.step p 9 choice)

end Slot
end CordisCore
