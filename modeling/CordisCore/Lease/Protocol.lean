import CordisCore.Lease.Plugin

/-!
# The lease protocol — who may take a pair out of its seal

Any number of Fibers and of seals.  Spawns, kicks, restarts, updates, era
replacements and disposals of every Fiber interleave access by access; the slot
decides who settles, and whoever settles may apply.  Targets, drains, user code and
executors are answers of the outside world.

The trace is instrumentation: operations write it and no operation reads it back.
-/

namespace CordisCore
namespace Lease

open Interleaving
open Interleaving.Program (iterate)
open CordisCore.Runtime (ApplyOutcome Contract FiberId FiberState Inertia Input)

/-! ## State -/

/-- One allocation of a sealed Plugin. -/
abbrev SealId := Nat

/-- The behavior of a Plugin value, compared for identity only. -/
abbrev Behaviour := Nat

abbrev Pair := Behaviour × Input

abbrev Change := PreparedChange Input

/-- What became of a seal. -/
inductive Fate where
  | unmade
  | kept
  /-- `into_successor` moved the behavior into this seal, with this input. -/
  | moved (successor : SealId) (input : Input)
  /-- The unwinding of a panicked destructor dropped it. -/
  | destroyed
  deriving DecidableEq

structure Seal where
  plugin : TypedPlugin Behaviour Input := { contract := 0, state := none }
  -- trace
  behaviour : Behaviour := 0
  /-- The input it was sealed with. -/
  first : Input := 0
  /-- The last input that was committed to it. -/
  committed : Input := 0
  fate : Fate := .unmade
  /-- Who has its pair on a lease. -/
  lessee : Option Party := none
  /-- Who carries it to the Fiber it is made for. -/
  bearer : Option Party := none

/-- The seal of a pair that a party carries. -/
def Seal.sealed (p : Party) (plugin : TypedPlugin Behaviour Input) (pair : Pair) : Seal :=
  { plugin := plugin, behaviour := pair.1, first := pair.2, committed := pair.2, fate := .kept,
    bearer := some p }

structure Fiber where
  -- the installed spawn state
  plugin : SealId := 0
  contract : Contract := 0
  -- `InertiaSlot`
  inertia : Inertia := .idle
  creationOwned : Bool := false
  alive : Bool := true
  disposing : Bool := false
  disposeComplete : Bool := false
  creationPending : Bool := true
  applied : Bool := false
  state : FiberState := .pending
  -- trace
  holder : Option Party := none
  /-- Who spawned it. -/
  creator : Option Party := none
  /-- Who committed its disposal. -/
  terminal : Option Party := none

structure Root where
  nextFiber : FiberId := 0
  fibers : FiberId → Fiber := fun _ => {}
  nextSeal : SealId := 0
  seals : SealId → Seal := fun _ => {}
  -- what a future owns, and drops when it is dropped
  /-- `StateLease` -/
  lease : Party → Option (SealId × Pair) := fun _ => none
  /-- `CreationGuard`, while it is armed. -/
  guard : Party → Option FiberId := fun _ => none

namespace Root

variable (s : Root)

def setFiber (f : FiberId) (change : Fiber → Fiber) : Root :=
  { s with fibers := fun g => if g = f then change (s.fibers g) else s.fibers g }

def setSeal (q : SealId) (change : Seal → Seal) : Root :=
  { s with seals := fun r => if r = q then change (s.seals r) else s.seals r }

def setLease (p : Party) (lease : Option (SealId × Pair)) : Root :=
  { s with lease := fun t => if t = p then lease else s.lease t }

def setGuard (p : Party) (guard : Option FiberId) : Root :=
  { s with guard := fun t => if t = p then guard else s.guard t }

/-- IDLE becomes ACTIVE. -/
def acquire (p : Party) (f : FiberId) : Root :=
  s.setFiber f fun u => { u with inertia := .active, holder := some p }

/-- IDLE is stored. -/
def release (f : FiberId) : Root :=
  s.setFiber f fun u => { u with inertia := .idle, holder := none }

/-- `disposing.swap(true)` -/
def claimTerminal (p : Party) (f : FiberId) : Root × Bool :=
  (s.setFiber f fun u =>
    { u with
      disposing := true
      terminal := if u.disposing then u.terminal else some p }, (s.fibers f).disposing)

/-- A seal is allocated. -/
def make (p : Party) (plugin : TypedPlugin Behaviour Input) (pair : Pair) : Root :=
  { s with nextSeal := s.nextSeal + 1 }.setSeal s.nextSeal fun _ => .sealed p plugin pair

/-- `PreparedPlugin::from_input` -/
def fromInput (p : Party) (contract : Contract) (pair : Pair) : Root × SealId :=
  (s.make p { contract := contract, state := some pair } pair, s.nextSeal)

/-- The Fiber is attached, its spawn state installed and its creation guard armed. -/
def create (p : Party) (q : SealId) : Root × FiberId :=
  ((({ s with nextFiber := s.nextFiber + 1 }.setFiber s.nextFiber fun _ =>
    { plugin := q, contract := (s.seals q).plugin.contract, creator := some p }).setSeal q fun u =>
      { u with bearer := none }).setGuard p (some s.nextFiber), s.nextFiber)

/-- The pair leaves its seal and is on a lease. -/
def take (p : Party) (q : SealId) : Root × Option Pair :=
  match (s.seals q).plugin.take with
  | (plugin, some pair) =>
      ((s.setSeal q fun u => { u with plugin := plugin, lessee := some p }).setLease p
        (some (q, pair)), some pair)
  | (plugin, none) => (s.setSeal q fun u => { u with plugin := plugin }, none)

/-- The lease is dropped: its pair goes home. -/
def replace (p : Party) (q : SealId) (pair : Pair) : Root × Option Pair :=
  let (plugin, replaced) := (s.seals q).plugin.replace pair
  ((s.setSeal q fun u => { u with plugin := plugin, lessee := none }).setLease p none, replaced)

/-- `SpawnState::commit_change` -/
def commitChange (q : SealId) (change : Change) : Root × Except Change Input :=
  match (s.seals q).plugin.swapInput change with
  | (plugin, .ok superseded) =>
      (s.setSeal q fun u => { u with plugin := plugin, committed := change.input }, .ok superseded)
  | (plugin, .error change) => (s.setSeal q fun u => { u with plugin := plugin }, .error change)

def intoSuccessor (p : Party) (q : SealId) (change : Change) : Root × Except Change SealId :=
  match (s.seals q).plugin.intoSuccessor change with
  | (plugin, .ok successor) =>
      ((s.make p successor ((s.seals q).behaviour, change.input)).setSeal q fun u =>
        { u with plugin := plugin, fate := .moved s.nextSeal change.input }, .ok s.nextSeal)
  | (plugin, .error change) => (s.setSeal q fun u => { u with plugin := plugin }, .error change)

/-- Unwinding drops the successor with everything in it. -/
def destroy (q : SealId) : Root :=
  s.setSeal q fun u =>
    { u with plugin := { u.plugin with state := none }, fate := .destroyed, bearer := none }

/-- The slot goes to another party, and the terminal claim with it. -/
def handOver (p fresh : Party) (f : FiberId) : Root :=
  s.setFiber f fun u =>
    { u with
      holder := some fresh
      terminal := if u.terminal = some p then some fresh else u.terminal }

end Root

/-! ## Operations -/

/-- The code's own panics. -/
inductive PanicArm where
  /-- "the lifecycle arbiter serializes Plugin apply" -/
  | applyExpect
  /-- "a Plugin cannot apply concurrently" -/
  | concurrentApply
  /-- "precommit contract check and slot ownership make commit infallible" -/
  | commitExpect
  /-- "the claimed source retains one compatible successor candidate" -/
  | successorExpect
  /-- "invalid inertia release state" -/
  | releaseState
  deriving DecidableEq

/-- What a party can be asked to run. -/
inductive Routine where
  | spawn (contract : Contract) (pair : Pair)
  | kick (f : FiberId)
  | restart (f : FiberId)
  | update (f : FiberId) (change : Change)
  | eraSwap (f : FiberId) (change : Change)
  | dispose (f : FiberId)
  -- only started by others
  | convergencePass (f : FiberId)
  | replacementCommitted (f : FiberId)
  | completeClaimedDispose (f : FiberId)
  | runCommittedReplacement (f : FiberId) (q : SealId) (change : Change)
  | unwind (lease : Option (SealId × Pair)) (guard : Option FiberId)
  deriving DecidableEq

/-- What a probe from RELEASING comes to. -/
inductive Probe where
  | settled
  | drifted
  /-- A revision was committed meanwhile. -/
  | revised
  deriving DecidableEq

/-- What only the outside world knows. -/
inductive Question where
  | hasCommittedRecheck
  | hasTarget
  | hasMissing
  | hasDrifted
  | tryCurrent
  | refusesRecursion
  | accepts
  deriving DecidableEq

structure Choice where
  answer : Bool := false
  probe : Probe := .settled
  outcome : ApplyOutcome := .succeeded

inductive Op where
  | ask (question : Question)
  -- the slot
  | claim (f : FiberId)
  | tryClaim (f : FiberId)
  | inertia (f : FiberId)
  | reclaim (f : FiberId)
  | storeReleasing (f : FiberId)
  | storeActive (f : FiberId)
  | probe (f : FiberId)
  | exchangeIdle (f : FiberId)
  | isIdle (f : FiberId) (released : Bool)
  | abandon (f : FiberId)
  | setCreationOwned (f : FiberId) (owned : Bool)
  | takeCreationOwnership (f : FiberId)
  -- the Fiber
  | isAlive (f : FiberId)
  | isDisposing (f : FiberId)
  | kill (f : FiberId)
  | claimTerminal (f : FiberId)
  | markTerminal (f : FiberId)
  | disposeComplete (f : FiberId)
  | publishDisposeComplete (f : FiberId)
  | waitDisposeComplete (f : FiberId)
  | state (f : FiberId)
  | transition (f : FiberId) (next : FiberState)
  | drain (f : FiberId)
  | awaitsFirstApply (f : FiberId)
  | setApplied (f : FiberId)
  | closeCreation (f : FiberId)
  | contract (f : FiberId)
  | plugin (f : FiberId)
  -- the seals
  | fromInput (contract : Contract) (pair : Pair)
  | create (q : SealId)
  | disarm (f : FiberId)
  | take (q : SealId)
  | apply (q : SealId) (pair : Pair)
  | replace (q : SealId) (pair : Pair)
  | commitChange (f : FiberId) (q : SealId) (change : Change)
  | intoSuccessor (q : SealId) (change : Change)
  | dropSuperseded (successor : SealId)
  -- panics and tasks
  | raise (arm : PanicArm)
  | start (f : FiberId) (routine : Routine)

abbrev Op.Ret : Op → Type
  | ask _ | tryClaim _ | reclaim _ | isIdle _ _ | takeCreationOwnership _ => Bool
  | isAlive _ | isDisposing _ | claimTerminal _ | disposeComplete _ | awaitsFirstApply _ => Bool
  | inertia _ => Inertia
  | probe _ => Probe
  | exchangeIdle _ => Except Inertia Unit
  | state _ => FiberState
  | contract _ => Contract
  | plugin _ | fromInput _ _ => SealId
  | create _ => FiberId
  | take _ | replace _ _ => Option Pair
  | apply _ _ => ApplyOutcome
  | commitChange _ _ _ => Except Change Input
  | intoSuccessor _ _ => Except Change SealId
  | dropSuperseded _ => Bool
  | _ => Unit

open Root in
def exec (self fresh : Party) (choice : Choice) : (op : Op) → Root → Option (Root × op.Ret)
  | .ask _, s => some (s, choice.answer)
  | .claim f, s => if (s.fibers f).inertia = .idle then some (s.acquire self f, ()) else none
  | .tryClaim f, s =>
      if (s.fibers f).inertia = .idle then some (s.acquire self f, true) else some (s, false)
  | .inertia f, s => some (s, (s.fibers f).inertia)
  | .reclaim f, s =>
      if (s.fibers f).inertia = .releasing then
        some (s.setFiber f fun u => { u with inertia := .active }, true)
      else some (s, false)
  | .storeReleasing f, s => some (s.setFiber f fun u => { u with inertia := .releasing }, ())
  | .storeActive f, s => some (s.setFiber f fun u => { u with inertia := .active }, ())
  | .probe _, s => some (s, choice.probe)
  | .exchangeIdle f, s =>
      if (s.fibers f).inertia = .releasing then some (s.release f, .ok ())
      else some (s, .error (s.fibers f).inertia)
  | .isIdle f _, s => some (s, (s.fibers f).inertia = .idle)
  | .abandon f, s => some (s.release f, ())
  | .setCreationOwned f owned, s =>
      some (s.setFiber f fun u => { u with creationOwned := owned }, ())
  | .takeCreationOwnership f, s =>
      -- the guard is consumed
      some ((s.setFiber f fun u => { u with creationOwned := false }).setGuard self none,
        (s.fibers f).creationOwned)
  | .isAlive f, s => some (s, (s.fibers f).alive)
  | .isDisposing f, s => some (s, (s.fibers f).disposing)
  | .kill f, s => some (s.setFiber f fun u => { u with alive := false }, ())
  | .claimTerminal f, s => some (s.claimTerminal self f)
  | .markTerminal f, s => some (s.setFiber f fun u => { u with disposing := true }, ())
  | .disposeComplete f, s => some (s, (s.fibers f).disposeComplete)
  | .publishDisposeComplete f, s =>
      some (s.setFiber f fun u => { u with disposeComplete := true }, ())
  | .waitDisposeComplete f, s => if (s.fibers f).disposeComplete then some (s, ()) else none
  | .state f, s => some (s, (s.fibers f).state)
  | .transition f next, s => some (s.setFiber f fun u => { u with state := next }, ())
  | .drain _, s => some (s, ())
  | .awaitsFirstApply f, s => some (s, (s.fibers f).creationPending && !(s.fibers f).applied)
  | .setApplied f, s => some (s.setFiber f fun u => { u with applied := true }, ())
  | .closeCreation f, s => some (s.setFiber f fun u => { u with creationPending := false }, ())
  | .contract f, s => some (s, (s.fibers f).contract)
  | .plugin f, s => some (s, (s.fibers f).plugin)
  | .fromInput contract pair, s => some (s.fromInput self contract pair)
  | .create q, s => some (s.create self q)
  | .disarm _, s => some (s.setGuard self none, ())
  | .take q, s => some (s.take self q)
  | .apply _ _, s => some (s, choice.outcome)
  | .replace q pair, s => some (s.replace self q pair)
  | .commitChange _ q change, s => some (s.commitChange q change)
  | .intoSuccessor q change, s => some (s.intoSuccessor self q change)
  | .dropSuperseded successor, s =>
      -- a panicking destructor unwinds past the successor
      if choice.answer then some (s.destroy successor, true) else some (s, false)
  | .raise _, s => some (s, ())
  | .start f _, s => some (s.handOver self fresh f, ())

/-! ## Programs -/

abbrev Prog := Program Op Op.Ret

abbrev perform (op : Op) : Prog op.Ret :=
  Program.perform op

/-- Judge drift from RELEASING: `true` keeps the slot. -/
def exitRecheck (f : FiberId) : Prog Bool :=
  iterate () fun _ => do
    perform (.storeReleasing f)
    match ← perform (.probe f) with
    | .drifted => do
        perform (.storeActive f)
        pure (.inr true)
    | .revised => pure (.inl ())
    | .settled =>
        match ← perform (.exchangeIdle f) with
        | .ok () => pure (.inr false)
        | .error .active => pure (.inl ())
        | .error _ => do
            perform (.raise .releaseState)
            pure (.inr false)

/-- The drop of a `StateLease`. -/
def dropLease (q : SealId) (pair : Pair) : Prog Unit := do
  match ← perform (.replace q pair) with
  | none => pure ()
  | some _ => perform (.raise .concurrentApply)

/-- `apply_boxed` under `catch_contained`. -/
def applyBoxed (q : SealId) : Prog ApplyOutcome := do
  match ← perform (.take q) with
  | some pair => do
      let outcome ← perform (.apply q pair)
      dropLease q pair
      pure outcome
  | none => do
      perform (.raise .applyExpect)
      pure (.panicked "the lifecycle arbiter serializes Plugin apply")

def unload (f : FiberId) : Prog Unit := do
  perform (.transition f .unloading)
  perform (.drain f)

/-- Whatever is live is torn down; an unloading generation is drained by whoever closed it. -/
def unloadLive (f : FiberId) : Prog Unit := do
  match ← perform (.state f) with
  | .active | .failed | .loading => unload f
  | .pending | .unloading | .disposed => pure ()

def publishOutcome (f : FiberId) : ApplyOutcome → Prog Unit
  | .succeeded => perform (.transition f .active)
  | .returned _ | .panicked _ => do
      unload f
      perform (.transition f .failed)

def applyOnce (f : FiberId) : Prog Unit := do
  let q ← perform (.plugin f)
  perform (.transition f .loading)
  let outcome ← applyBoxed q
  perform (.setApplied f)
  publishOutcome f outcome

/-- The first apply belongs to the initial pass. -/
def leavesFirstApply (f : FiberId) (ownsFirstApply : Bool) : Prog Bool :=
  if ownsFirstApply then pure false else perform (.awaitsFirstApply f)

/-- `settle_once`, toward a target with a missing assignment or without. -/
def settleOnce (f : FiberId) (missing ownsFirstApply : Bool) : Prog Unit := do
  if ← perform (.isAlive f) then do
    unloadLive f
    if missing then perform (.transition f .pending)
    else if ← leavesFirstApply f ownsFirstApply then pure ()
    else applyOnce f
  else pure ()

def teardownBody (f : FiberId) : Prog Unit := do
  perform (.closeCreation f)
  if (← perform (.state f)) = .disposed then pure ()
  else do
    perform (.transition f .unloading)
    perform (.kill f)
    perform (.drain f)
    perform (.transition f .disposed)

def completeClaimedDispose (f : FiberId) : Prog Unit := do
  teardownBody f
  perform (.abandon f)
  perform (.publishDisposeComplete f)

def creationTeardown (f : FiberId) : Prog Unit := do
  perform (.markTerminal f)
  teardownBody f
  perform (.publishDisposeComplete f)

/-- The slot is held; a fiber that died meanwhile is left as it is. -/
def creationInterruptedTeardown (f : FiberId) : Prog Unit := do
  if ← perform (.takeCreationOwnership f) then do
    perform (.markTerminal f)
    completeClaimedDispose f
  else if ← perform (.claimTerminal f) then perform (.waitDisposeComplete f)
  else do
    perform (.claim f)
    if ← perform (.isAlive f) then completeClaimedDispose f else perform (.abandon f)

inductive InitialOutcome where
  | active
  | pending
  | failed
  | interrupted
  deriving DecidableEq

/-- The endings whose exit recheck published IDLE already. -/
def InitialOutcome.released : InitialOutcome → Bool
  | active | pending => true
  | failed | interrupted => false

/-- One round of the initial pass. -/
def initialRound (f : FiberId) : Prog (Unit ⊕ InitialOutcome) := do
  let missing ← perform (.ask .hasMissing)
  settleOnce f missing true
  if missing then
    if ← exitRecheck f then pure (.inl ()) else pure (.inr .pending)
  else if (← perform (.state f)) = .failed then do
    creationTeardown f
    pure (.inr .failed)
  else if ← exitRecheck f then pure (.inl ())
  else pure (.inr .active)

/-- The tail of the initial pass. -/
def releaseInitial (f : FiberId) (outcome : InitialOutcome) : Prog InitialOutcome := do
  perform (.setCreationOwned f false)
  -- Pending and Active exits published IDLE through the release exchange already
  if ← perform (.isIdle f outcome.released) then pure outcome
  else do
    perform (.abandon f)
    pure outcome

def claimInitial (f : FiberId) : Prog Unit := do
  if ← perform (.tryClaim f) then pure () else perform (.claim f)

def initialSpawnPass (f : FiberId) : Prog InitialOutcome := do
  claimInitial f
  if ← perform (.isAlive f) then do
    perform (.setCreationOwned f true)
    let outcome ← iterate () fun _ => initialRound f
    releaseInitial f outcome
  else do
    perform (.abandon f)
    pure .interrupted

/-- The recheck before the Fiber is handed to its caller. -/
def handoff (f : FiberId) : Prog Unit := do
  perform (.claim f)
  let alive ← perform (.isAlive f)
  perform (.abandon f)
  if alive then perform (.closeCreation f) else pure ()

def deliver (f : FiberId) : InitialOutcome → Prog Unit
  | .active | .pending => handoff f
  | .failed | .interrupted => pure ()

/-- `spawn_prepared_inner`, once it is admitted. -/
def spawnPreparedInner (q : SealId) : Prog Unit := do
  let f ← perform (.create q)
  let outcome ← initialSpawnPass f
  deliver f outcome
  perform (.disarm f)

def spawn (contract : Contract) (pair : Pair) : Prog Unit := do
  let q ← perform (.fromInput contract pair)
  spawnPreparedInner q

def convergencePass (f : FiberId) : Prog Unit :=
  iterate () fun _ => do
    let missing ← perform (.ask .hasMissing)
    settleOnce f missing false
    if ← perform (.ask .hasDrifted) then pure (.inl ())
    else if ← exitRecheck f then pure (.inl ())
    else pure (.inr ())

/-- The kick that won the idle slot. -/
def kickClaimed (f : FiberId) : Prog Unit := do
  if ← perform (.ask .hasTarget) then
    if ← exitRecheck f then perform (.start f (.convergencePass f)) else pure ()
  else perform (.start f (.convergencePass f))

/-- One look at the inertia word. -/
def kickOnce (f : FiberId) : Prog (Unit ⊕ Unit) := do
  match ← perform (.inertia f) with
  | .active => pure (.inr ())
  | .releasing =>
      -- the releasing holder is already the driver
      if ← perform (.reclaim f) then pure (.inr ()) else pure (.inl ())
  | .idle =>
      if ← perform (.ask .tryCurrent) then
        if ← perform (.tryClaim f) then do
          kickClaimed f
          pure (.inr ())
        else pure (.inl ())
      else pure (.inr ())

def kick (f : FiberId) : Prog Unit := do
  if ← perform (.isAlive f) then
    if ← perform (.ask .hasCommittedRecheck) then iterate () fun _ => kickOnce f else pure ()
  else pure ()

/-- `restart_committed` and `update_committed` -/
def replacementCommitted (f : FiberId) : Prog Unit :=
  iterate () fun _ => do
    let missing ← perform (.ask .hasMissing)
    settleOnce f missing false
    if ← exitRecheck f then pure (.inl ()) else pure (.inr ())

def restartPass (f : FiberId) : Prog Unit := do
  perform (.claim f)
  if ← perform (.isAlive f) then perform (.start f (.replacementCommitted f))
  else perform (.abandon f)

def updatePass (f : FiberId) (change : Change) : Prog Unit := do
  perform (.claim f)
  if ← perform (.isAlive f) then do
    let q ← perform (.plugin f)
    match ← perform (.commitChange f q change) with
    | .ok _ => perform (.start f (.replacementCommitted f))
    | .error _ => perform (.raise .commitExpect)
  else perform (.abandon f)

/-- `FiberHandle::update`; control answers the change with another input or vetoes it. -/
def update (f : FiberId) (change : Change) : Prog Unit := do
  if ← perform (.isAlive f) then
    if (← perform (.contract f)) = change.contract then
      if ← perform (.ask .accepts) then updatePass f change else pure ()
    else pure ()
  else pure ()

/-- Once the replacement is compatible. -/
def eraClaim (f : FiberId) (change : Change) : Prog Unit := do
  let q ← perform (.plugin f)
  perform (.claim f)
  if ← perform (.isAlive f) then
    if ← perform (.ask .refusesRecursion) then perform (.abandon f)
    else if ← perform (.claimTerminal f) then perform (.abandon f)
    else perform (.start f (.runCommittedReplacement f q change))
  else perform (.abandon f)

def eraSwap (f : FiberId) (change : Change) : Prog Unit := do
  if ← perform (.isAlive f) then
    if ← perform (.isDisposing f) then pure ()
    else if (← perform (.contract f)) = change.contract then eraClaim f change
    else pure ()
  else pure ()

def runCommittedReplacement (f : FiberId) (q : SealId) (change : Change) : Prog Unit := do
  completeClaimedDispose f
  match ← perform (.intoSuccessor q change) with
  | .ok successor =>
      if ← perform (.dropSuperseded successor) then pure () else spawnPreparedInner successor
  | .error _ => perform (.raise .successorExpect)

def dispose (f : FiberId) : Prog Unit := do
  if ← perform (.disposeComplete f) then pure ()
  else do
    perform (.claim f)
    if ← perform (.disposeComplete f) then perform (.abandon f)
    else if ← perform (.claimTerminal f) then do
      perform (.abandon f)
      perform (.waitDisposeComplete f)
    else perform (.start f (.completeClaimedDispose f))

def returnLease : Option (SealId × Pair) → Prog Unit
  | some (q, pair) => dropLease q pair
  | none => pure ()

def fireGuard : Option FiberId → Prog Unit
  | some f => creationInterruptedTeardown f
  | none => pure ()

/-- The destructors of a future that is dropped: the innermost first. -/
def unwind (lease : Option (SealId × Pair)) (guard : Option FiberId) : Prog Unit := do
  returnLease lease
  fireGuard guard

/-! ## The machine -/

inductive Answer where
  | done
  | dropped
  deriving DecidableEq

def code : Routine → Prog Unit
  | .spawn contract pair => spawn contract pair
  | .kick f => kick f
  | .restart f => restartPass f
  | .update f change => update f change
  | .eraSwap f change => eraSwap f change
  | .dispose f => dispose f
  | .convergencePass f => convergencePass f
  | .replacementCommitted f => replacementCommitted f
  | .completeClaimedDispose f => completeClaimedDispose f
  | .runCommittedReplacement f q change => runCommittedReplacement f q change
  | .unwind lease guard => unwind lease guard

def forks : Op → Option Routine
  | .start _ routine => some routine
  | _ => none

/-- Where a future is suspended, and may be dropped. -/
def awaits : Op → Bool
  | .claim _ | .waitDisposeComplete _ | .drain _ | .apply _ _ => true
  | _ => false

/-- A dropped future drops its lease and its armed guard. -/
def dropped (p : Party) (s : Root) : Option (Root × Option Routine) :=
  some (s, if s.lease p = none ∧ s.guard p = none then none
    else some (.unwind (s.lease p) (s.guard p)))

/-- Calls from outside; all but a spawn are about a Fiber that is there. -/
def enter : Routine → Root → Option Root
  | .spawn _ _, s => some s
  | .kick f, s | .restart f, s | .update f _, s | .eraSwap f _, s | .dispose f, s =>
      if f < s.nextFiber then some s else none
  | _, _ => none

def protocol : Machine Root Op Op.Ret Routine Choice Answer where
  init := {}
  exec := exec
  forks := forks
  awaits := awaits
  dropped := dropped
  gone := .dropped
  body routine := do
    code routine
    pure .done
  enter _ := enter

abbrev State := Config Root Op Op.Ret Answer

/-- The Fiber whose slot the tail of an initial pass reads after an Active or Pending exit. -/
def releasedTail : Op → Option FiberId
  | .isIdle f true => some f
  | _ => none

/-- Whenever the tail of an initial pass whose exit was Active or Pending reads the slot, it reads
IDLE. -/
def tailIdle : Machine.Condition Root Op Choice :=
  Machine.finds releasedTail fun f s => (s.fibers f).inertia = .idle

def tailIdle? : Party → Choice → Op → Root → Bool :=
  Machine.finds? releasedTail fun f s => (s.fibers f).inertia = .idle

end Lease
end CordisCore
