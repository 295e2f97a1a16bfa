import CordisCore.Runtime.Operation

/-!
# Execution — what each atomic operation does to the Runtime

`none` means that the operation is blocked: a lock is taken, the awaited event has
not happened, or the party ran into one of the code's own panics.
-/

namespace CordisCore
namespace Runtime

open Interleaving (Party)

/-! ## Refusal of lifecycle recursion -/

/-- A `Context::run` task of the Fiber would wait for itself. -/
def runTaskWaitIsDoomed (fiber : Fiber) : LifecycleOperation → Bool
  | .ready | .waitState => fiber.flags .draining
  | _ => true

/-- A call with this attribution would wait for itself. -/
def isDoomed (s : Root) (ctx : SettleCtx) (f : FiberId) (operation : LifecycleOperation) : Bool :=
  f ∈ ctx.settling ∨
    (ctx.runOwner = some f ∧ runTaskWaitIsDoomed (s.fibers f) operation = true)

/-- A task can only call handles that were delivered. -/
def callable (s : Root) : TaskCall → Bool
  | .finish => true
  | .removePlugins _ => true
  | .ready f | .waitState f _ _ | .dispose f | .restart f | .update f _ | .eraSwap f _ =>
      (s.fibers f).trace.delivered

namespace Fiber

/-- Change the instrumentation. -/
def track (fiber : Fiber) (change : FiberTrace → FiberTrace) : Fiber :=
  { fiber with trace := change fiber.trace }

def hold (fiber : Fiber) (self : Party) : Fiber :=
  fiber.track fun trace => { trace with holders := self :: trace.holders }

def unhold (fiber : Fiber) (self : Party) : Fiber :=
  fiber.track fun trace => { trace with holders := trace.holders.erase self }

def beginApply (fiber : Fiber) (self : Party) : Fiber :=
  fiber.track fun trace => { trace with applying := self :: trace.applying }

def endApply (fiber : Fiber) (self : Party) : Fiber :=
  fiber.track fun trace => { trace with applying := trace.applying.erase self }

def pushBracket (fiber : Fiber) (self : Party) (bracket : Bracket) : Fiber :=
  fiber.track fun trace => { trace with brackets := (self, bracket) :: trace.brackets }

def popBracket (fiber : Fiber) (self : Party) (bracket : Bracket) : Fiber :=
  fiber.track fun trace => { trace with brackets := trace.brackets.erase (self, bracket) }

def setInertia (fiber : Fiber) (word : Inertia) : Fiber :=
  { fiber with inertia := word }

/-- The residency claim of the allocation that the Fiber joined. -/
def reside (fiber : Fiber) (group : GroupId) : Fiber :=
  { fiber with residency := some group }

/-- The residency claim that this party took is released. -/
def unlinked (fiber : Fiber) (self : Party) : Fiber :=
  fiber.track fun trace => { trace with unlinking := trace.unlinking.erase self }

/-- The apply and the attribution frames end with the future that held them. -/
def forget (fiber : Fiber) (self : Party) : Fiber :=
  fiber.track fun trace =>
    { trace with
      brackets := trace.brackets.filter fun frame => frame.1 ≠ self
      applying := trace.applying.filter fun party => party ≠ self }

/-- What the edges see is remembered for the current revision. -/
def remember (fiber : Fiber) (assignments : List (DependencyEdge × Option Occurrence)) : Fiber :=
  fiber.track fun trace =>
    { trace with past := fun n =>
        if n = fiber.recheckCommitted then some assignments else trace.past n }

/-- The edges are in the dependency index from here on. -/
def enrolled (fiber : Fiber) : Fiber :=
  fiber.track fun trace => { trace with registered := true }

def setCleaning (fiber : Fiber) (cleaning : Option (CleanupId × Option Party)) : Fiber :=
  fiber.track fun trace => { trace with cleaning := cleaning }

/-- The kick for this revision has done its part. -/
def drive (fiber : Fiber) (revision : Nat) : Fiber :=
  fiber.track fun trace => { trace with kicks := trace.kicks.erase revision }

end Fiber

namespace Root

/-! ## Fresh identities and callers -/

/-- The next committed input is taken. -/
def takeInput (s : Root) : Root :=
  { s with nextInput := s.nextInput + 1 }

/-- The next drain cleanup is taken. -/
def takeCleanup (s : Root) : Root :=
  { s with nextCleanup := s.nextCleanup + 1 }

/-- The next Fiber allocation is taken. -/
def takeFiber (s : Root) : Root :=
  { s with nextFiber := s.nextFiber + 1 }

/-- A publication capability is handed out. -/
def issue (s : Root) (publication : ServicePublication) : Root :=
  { s with issued := publication :: s.issued }

/-- Change how one party is driven. -/
def drive (s : Root) (p : Party) (driving : Driving) : Root :=
  { s with driving := fun q => if q = p then driving else s.driving q }

/-! ## Registry sections -/

/-- A fresh allocation for the key. -/
def newGroup (s : Root) (key : PluginKey) : Root :=
  { s with
    allocations := (key, s.nextGroup) :: s.allocations
    groupKeys := fun g => if g = s.nextGroup then key else s.groupKeys g
    nextGroup := s.nextGroup + 1 }

/-- A new member of an allocation becomes resident. -/
def join (s : Root) (f : FiberId) (group : GroupId) : Root :=
  { s with
    groups := fun g => if g = group then s.groups g ++ [f] else s.groups g
    residents := s.residents ++ [f]
    registryLog := .attached f group :: s.registryLog }

/-- `attach_fiber`: join the current allocation of the key, or a fresh one. -/
def attach (s : Root) (f : FiberId) (key : PluginKey) : Root :=
  match s.allocationOf key with
  | some group => (s.join f group).put f ((s.fibers f).reside group)
  | none => ((s.newGroup key).join f s.nextGroup).put f ((s.fibers f).reside s.nextGroup)

/-- A claim whose allocation is gone is given up without a release. -/
def forsakeClaim (s : Root) (f : FiberId) (group : GroupId) : Root :=
  { s with registryLog := .released f group :: s.registryLog }

/-- `ResidencyClaim::release`: leave exactly this allocation, pruning it when it is the current
one and empty. -/
def releaseClaim (s : Root) (f : FiberId) (group : GroupId) : Root :=
  let members := (s.groups group).erase f
  { s with
    groups := fun g => if g = group then members else s.groups g
    allocations :=
      if members = [] then s.allocations.filter (fun row => row.2 ≠ group) else s.allocations
    residents := s.residents.erase f
    upgradedClaims := s.upgradedClaims.erase group
    registryLog := .released f group :: s.registryLog }

/-- `detach_for_removal`: the removal takes the allocation out of the map. -/
def detach (s : Root) (key : PluginKey) (group : GroupId) : Root :=
  { s with
    allocations := s.allocations.filter fun row => row.1 ≠ key
    detachedGroups := group :: s.detachedGroups
    registryLog := .detached group (s.groups group) :: s.registryLog }

/-! ## Service sections -/

/-- The dependents of a commit, remembered by the section that owes them a revision. -/
def owe (s : Root) (self : Party) (edges : List DependencyEdge) : Root :=
  match s.storeLock with
  | some section_ =>
      if section_.owner = self then
        { s with storeLock := some { section_ with
          edges := edges
          owed := s.dependentsOf edges
          late := [] } }
      else s
  | none => s

/-- One dependent has its revision. -/
def advance (s : Root) (self : Party) (f : FiberId) : Root :=
  match s.storeLock with
  | some section_ =>
      if section_.owner = self then
        { s with storeLock := some { section_ with
          owed := section_.owed.erase f
          advanced := f :: section_.advanced } }
      else s
  | none => s

/-- The Fiber's revision or registration takes effect with the end of the section. -/
def affects (s : Root) (f : FiberId) : Bool :=
  s.storeLock.any fun section_ =>
    f < s.nextFiber && (f ∈ section_.advanced || f ∈ section_.joined)

/-- The end of a ServiceStore section: what it committed has taken effect. -/
def closeStore (s : Root) : Root :=
  { s with
    storeLock := none
    fibers := fun f =>
      if s.affects f then (s.fibers f).remember (s.assignments f) else s.fibers f }

/-- The open section, if any, sees a newcomer. -/
def newcomer (s : Root) (f : FiberId) : Root :=
  { s with storeLock := s.storeLock.map fun section_ =>
      { section_ with joined := f :: section_.joined, late := f :: section_.late } }

/-- The first registration is remembered: at once, or by the section it falls into. -/
def enroll (s : Root) (f : FiberId) : Root :=
  if (s.fibers f).trace.registered then s
  else if s.storeLock.isNone then s.put f ((s.fibers f).enrolled.remember (s.assignments f))
  else (s.put f (s.fibers f).enrolled).newcomer f

/-- `register`: the edges of a live Fiber go into the index. -/
def register (s : Root) (f : FiberId) : Root :=
  { s with reverse := s.reverse ++ (s.fibers f).edges.map fun edge => (edge, f) }

/-- `unregister`: the rows of a Fiber leave the index. -/
def unregister (s : Root) (f : FiberId) : Root :=
  { s with reverse := s.reverse.filter fun row => row.2 ≠ f }

/-- Insert a slot in place of whatever its key held. -/
def insertSlot (s : Root) (slot : ServiceSlot) : Root :=
  { s with slots := slot :: s.slots.filter fun other => other.key ≠ slot.key }

def removeSlot (s : Root) (key : DependencyEdge) : Root :=
  { s with slots := s.slots.filter fun other => other.key ≠ key }

def replaceValue (s : Root) (key : DependencyEdge) (value : Nat) : Root :=
  { s with slots := s.slots.map fun slot =>
      if slot.key = key then { slot with value := value } else slot }

/-- `visible_value`. -/
def visibleValue (s : Root) (key : DependencyEdge) (contract : Contract) :
    Except ServiceLookupError Nat :=
  match s.contractOf key.service with
  | some bound =>
      if bound ≠ contract then .error (.contractMismatch key.service)
      else match (s.slotAt key).filter s.visible with
        | some slot =>
            if slot.contract = contract then .ok slot.value
            else .error (.contractMismatch key.service)
        | none => .error (.unavailable key.service)
  | none =>
      match (s.slotAt key).filter s.visible with
      | some slot =>
          if slot.contract = contract then .ok slot.value
          else .error (.contractMismatch key.service)
      | none => .error (.unavailable key.service)

end Root

/-! ## Operations on one Fiber -/

/-- An operation that is never blocked. -/
abbrev done {σ α : Type} (s : σ) (answer : α) : Option (σ × α) :=
  some (s, answer)

/-- An operation that waits for a condition. -/
abbrev guarded {σ α : Type} (enabled : Bool) (s : σ) (answer : α) : Option (σ × α) :=
  if enabled then some (s, answer) else none

/-- The answer and effect of one operation of `self` on one Fiber. -/
def FiberOp.exec (self : Party) (choice : Choice) :
    (op : FiberOp) → Fiber → Option (Fiber × op.Ret)
  | .tryClaim, x =>
      if x.inertia = .idle then done ((x.setInertia .active).hold self) true
      else done x false
  | .storeInertia word, x => done (x.setInertia word) ()
  | .release, x =>
      if x.inertia = .releasing then
        done ((x.setInertia .idle).unhold self) .releasing
      else done x x.inertia
  | .abandon, x => done ((x.setInertia .idle).unhold self) ()
  | .loadInertia revision, x =>
      -- an ACTIVE holder is trusted with the revision
      if x.inertia = .active then done (x.drive revision) .active
      else done x x.inertia
  | .reclaim revision, x =>
      if x.inertia = .releasing then
        done ((x.setInertia .active).drive revision) true
      else done x false
  | .isIdle, x => done x (x.inertia = .idle : Bool)
  | .probeIdle _, x => done x (x.inertia = .idle : Bool)
  | .awaitIdle, x => guarded (x.inertia = .idle) x ()
  | .recheckRevision, x => done x x.recheckCommitted
  | .loadSettled, x => done x x.recheckSettled
  | .storeSettled revision settled, x =>
      done ({ x with recheckSettled := revision }.track fun trace =>
        { trace with acknowledged := (revision, settled) :: trace.acknowledged }) ()
  | .kicked revision, x => done (x.drive revision) ()
  | .readTarget, x => done x x.target
  | .recordTarget target, x => done { x with target := some target } ()
  | .markPendingIfUntouched target, x => done { x with target := some (x.target.getD target) } ()
  | .pinInactive, x => done { x with target := none } ()
  | .load flag, x => done x (x.flags flag)
  | .store flag value, x => done (x.setFlag flag value) ()
  | .takeCreationOwnership, x =>
      done (x.setFlag .creationOwned false) (x.flags .creationOwned)
  | .swapGated flag, x =>
      if x.mutationGate = none then
        if flag = .disposing ∧ x.flags .disposing = false then
          done ((x.setFlag .disposing true).track fun trace =>
            { trace with owners := self :: trace.owners }) false
        else done (x.setFlag flag true) (x.flags flag)
      else none
  | .lockGate, x =>
      if x.mutationGate = none then done { x with mutationGate := some self } () else none
  | .unlockGate, x => done { x with mutationGate := none } ()
  | .awaitDisposed, x => guarded (x.flags .disposeComplete) x ()
  | .state, x => done x x.state
  | .observe, x => done x (x.state, x.sequence)
  | .sequence, x => done x x.sequence
  | .revisions wanted, x => done x (x.state, x.revisions wanted)
  | .awaitState wanted baseline bounded, x =>
      if x.state = wanted ∨ x.revisions wanted ≠ baseline then done x true
      else guarded bounded x false
  | .publish next, x => done (x.publish next) ()
  | .storeError next, x => done { x with error := next } ()
  | .takeError, x => done { x with error := none } x.error
  | .readError, x => done x x.error
  | .dependencyEdges, x => done x x.edges
  | .installed, x => done x x.effectiveInput.isSome
  | .effectiveInput, x => x.effectiveInput.map fun input => (x, input)
  | .contract, x => done x x.pluginKey
  | .lockDisposables, x =>
      if x.disposablesLock = none then done { x with disposablesLock := some self } ()
      else none
  | .unlockDisposables, x => done { x with disposablesLock := none } ()
  | .tokens, x =>
      if x.disposablesLock = none then done x (x.disposables.map Prod.fst) else none
  | .removeDisposable token, x =>
      if x.disposablesLock = none then
        done { x with disposables := x.disposables.filter fun row => row.1 ≠ token }
          ((x.disposables.find? fun row => row.1 = token).map Prod.snd)
      else none
  | .readDrainCleanup, x => done x x.drainCleanup
  | .startApply _, x => done (x.beginApply self) ()
  | .finishApply, x =>
      match choice with
      | .apply outcome => done (x.endApply self) outcome
      | _ => none
  | .enterBracket bracket, x => done (x.pushBracket self bracket) ()
  | .exitBracket bracket, x => done (x.popBracket self bracket) ()
  | .takeResidency, x =>
      if x.residency.isSome then
        done ({ x with residency := none }.track fun trace =>
          { trace with unlinking := self :: trace.unlinking }) x.residency
      else done x none
  | .leave, x =>
      done (x.track fun trace => { trace with admitted := trace.admitted.erase self }) ()
  | .deliver, x => done (x.track fun trace => { trace with delivered := true }) ()

namespace FiberOp

/-- The operations that only look at a Fiber. -/
def reads : FiberOp → Bool
  | isIdle | probeIdle _ | awaitIdle | recheckRevision | loadSettled | readTarget | load _
  | awaitDisposed | state | observe | sequence | revisions _ | awaitState _ _ _ | readError
  | dependencyEdges | installed | effectiveInput | contract | tokens | readDrainCleanup => true
  | _ => false

theorem exec_reads {self : Party} {choice : Choice} {op : FiberOp} {x y : Fiber} {r : op.Ret}
    (hop : op.reads = true) (h : op.exec self choice x = some (y, r)) : y = x := by
  cases op <;> simp only [reads, Bool.false_eq_true] at hop <;>
    simp only [exec, Option.map_eq_some_iff] at h <;> grind

end FiberOp

/-! ## All operations -/

/-- The answer and effect of one operation of `self`; a fork starts on `fresh`. -/
def exec (self fresh : Party) (choice : Choice) :
    (op : Op) → Root → Option (Root × op.Ret)
  | .on f op, s =>
      (op.exec self choice (s.fibers f)).map fun out => (s.put f out.1, out.2)
  | .commitRecheck f, s =>
      let revision := (s.fibers f).recheckCommitted + 1
      let advanced := { s.fibers f with recheckCommitted := revision }.track fun trace =>
        { trace with kicks := revision :: trace.kicks }
      done ((s.put f advanced).advance self f) revision
  | .commitChange f, s =>
      done (s.put f { s.fibers f with effectiveInput := some s.nextInput }).takeInput ()
  | .push f cleanup, s =>
      let token := (s.fibers f).sn + 1
      let pushed := s.put f { s.fibers f with
        sn := token
        disposables := (s.fibers f).disposables ++ [(token, cleanup)] }
      match cleanup with
      | .withdraw key occurrence =>
          done (pushed.issue
            { key := key, occurrence := occurrence, owner := f, cleanup := token }) token
      | _ => done pushed token
  | .claimCleanup f, s =>
      done (s.put f ({ s.fibers f with drainCleanup := some s.nextCleanup }.setCleaning
        (some (s.nextCleanup, none)))).takeCleanup s.nextCleanup
  | .refuseRecursion ctx f operation, s =>
      if isDoomed s ctx f operation then done s true
      else if self ∈ (s.fibers f).trace.tasks then
        done (s.put f ((s.fibers f).track fun trace =>
          { trace with admitted := self :: trace.admitted })) false
      else done s false
  | .awaitOutcome id, s => guarded (id ∈ s.reported) s ()
  | .awaitCompleted id, s => guarded (id ∈ s.completed) s ()
  | .sendOutcome f id, s =>
      done { s.put f ((s.fibers f).setCleaning none) with reported := id :: s.reported } ()
  | .completeCleanup id, s => done { s with completed := id :: s.completed } ()
  | .userCleanup, s => done s ()
  | .allocate edges, s =>
      done (s.put s.nextFiber (Fiber.created edges self)).takeFiber
        s.nextFiber
  | .attach f key, s => done (s.attach f key) ()
  | .install f key, s =>
      -- a repeated install is refused, and the caller expects none
      if (s.fibers f).effectiveInput.isNone then
        done (s.put f
          { s.fibers f with effectiveInput := some s.nextInput, pluginKey := some key }).takeInput ()
      else none
  | .upgradeClaim f group, s =>
      if s.groupAlive group then
        done { s with upgradedClaims := group :: s.upgradedClaims } true
      else done ((s.forsakeClaim f group).put f ((s.fibers f).unlinked self)) false
  | .releaseClaim f group, s =>
      done ((s.releaseClaim f group).put f ((s.fibers f).unlinked self)) ()
  | .detachForRemoval ctx key, s =>
      match s.allocationOf key with
      | none => done s (some none)
      | some group =>
          if (s.groups group).any fun f => isDoomed s ctx f .removePlugins then done s none
          else done (s.detach key group) (some (some (group, s.groups group)))
  | .fiberCount group, s => done s (s.groups group).length
  | .dropGroup group, s => done { s with detachedGroups := s.detachedGroups.erase group } ()
  | .register f, s =>
      if (s.fibers f).flags .alive then done ((s.enroll f).register f) () else done s ()
  | .unregister f, s =>
      done ((s.put f ((s.fibers f).track fun trace =>
        { trace with withdrawn := true })).unregister f) ()
  | .dependentsOf edges, s =>
      done (s.owe self edges) (s.dependentsOf edges)
  | .freshOccurrence, s => done { s with nextOccurrence := s.nextOccurrence + 1 } s.nextOccurrence
  | .lockStore, s =>
      if s.storeLock.isNone then
        done { s with storeLock := some { owner := self, before := s.occurrenceAt } } ()
      else none
  | .unlockStore, s => done s.closeStore ()
  | .bindContract name contract, s =>
      match s.contractOf name with
      | some bound => done s (bound = contract : Bool)
      | none => done { s with contracts := (name, contract) :: s.contracts } true
  | .occupied key, s => done s (s.occupiedAt key)
  | .holds key occurrence, s =>
      done s ((s.slotAt key).any fun slot => slot.occurrence = occurrence)
  | .insertSlot slot, s => done (s.insertSlot slot) ()
  | .replaceValue key value, s => done (s.replaceValue key value) ()
  | .removeSlot key, s => done (s.removeSlot key) ()
  | .visibility f, s => done s (s.slotsOwnedBy f)
  | .occurrenceId key, s => guarded s.storeLock.isNone s (s.occurrenceAt key)
  | .slotsOwnedBy f, s => guarded s.storeLock.isNone s (s.slotsOwnedBy f)
  | .visibleValue key contract, s => guarded s.storeLock.isNone s (s.visibleValue key contract)
  | .tryCurrent _, s => done s (choice = .yes : Bool)
  | .freshCell, s => done { s with nextCell := s.nextCell + 1 } s.nextCell
  | .park cell task, s =>
      done { s with cells := fun c => if c = cell then .running task else s.cells c } ()
  | .takeCell cell, s =>
      match s.cells cell with
      | .running task =>
          done { s with cells := fun c => if c = cell then .done else s.cells c } task
      | _ => none
  | .awaitTask task, s => guarded (task ∈ s.finished) s ()
  | .nextCall _, s =>
      match choice with
      | .call call => guarded (callable s call) s call
      | _ => none
  | .finishTask, s => done { s with finished := self :: s.finished } ()
  | .arm f, s =>
      done (s.drive self { s.driving self with guard := some f }) ()
  | .disarm, s =>
      done (s.drive self { s.driving self with guard := none }) ()
  | .handOff, s =>
      done (s.drive self { s.driving self with byCaller := false }) ()
  | .awaitControl, s =>
      match choice with
      | .control outcome => done s outcome
      | _ => none
  | .inputDrop, s => done s (choice = .yes : Bool)
  | .offer, s => done s (choice = .yes : Bool)
  | .fork routine, s =>
      match routine with
      | .convergence f =>
          -- the slot goes to the convergence task
          done (s.put f (((s.fibers f).unhold self).hold fresh)) fresh
      | .task f =>
          done (s.put f ((s.fibers f).track fun trace =>
            { trace with tasks := fresh :: trace.tasks })) fresh
      | .cleanup f id _ =>
          done (s.put f ((s.fibers f).setCleaning (some (id, some fresh)))) fresh
      | _ => done s fresh
  | .panic, _ => none

/-- A handle always names an allocated Fiber. -/
def execAllocated (self fresh : Party) (choice : Choice) (op : Op) (s : Root) :
    Option (Root × op.Ret) :=
  if op.touches.all (· < s.nextFiber) then exec self fresh choice op s else none

theorem execAllocated_eq_some {self fresh : Party} {choice : Choice} {op : Op} {s : Root}
    {out : Root × op.Ret} : execAllocated self fresh choice op s = some out ↔
      (∀ f, op.touches = some f → f < s.nextFiber) ∧
        exec self fresh choice op s = some out := by
  unfold execAllocated
  cases op.touches <;> simp

/-! ## Callers -/

/-- Dropping a party's future: its creation guard, if armed, finishes for it. -/
def dropped (self : Party) (s : Root) : Option (Root × Option Routine) :=
  if (s.driving self).byCaller then
    match (s.driving self).guard with
    | some f =>
        some ((s.put f ((s.fibers f).forget self)).drive self {}, some (.creationGuard f))
    | none => some (s, none)
  else none

/-- The calls that an outside party can make. -/
def admits (s : Root) : Routine → Bool
  | .spawn origin _ _ => origin < s.nextFiber
  | .ready _ f | .waitState _ f _ _ | .dispose _ f | .restart _ f | .update _ f _
  | .eraSwap _ f _ => (s.fibers f).trace.delivered
  | .removePlugins _ _ | .tryService _ _ => true
  | .provide f _ _ _ | .effect f | .run f => f < s.nextFiber
  | .set publication _ | .remove publication => publication ∈ s.issued
  | .disarm f token | .disposeEffect f token =>
      (s.fibers f).disposables.all fun row => row.1 ≠ token ∨ row.2 = .effect
  | _ => false

/-- An outside party starts a call; it drives the call and may drop it. -/
def enter (self : Party) (routine : Routine) (s : Root) : Option Root :=
  if admits s routine then some (s.drive self { byCaller := true }) else none

end Runtime
end CordisCore
