import Mathlib.Data.List.Dedup
import CordisCore.Runtime.Types

/-!
# Runtime state — fibers, the service store, the dependency index and the registry

The `trace` records are instrumentation: operations write them and no operation
reads them back, so they never influence a run.
-/

namespace CordisCore
namespace Runtime

open Interleaving (Party)

/-! ## One Fiber -/

/-- Instrumentation of one Fiber: who holds what, and what has happened. -/
structure FiberTrace where
  /-- The party whose spawn allocated the Fiber. -/
  creator : Option Party := none
  /-- The parties that won the slot and have not released it. -/
  holders : List Party := []
  /-- The framework bodies in progress. -/
  brackets : List (Party × Bracket) := []
  /-- The Plugin applies in progress. -/
  applying : List Party := []
  /-- The committed revisions whose kick has not yet done its part. -/
  kicks : List Nat := []
  /-- What the edges saw once each committed revision had taken effect. -/
  past : Nat → Option (List (DependencyEdge × Option Occurrence)) := fun _ => none
  /-- The revisions acknowledged so far, each with the target it was compared with. -/
  acknowledged : List (Nat × SemanticTarget) := []
  /-- The edges were put into the dependency index. -/
  registered : Bool := false
  /-- The edges were withdrawn from the dependency index. -/
  withdrawn : Bool := false
  /-- The claimed cleanup whose outcome is not sent yet, and the party running it. -/
  cleaning : Option (CleanupId × Option Party) := none
  /-- The parties that won the terminal claim. -/
  owners : List Party := []
  /-- The parties between taking the residency claim and finishing its release. -/
  unlinking : List Party := []
  /-- The parties running a `Context::run` task of the Fiber. -/
  tasks : List Party := []
  /-- The run tasks inside an admitted `ready` or unbounded `wait_state`. -/
  admitted : List Party := []
  /-- The Fiber was handed to its creator. -/
  delivered : Bool := false

/-- The private Fiber body. -/
structure Fiber where
  edges : List DependencyEdge := []
  flags : Flag → Bool := fun flag => flag = .alive
  -- `InertiaSlot`
  inertia : Inertia := .idle
  target : Option SemanticTarget := none
  recheckCommitted : Nat := 0
  recheckSettled : Nat := 0
  -- `StatePublication`
  state : FiberState := .pending
  revisions : FiberState → Nat := fun state => if state = .pending then 1 else 0
  sequence : Nat := 0
  -- `DisposableList` and its lock
  disposables : List (Token × Cleanup) := []
  sn : Nat := 0
  disposablesLock : Option Party := none
  mutationGate : Option Party := none
  drainCleanup : Option CleanupId := none
  error : Option PluginFailure := none
  -- `SpawnState`: the committed input and the Plugin contract, once installed
  effectiveInput : Option Input := none
  pluginKey : Option PluginKey := none
  residency : Option GroupId := none
  trace : FiberTrace := {}

/-- `Fiber::new_with_edges`, marked as pending creation before anybody else can see it. -/
def Fiber.created (edges : List DependencyEdge) (creator : Party) : Fiber :=
  { edges := edges
    flags := fun flag => flag = .alive ∨ flag = .creationPending
    trace := { creator := some creator } }

namespace Fiber

/-- Publish a state, unless it is the current one already. -/
def publish (fiber : Fiber) (next : FiberState) : Fiber :=
  if fiber.state = next then fiber
  else
    { fiber with
      state := next
      revisions := fun state =>
        if state = next then fiber.revisions state + 1 else fiber.revisions state
      sequence := fiber.sequence + 1 }

def setFlag (fiber : Fiber) (flag : Flag) (value : Bool) : Fiber :=
  { fiber with flags := fun other => if other = flag then value else fiber.flags other }

/-- The root fiber: permanently Active, no spawn state and no edges. -/
def root : Fiber :=
  ({} : Fiber).publish .active

end Fiber

/-! ## The whole Runtime -/

structure ServiceSlot where
  key : DependencyEdge
  occurrence : Occurrence
  value : Nat
  contract : Contract
  fiber : FiberId
  deriving DecidableEq

/-- The capability returned by a successful `provide`. -/
structure ServicePublication where
  key : DependencyEdge
  occurrence : Occurrence
  owner : FiberId
  cleanup : Token
  deriving DecidableEq

/-- How a party is driven: by a caller who may drop it, and with which creation guard. -/
structure Driving where
  byCaller : Bool := false
  guard : Option FiberId := none
  deriving DecidableEq

/-- Instrumentation of the ServiceStore critical section in progress. -/
structure Section where
  owner : Party
  /-- What was visible when the section began. -/
  before : DependencyEdge → Option Occurrence := fun _ => none
  /-- The edges of the commit. -/
  edges : List DependencyEdge := []
  /-- Dependents of the commit that still have to be advanced. -/
  owed : List FiberId := []
  /-- Dependents advanced so far. -/
  advanced : List FiberId := []
  /-- Fibers registered since the section began. -/
  joined : List FiberId := []
  /-- Fibers registered since the dependents were collected. -/
  late : List FiberId := []

/-- Instrumentation of the Registry sections, in the order of the allocations lock. -/
inductive RegistryEvent where
  | attached (f : FiberId) (group : GroupId)
  | detached (group : GroupId) (frozen : List FiberId)
  | released (f : FiberId) (group : GroupId)
  deriving DecidableEq

/-- Everything the fibers of one Runtime share, and the fibers themselves. -/
structure Root where
  fibers : FiberId → Fiber
  nextFiber : Nat := 1
  -- `ServiceStore`
  contracts : List (ServiceName × Contract) := []
  slots : List ServiceSlot := []
  storeLock : Option Section := none
  -- `DependencyIndex::reverse`
  reverse : List (DependencyEdge × FiberId) := []
  -- `Registry`
  allocations : List (PluginKey × GroupId) := []
  groups : GroupId → List FiberId := fun _ => []
  groupKeys : GroupId → PluginKey := fun _ => 0
  residents : List FiberId := []
  -- the allocations kept alive by a `DetachedGroup`
  detachedGroups : List GroupId := []
  -- the allocations that a release in progress upgraded its weak claim to
  upgradedClaims : List GroupId := []
  registryLog : List RegistryEvent := []
  -- `RunSlot` cells of `Context::run`
  cells : CellId → RunSlot := fun _ => .pending
  finished : List Party := []
  -- claimed cleanups: outcome sent, and completion published
  reported : List CleanupId := []
  completed : List CleanupId := []
  driving : Party → Driving := fun _ => {}
  -- the publication capabilities handed out so far
  issued : List ServicePublication := []
  -- fresh identities
  nextOccurrence : Nat := 0
  nextInput : Nat := 0
  nextCleanup : Nat := 0
  nextCell : Nat := 0
  nextGroup : Nat := 0

namespace Root

/-- A Runtime with nothing but its root fiber. -/
def new : Root :=
  { fibers := fun f => if f = 0 then Fiber.root else {} }

/-- Put a new record in the place of one Fiber. -/
def put (s : Root) (f : FiberId) (fiber : Fiber) : Root :=
  { s with fibers := fun g => if g = f then fiber else s.fibers g }

@[simp] theorem fibers_put (s : Root) (f : FiberId) (fiber : Fiber) :
    (s.put f fiber).fibers f = fiber := by
  simp [put]

theorem fibers_put_of_ne (s : Root) {f g : FiberId} (fiber : Fiber)
    (h : g ≠ f) : (s.put f fiber).fibers g = s.fibers g := by
  simp [put, h]

/-! ## The service store -/

/-- The slot occupied under this key. -/
def slotAt (s : Root) (key : DependencyEdge) : Option ServiceSlot :=
  s.slots.find? fun slot => slot.key = key

/-- The contract bound to this name. -/
def contractOf (s : Root) (name : ServiceName) : Option Contract :=
  (s.contracts.find? fun row => row.1 = name).map Prod.snd

/-- A slot is visible while its owner is alive and Active. -/
def visible (s : Root) (slot : ServiceSlot) : Bool :=
  (s.fibers slot.fiber).flags .alive && (s.fibers slot.fiber).state = .active

/-- The visible occurrence under this key (`occurrence_id`). -/
def occurrenceAt (s : Root) (key : DependencyEdge) : Option Occurrence :=
  ((s.slotAt key).filter s.visible).map (·.occurrence)

/-- A slot is occupied while its owner is alive. -/
def occupiedAt (s : Root) (key : DependencyEdge) : Bool :=
  (s.slotAt key).any fun slot => (s.fibers slot.fiber).flags .alive

/-- The keys of the slots owned by a Fiber. -/
def slotsOwnedBy (s : Root) (f : FiberId) : List DependencyEdge :=
  (s.slots.filter fun slot => slot.fiber = f).map (·.key)

/-- What every edge of a Fiber sees now. -/
def assignments (s : Root) (f : FiberId) : List (DependencyEdge × Option Occurrence) :=
  (s.fibers f).edges.map fun edge => (edge, s.occurrenceAt edge)

/-! ## The dependency index -/

/-- The dependents of any of these edges, each once. -/
def dependentsOf (s : Root) (edges : List DependencyEdge) : List FiberId :=
  (edges.flatMap fun edge =>
    (s.reverse.filter fun row => row.1 = edge).map (·.2)).dedup

/-! ## The registry -/

/-- The current allocation of a Plugin. -/
def allocationOf (s : Root) (key : PluginKey) : Option GroupId :=
  (s.allocations.find? fun row => row.1 = key).map Prod.snd

/-- Somebody holds the allocation strongly: the map, a removal or a release in progress. -/
def groupAlive (s : Root) (group : GroupId) : Bool :=
  (s.allocations.any fun row => row.2 = group) || group ∈ s.detachedGroups ||
    group ∈ s.upgradedClaims

/-! ## Registration -/

end Root

end Runtime
end CordisCore
