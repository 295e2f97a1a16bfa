import CordisCore.Forest.Preorder
import CordisCore.Scanning.Repetition

/-!
# Plans — declarations of one lineage, validated and frozen

A builder admits declarations whose parents it admitted before.  A finished plan
keeps what the builder guarantees, so that its nodes form a forest in which every
parent stands before its children.
-/

namespace CordisCore
namespace Loader

open Scanning (firstRepeated)

/-! ## Declarations -/

/-- One JSON value; only a resolver looks into it. -/
abbrev Value := Nat

/-- The addresses of one `Lineage` and of one `Occurrence`. -/
structure EntryId where
  lineage : Nat
  occurrence : Nat
  deriving DecidableEq

def EntryId.belongsTo (id : EntryId) (lineage : Nat) : Bool :=
  id.lineage == lineage

/-- A row with a configuration of this type. -/
inductive InjectEntry (Config : Type) where
  | required (service : String)
  | configured (service : String) (config : Config)
  deriving DecidableEq

def InjectEntry.service {Config : Type} : InjectEntry Config → String
  | required service => service
  | configured service _ => service

/-- `Private` or `Shared`. -/
inductive RealmPolicy where
  | privately
  | shared (label : String)
  deriving DecidableEq

structure IsolateEntry where
  service : String
  policy : RealmPolicy
  deriving DecidableEq

structure PluginEntry where
  key : Option String := none
  name : Option String := none
  config : Value
  disabled : Bool := false
  inject : List (InjectEntry Value) := []
  isolate : List IsolateEntry := []
  deriving DecidableEq

/-- `key`, falling back to `name`. -/
def PluginEntry.resolveKey (entry : PluginEntry) : Option String :=
  entry.key.or entry.name

inductive PlanError where
  | foreignParent (parent : EntryId)
  | missingResolveIdentity (entry : EntryId)
  | duplicateInjectService (entry : EntryId) (service : String)
  | duplicateIsolateService (entry : EntryId) (service : String)
  deriving DecidableEq

inductive PlanEntry where
  | plugin (entry : PluginEntry)
  | group
  deriving DecidableEq

def PlanEntry.isParentCapable : PlanEntry → Bool
  | plugin _ => true
  | group => true

structure PlanNode where
  id : EntryId
  parent : Option EntryId
  entry : PlanEntry
  deriving DecidableEq

/-! ## Validation -/

def validatePlugin (id : EntryId) (entry : PluginEntry) : Except PlanError Unit :=
  if entry.key.isNone && entry.name.isNone then .error (.missingResolveIdentity id)
  else
    match firstRepeated [] (entry.inject.map InjectEntry.service) with
    -- the inject list is judged before the isolate list
    | some service => .error (.duplicateInjectService id service)
    | none =>
        match firstRepeated [] (entry.isolate.map IsolateEntry.service) with
        | some service => .error (.duplicateIsolateService id service)
        | none => .ok ()

/-- The test of one node against the parent-capable nodes before it. -/
def validateNode (lineage : Nat) (capable : List EntryId) (node : PlanNode) :
    Except PlanError Unit :=
  match node.parent, node.entry with
  | some parent, entry =>
      if !parent.belongsTo lineage || !capable.contains parent then
        .error (.foreignParent parent)
      else
        match entry with
        | .plugin entry => validatePlugin node.id entry
        | .group => .ok ()
  | none, .plugin entry => validatePlugin node.id entry
  | none, .group => .ok ()

/-- The loop of `validate_complete`. -/
def validateFrom (lineage : Nat) : List EntryId → List PlanNode → Except PlanError Unit
  | _, [] => .ok ()
  | capable, node :: nodes =>
      match validateNode lineage capable node with
      | .error error => .error error
      | .ok () =>
          validateFrom lineage
            (if node.entry.isParentCapable then node.id :: capable else capable) nodes

def validateComplete (lineage : Nat) (nodes : List PlanNode) : Except PlanError Unit :=
  validateFrom lineage [] nodes

/-! ## The builder -/

/-- One lineage; the identities of its occurrences are never given out twice. -/
structure LoadPlanBuilder where
  lineage : Nat
  /-- The occurrences allocated so far, also for rejected declarations. -/
  occurrences : Nat
  nodes : List PlanNode
  unique : (nodes.map PlanNode.id).Nodup
  allocated : ∀ node ∈ nodes, node.id.occurrence < occurrences

/-- A frozen plan. -/
structure LoadPlan where
  lineage : Nat
  nodes : List PlanNode
  unique : (nodes.map PlanNode.id).Nodup
  complete : validateComplete lineage nodes = .ok ()

namespace LoadPlanBuilder

def new (lineage : Nat) : LoadPlanBuilder :=
  { lineage := lineage, occurrences := 0, nodes := [], unique := .nil, allocated := nofun }

def validateParent (b : LoadPlanBuilder) : Option EntryId → Except PlanError Unit
  | none => .ok ()
  | some parent =>
      if parent.belongsTo b.lineage &&
          b.nodes.any fun node => node.id = parent && node.entry.isParentCapable then .ok ()
      else .error (.foreignParent parent)

/-- `EntryId::new`: a fresh occurrence of this lineage. -/
def freshId (b : LoadPlanBuilder) : EntryId :=
  { lineage := b.lineage, occurrence := b.occurrences }

/-- An allocated identity that no node carries. -/
def skip (b : LoadPlanBuilder) : LoadPlanBuilder :=
  { b with
    occurrences := b.occurrences + 1
    allocated := fun node hnode => Nat.lt_succ_of_lt (b.allocated node hnode) }

/-- The node that the next admitted declaration becomes. -/
def node (b : LoadPlanBuilder) (parent : Option EntryId) (entry : PlanEntry) : PlanNode :=
  { id := b.freshId, parent := parent, entry := entry }

theorem unique_push (b : LoadPlanBuilder) (parent : Option EntryId) (entry : PlanEntry) :
    ((b.nodes ++ [b.node parent entry]).map PlanNode.id).Nodup := by
  simp only [List.map_append, List.map_cons, List.map_nil]
  refine List.nodup_append.mpr ⟨b.unique, List.pairwise_singleton _ _, ?_⟩
  rintro id hid _ hnew rfl
  rcases List.mem_map.mp hid with ⟨node, hnode, heq⟩
  have hold := b.allocated node hnode
  rw [heq, List.mem_singleton.mp hnew] at hold
  exact Nat.lt_irrefl _ hold

def push (b : LoadPlanBuilder) (parent : Option EntryId) (entry : PlanEntry) :
    LoadPlanBuilder where
  lineage := b.lineage
  occurrences := b.occurrences + 1
  nodes := b.nodes ++ [b.node parent entry]
  unique := b.unique_push parent entry
  allocated := by
    intro node hnode
    rcases List.mem_append.mp hnode with hold | hnew
    · exact Nat.lt_succ_of_lt (b.allocated node hold)
    · rw [List.mem_singleton.mp hnew]
      exact Nat.lt_succ_self _

def addPlugin (b : LoadPlanBuilder) (parent : Option EntryId) (entry : PluginEntry) :
    LoadPlanBuilder × Except PlanError EntryId :=
  match b.validateParent parent with
  | .error error => (b, .error error)
  | .ok () =>
      match validatePlugin b.freshId entry with
      -- the identity is spent although nothing was added
      | .error error => (b.skip, .error error)
      | .ok () => (b.push parent (.plugin entry), .ok b.freshId)

def addGroup (b : LoadPlanBuilder) (parent : Option EntryId) :
    LoadPlanBuilder × Except PlanError EntryId :=
  match b.validateParent parent with
  | .error error => (b, .error error)
  | .ok () => (b.push parent .group, .ok b.freshId)

def finish (b : LoadPlanBuilder) : Except PlanError LoadPlan :=
  match h : validateComplete b.lineage b.nodes with
  | .error error => .error error
  | .ok () => .ok { lineage := b.lineage, nodes := b.nodes, unique := b.unique, complete := h }

end LoadPlanBuilder

/-! ## Execution order -/

/-- The indices of the nodes under this parent, in declaration order. -/
def childrenOf (nodes : List PlanNode) (parent : Option EntryId) : List Nat :=
  nodes.zipIdx.filterMap fun (node, index) => if node.parent = parent then some index else none

/-- The children of the node at an index. -/
def descendants (nodes : List PlanNode) (index : Nat) : List Nat :=
  match nodes[index]? with
  | some node => childrenOf nodes (some node.id)
  | none => []

/-- Pop an index off the stack, push its children; a round of the loop for every node. -/
def LoadPlan.executionOrder (plan : LoadPlan) : Option (List Nat) :=
  Forest.stackWalk (descendants plan.nodes) plan.nodes.length (childrenOf plan.nodes none) []

end Loader
end CordisCore
