import CordisCore.Events.Failure
import CordisCore.Fiber.System
import CordisCore.Interleaving.History

/-!
# Update control — hooks, the precommit chain and the update that runs it

The lifecycle machine leaves open what awaited control decides.  Here the store
of update hooks is added next to the Runtime, and `update` runs the real chain.
-/

namespace CordisCore
namespace Update

open Interleaving
open CordisCore.Events (ListenerRegistrationId InvocationFailure)
open CordisCore.Runtime (FiberId PluginKey PluginFailure FiberState SettleCtx)

/-! ## Changes and failures -/

/-- One typed input value. -/
abbrev Value := Nat

/-- The `reached` flag of one control. -/
abbrev ControlId := Nat

/-- One Plugin contract with an input sealed under it. -/
structure PreparedChange where
  contract : PluginKey
  input : Value
  deriving DecidableEq

/-! ## What user callbacks do -/

/-- The error of a callback: a failure passed on, or any other error. -/
inductive CallbackError where
  | failure (failure : InvocationFailure)
  | other (diagnostic : String)
  deriving DecidableEq

/-- `normalize_returned`. -/
def CallbackError.normalize : CallbackError → InvocationFailure
  | .failure inner => inner
  | .other diagnostic => .returned diagnostic

/-- How a callback ends, at call time or while its future is polled. -/
inductive CallbackEnd where
  | returned (result : Except CallbackError Value)
  | panicked (message : String)
  deriving DecidableEq

/-- `reseal` what was returned, normalize what failed. -/
def CallbackEnd.outcome (contract : PluginKey) :
    CallbackEnd → Except InvocationFailure PreparedChange
  | returned (.ok input) => .ok { contract := contract, input := input }
  | returned (.error error) => .error error.normalize
  | panicked message => .error (.panic message)

/-- What an Around callback does with its consuming continuation. -/
inductive AroundBehaviour where
  /-- It drops the continuation. -/
  | finishes (result : CallbackEnd)
  /-- It awaits the rest of the chain and goes on with its result. -/
  | calls (input : Value) (resume : Except InvocationFailure Value → CallbackEnd)
  /-- It lets another task drive the rest, or gives it up half-way. -/
  | spawns (input : Value) (result : CallbackEnd)

/-- What every callback does in every control. -/
structure Policy where
  mapper : ListenerRegistrationId → ControlId → Value → CallbackEnd
  around : ListenerRegistrationId → ControlId → Value → AroundBehaviour

/-! ## The store -/

inductive UpdateKind where
  | mapper
  | around
  deriving DecidableEq

/-- A `ScopeNode`: the nodes from it up to the outermost scope. -/
abbrev ScopeNode := List Nat

/-- The registration scope is the dispatch scope or one around it. -/
def ScopeNode.reaches (dispatch registration : ScopeNode) : Bool :=
  registration.isSuffixOf dispatch

structure UpdateHook where
  id : ListenerRegistrationId
  prepend : Bool
  isGlobal : Bool
  scope : Option ScopeNode
  once : Bool
  kind : UpdateKind
  deriving DecidableEq

structure UpdateSnap where
  id : ListenerRegistrationId
  kind : UpdateKind
  deriving DecidableEq

/-- `UpdateState`. -/
abbrev Hooks := PluginKey → List UpdateHook

namespace Hooks

def put (hooks : Hooks) (contract : PluginKey) (list : List UpdateHook) : Hooks :=
  fun other => if other = contract then list else hooks other

def add (hooks : Hooks) (contract : PluginKey) (hook : UpdateHook) : Hooks :=
  hooks.put contract (if hook.prepend then hook :: hooks contract else hooks contract ++ [hook])

/-- Take the first occurrence of this id out. -/
def without (hooks : Hooks) (contract : PluginKey) (id : ListenerRegistrationId) : Hooks :=
  hooks.put contract ((hooks contract).eraseP fun hook => hook.id = id)

def find (hooks : Hooks) (contract : PluginKey) (id : ListenerRegistrationId) :
    Option UpdateHook :=
  (hooks contract).find? fun hook => hook.id = id

def remove (hooks : Hooks) (contract : PluginKey) (id : ListenerRegistrationId) : Hooks × Bool :=
  match hooks.find contract id with
  | none => (hooks, false)
  | some _ => (hooks.without contract id, true)

/-- A hook that is gone is not claimed; a once hook is gone afterwards. -/
def claim (hooks : Hooks) (contract : PluginKey) (id : ListenerRegistrationId) : Hooks × Bool :=
  match hooks.find contract id with
  | none => (hooks, false)
  | some hook => (if hook.once then hooks.without contract id else hooks, true)

/-- The hook is global, or the target's scope reaches its own. -/
def matching (target : Option ScopeNode) (hook : UpdateHook) : Bool :=
  hook.isGlobal ||
    match hook.scope, target with
    | none, _ => true
    | some _, none => false
    | some registration, some dispatch => ScopeNode.reaches dispatch registration

def snapshot (hooks : Hooks) (contract : PluginKey) (target : Option ScopeNode) :
    List UpdateSnap :=
  ((hooks contract).filter (matching target)).map fun hook => { id := hook.id, kind := hook.kind }

end Hooks

/-! ## Operations -/

/-- What a party can be asked to run. -/
inductive Routine where
  | lifecycle (routine : Runtime.Routine)
  | update (ctx : SettleCtx) (f : FiberId) (target : Option ScopeNode) (change : PreparedChange)
  | chain (contract : PluginKey) (control : ControlId) (hooks : List UpdateSnap)
      (change : PreparedChange)
  | onUpdate (contract : PluginKey) (hook : UpdateHook)
  | remove (contract : PluginKey) (id : ListenerRegistrationId)

/-- Lifecycle operations, next to those of the hook store and of one control. -/
inductive Op where
  | lifecycle (op : Runtime.Op)
  | commit (f : FiberId) (change : PreparedChange)
  | add (contract : PluginKey) (hook : UpdateHook)
  | remove (contract : PluginKey) (id : ListenerRegistrationId)
  | snapshot (contract : PluginKey) (target : Option ScopeNode)
  | newReached
  | claim (contract : PluginKey) (id : ListenerRegistrationId)
  | callback (id : ListenerRegistrationId)
  | spawnChain (contract : PluginKey) (control : ControlId) (hooks : List UpdateSnap)
      (change : PreparedChange)
  | storeReached (control : ControlId)
  | loadReached (control : ControlId)

namespace Op

abbrev Ret : Op → Type
  | lifecycle op => op.Ret
  | remove _ _ => Bool
  | snapshot _ _ => List UpdateSnap
  | newReached => ControlId
  | claim _ _ => Bool
  | spawnChain _ _ _ _ => Party
  | loadReached _ => Bool
  | _ => Unit

/-- User callbacks are awaited like everything the lifecycle awaits. -/
def awaits : Op → Bool
  | lifecycle op => op.awaits
  | callback _ => true
  | _ => false

end Op

abbrev Prog := Program Op Op.Ret

abbrev perform (op : Op) : Prog op.Ret :=
  Program.perform op

/-- Lifecycle code as it is; the candidate, if there is one, is what it commits. -/
def lift (candidate : Option PreparedChange) {α : Type} : Runtime.Prog α → Prog α
  | .pure a => .pure a
  | .act op next =>
      match op, next, candidate with
      -- the commit of a lifted update carries the accepted candidate
      | .commitChange f, next, some change =>
          .act (.commit f change) fun r => lift candidate (next r)
      | op, next, _ => .act (.lifecycle op) fun r => lift candidate (next r)
  | .loop body start next =>
      .loop (fun g => lift candidate (body g)) start fun b => lift candidate (next b)

/-! ## The chain -/

abbrev ControlResult := Except InvocationFailure PreparedChange

/-- The failures of a layer are its own, unless an inner layer is named already. -/
def attributed (id : ListenerRegistrationId) (result : ControlResult) : ControlResult :=
  result.mapError (·.correlate id)

/-- Invoke one claimed hook, with the chain behind it as its continuation. -/
def invoke (policy : Policy) (contract : PluginKey) (control : ControlId) (hook : UpdateSnap)
    (rest : List UpdateSnap) (next : PreparedChange → Prog ControlResult)
    (change : PreparedChange) : Prog ControlResult := do
  perform (.callback hook.id)
  match hook.kind with
  | .mapper =>
      match (policy.mapper hook.id control change.input).outcome contract with
      | .ok change => next change
      | .error failure => pure (.error failure)
  | .around =>
      match policy.around hook.id control change.input with
      | .finishes result => pure (result.outcome contract)
      | .calls input resume => do
          let downstream ← next { contract := contract, input := input }
          -- the callback goes on when its continuation has answered
          perform (.callback hook.id)
          pure ((resume (downstream.map (·.input))).outcome contract)
      | .spawns input result => do
          -- the continuation runs on a task of its own and its answer is not awaited
          let _ ← perform (.spawnChain contract control rest { contract := contract, input := input })
          pure (result.outcome contract)

/-- `run_chain`: claim and invoke the hooks from here on. -/
def runChain (policy : Policy) (contract : PluginKey) (control : ControlId) :
    List UpdateSnap → PreparedChange → Prog ControlResult
  | [], change => do
      -- the tail: every hook that was reached called its continuation
      perform (.storeReached control)
      pure (.ok change)
  | hook :: rest, change => do
      if ← perform (.claim contract hook.id) then do
        let result ← invoke policy contract control hook rest
          (runChain policy contract control rest) change
        pure (attributed hook.id result)
      -- removed since the snapshot
      else runChain policy contract control rest change

/-- `control`: the output of the chain, if its tail was reached. -/
def control (policy : Policy) (contract : PluginKey) (target : Option ScopeNode)
    (change : PreparedChange) : Prog (Except InvocationFailure (Option PreparedChange)) := do
  let hooks ← perform (.snapshot contract target)
  let id ← perform .newReached
  match ← runChain policy contract id hooks change with
  | .error failure => pure (.error failure)
  | .ok output => do
      -- an answer without a reached tail is a veto
      let reached ← perform (.loadReached id)
      pure (.ok (if reached then some output else none))

/-! ## Update -/

inductive UpdateError where
  | control (failure : InvocationFailure)
  | refused (error : Runtime.UpdateError)
  deriving DecidableEq

abbrev UpdateResult := Except UpdateError Runtime.UpdateOutcome

/-- Past control: the accepted candidate is committed under the slot. -/
def commitAccepted (f : FiberId) (accepted : PreparedChange) : Prog UpdateResult := do
  match ← lift (some accepted) (Runtime.updatePass f) with
  | .ok state => pure (.ok (.committed state))
  | .error refusal => pure (.error (.refused refusal))

/-- `FiberHandle::update`. -/
def update (policy : Policy) (ctx : SettleCtx) (f : FiberId) (target : Option ScopeNode)
    (change : PreparedChange) : Prog UpdateResult := do
  if ← perform (.lifecycle (.refuseRecursion ctx f .update)) then
    pure (.error (.refused .recursion))
  else do
    if ← perform (.lifecycle (.on f (.load .alive))) then do
      let contract ← perform (.lifecycle (.on f .contract))
      if contract ≠ some change.contract then
        pure (.error (.refused .pluginContractMismatch))
      else do
        match ← control policy change.contract target change with
        | .error failure => pure (.error (.control failure))
        -- nothing of the Fiber was touched yet
        | .ok none => pure (.ok .vetoed)
        | .ok (some accepted) => commitAccepted f accepted
    else pure (.error (.refused .closed))

/-! ## The machine -/

/-- The Runtime, its hooks and the controls in progress. -/
structure Updating where
  root : Runtime.Root
  hooks : Hooks := fun _ => []
  reached : ControlId → Bool := fun _ => false
  nextControl : Nat := 0
  /-- The candidate behind each committed input. -/
  inputs : Runtime.Input → Option PreparedChange := fun _ => none

namespace Updating

def move (s : Updating) (root : Runtime.Root) : Updating :=
  { s with root := root }

/-- The next committed input is this candidate. -/
def note (s : Updating) (change : PreparedChange) : Updating :=
  { s with inputs := fun input =>
      if input = s.root.nextInput then some change else s.inputs input }

/-- The candidate that is a Fiber's committed input. -/
def inputOf (s : Updating) (f : FiberId) : Option PreparedChange :=
  (s.root.fibers f).effectiveInput.bind s.inputs

end Updating

inductive Answer where
  | gone
  | lifecycle (answer : Runtime.Answer)
  | updated (f : FiberId) (result : UpdateResult)
  | chained (result : ControlResult)
  | added
  | removed (won : Bool)

def exec (self fresh : Party) (choice : Runtime.Choice) :
    (op : Op) → Updating → Option (Updating × op.Ret)
  | .lifecycle op, s =>
      (Runtime.execAllocated self fresh choice op s.root).map fun out => (s.move out.1, out.2)
  | .commit f change, s =>
      (Runtime.execAllocated self fresh choice (.commitChange f) s.root).map fun out =>
        ((s.note change).move out.1, ())
  | .add contract hook, s => some ({ s with hooks := s.hooks.add contract hook }, ())
  | .remove contract id, s =>
      let out := s.hooks.remove contract id
      some ({ s with hooks := out.1 }, out.2)
  | .snapshot contract target, s => some (s, s.hooks.snapshot contract target)
  | .newReached, s => some ({ s with nextControl := s.nextControl + 1 }, s.nextControl)
  | .claim contract id, s =>
      let out := s.hooks.claim contract id
      some ({ s with hooks := out.1 }, out.2)
  | .callback _, s => some (s, ())
  | .spawnChain _ _ _ _, s => some (s, fresh)
  | .storeReached control, s =>
      some ({ s with reached := fun other => if other = control then true else s.reached other },
        ())
  | .loadReached control, s => some (s, s.reached control)

def forks : Op → Option Routine
  | .lifecycle op => (Runtime.forks op).map .lifecycle
  | .spawnChain contract control hooks change => some (.chain contract control hooks change)
  | _ => none

def body (policy : Policy) : Routine → Prog Answer
  | .lifecycle routine => do
      let answer ← lift none (Runtime.body routine)
      pure (.lifecycle answer)
  | .update ctx f target change => do
      let result ← update policy ctx f target change
      pure (.updated f result)
  | .chain contract control hooks change => do
      let result ← runChain policy contract control hooks change
      pure (.chained result)
  | .onUpdate contract hook => do
      perform (.add contract hook)
      pure .added
  | .remove contract id => do
      let won ← perform (.remove contract id)
      pure (.removed won)

/-- Outside updates go through control; all other calls are those of the lifecycle. -/
def enter (self : Party) : Routine → Updating → Option Updating
  | .lifecycle (.update _ _ _), _ | .chain _ _ _ _, _ => none
  | .lifecycle routine, s => (Runtime.enter self routine s.root).map s.move
  | .update ctx f _ change, s =>
      (Runtime.enter self (.update ctx f { contract := change.contract }) s.root).map s.move
  | .onUpdate _ _, s | .remove _ _, s => some s

/-- The lifecycle core with its update hooks. -/
def updating (policy : Policy) :
    Machine Updating Op Op.Ret Routine Runtime.Choice Answer where
  init := { root := Runtime.Root.new }
  exec := exec
  forks := forks
  awaits := Op.awaits
  dropped self s :=
    (Runtime.dropped self s.root).map fun out => (s.move out.1, out.2.map .lifecycle)
  gone := .gone
  body := body policy
  enter := enter

end Update
end CordisCore
