import CordisCore.Events.Store
import CordisCore.Interleaving.Past
import CordisCore.Interleaving.Paths

/-!
# Dispatch — registration, removal and the four dispatch operations

Payloads are erased; a dispatch is a program over the accesses to the store, the
calls of user callbacks and what these come to.  What a callback does to the
store meanwhile is done by other parties.
-/

namespace CordisCore
namespace Events

open Interleaving
open Axes (ScopeNode)

/-- A fiber that owns registrations. -/
abbrev FiberId := Nat

/-- One occurrence in a cleanup journal. -/
abbrev DisposableToken := Nat

/-! ## Observations -/

inductive ListenerChange where
  | registered
  | unregistered
  deriving DecidableEq

structure ListenerObservationMeta where
  id : ListenerRegistrationId
  event : String
  role : ListenerRole
  scope : List ScopeNode
  options : ListenerOptions
  deriving DecidableEq

inductive DispatchOutcomeKind where
  | completed
  | answered
  | missed
  | failed
  deriving DecidableEq

inductive RuntimeObservation where
  | listenerRegistration (change : ListenerChange) (listener : ListenerObservationMeta)
  | dispatchCompleted (operation : EventOperation) (event : String) (routing : Routing)
      (outcome : DispatchOutcomeKind)
  deriving DecidableEq

/-! ## Callbacks -/

/-- What a callback of this role returns. -/
def ListenerRole.Value (V : Type) : ListenerRole → Type
  | .observer => Unit
  | .responder => Option V
  | .mapper => V
  | .around => V

inductive CallbackValue (V : Type) where
  | observer
  | responder (answer : Option V)
  | mapper (mapped : V)

/-- The adapter of a plain callback; none is built for an Around. -/
def adapt {V : Type} : (role : ListenerRole) → role.Value V → CallbackValue V
  | .observer, _ => .observer
  | .responder, answer => .responder answer
  | .mapper, mapped => .mapper mapped
  | .around, mapped => .mapper mapped

/-- How one callback ends. -/
inductive Ending (α : Type) where
  | returned (value : α)
  /-- An error, with its `Display` text. -/
  | error (diagnostic : String)
  /-- An error that is the failure of some other dispatch. -/
  | carried (failure : InvocationFailure)
  | panicked (diagnostic : String)

/-- `normalize_returned` and the panic boundary. -/
def Ending.outcome {α : Type} : Ending α → Except InvocationFailure α
  | returned value => .ok value
  | error diagnostic => .error (.returned diagnostic)
  | carried failure => .error failure
  | panicked diagnostic => .error (.panic diagnostic)

/-- What the destructors say: the one of the callback, then the one of an output it discards. -/
structure Drops where
  callback : Option String := none
  output : Option String := none

def dropCallbackContained {α : Type} (drops : Drops) (outcome : Except InvocationFailure α) :
    Except InvocationFailure α :=
  match drops.callback with
  | none => outcome
  | some diagnostic =>
      match outcome with
      -- a panicking destructor turns the success into a failure
      | .ok _ =>
          .error (.panic (match drops.output with
            | none => diagnostic
            | some secondary =>
                diagnostic ++ "; listener output destruction panicked: " ++ secondary))
      -- the failure of the callback stays, the destructor only adds to its text
      | .error failure =>
          .error ((failure.pushStr "; listener destruction panicked: ").pushStr diagnostic)

structure Finish (α : Type) where
  ending : Ending α
  drops : Drops := {}

def Finish.outcome {α : Type} (finish : Finish α) : Except InvocationFailure α :=
  dropCallbackContained finish.drops finish.ending.outcome

/-- What an Around does first: it calls its continuation, or ends without it. -/
inductive Move (V : Type) where
  | calls (args : V)
  | ends (finish : Finish V)

/-- How the tail ends. -/
inductive TailEnding (V : Type) where
  | returned (output : V)
  | error (diagnostic : String)
  | panicked (diagnostic : String)

def TailEnding.outcome {V : Type} : TailEnding V → Except InvocationFailure V
  | returned output => .ok output
  | error diagnostic => .error (.returned diagnostic)
  | panicked diagnostic => .error (.panic diagnostic)

def mapErr {α β γ : Type} (f : β → γ) : Except β α → Except γ α
  | .ok a => .ok a
  | .error b => .error (f b)

/-- `map_err` with the identity of the hook that was invoked. -/
def correlated {α : Type} (registration : ListenerRegistrationId)
    (outcome : Except InvocationFailure α) : Except InvocationFailure α :=
  mapErr (fun failure => failure.correlate registration) outcome

/-! ## Operations -/

inductive ListenerRegistrationError where
  | inactiveContext
  | eventContractMismatch (event : String)
  deriving DecidableEq

/-- The exact occurrence behind a `ListenerRegistration`. -/
structure ListenerRegistration where
  listener : ListenerObservationMeta
  owner : FiberId
  cleanup : DisposableToken
  deriving DecidableEq

inductive Op (V : Type) where
  | preflight (E : Event) (routing : Routing) (operation : EventOperation)
  | claim (event : String) (id : ListenerRegistrationId)
  | publish (record : RuntimeObservation)
  /-- Invoke the callback of a claimed hook. -/
  | call (hook : HookSnap) (payload : V)
  /-- Await a plain callback. -/
  | ended (hook : HookSnap)
  /-- Await an Around, up to its continuation. -/
  | moved (hook : HookSnap)
  /-- Await an Around whose continuation is over. -/
  | resumed (hook : HookSnap)
  /-- Invoke the tail of a waterfall. -/
  | tail (payload : V)
  | tailEnded
  /-- Destroy snapshots, and the tail where they are a continuation; the panics that says. -/
  | discard (hooks : List HookSnap)
  /-- A branch that `unreachable!` marks. -/
  | unreachable
  /-- `push_gated` with a fresh identity. -/
  | pushGated (owner : FiberId) (E : Event) (scope : List ScopeNode) (kind : HookKind)
      (options : ListenerOptions)
  | remove (event : String) (id : ListenerRegistrationId)
  | removeDisposable (owner : FiberId) (token : DisposableToken)
  | tokens (owner : FiberId)
  /-- The caller of `register_listener` holds this registration from now on. -/
  | deliver (registration : ListenerRegistration)
  /-- Await the report of one drained cleanup. -/
  | reported
  /-- The generation of a fiber opens or closes. -/
  | setGate (owner : FiberId) (isOpen : Bool)

def Op.Ret {V : Type} : Op V → Type
  | preflight _ _ _ => Except DispatchError (List HookSnap)
  | claim _ _ => Bool × Bool
  | publish _ => Unit
  | call _ _ => Unit
  | ended hook => Finish (hook.kind.role.Value V)
  | moved _ => Move V
  | resumed _ => Except InvocationFailure V → Finish V
  | tail _ => Unit
  | tailEnded => TailEnding V
  | discard _ => List String
  | unreachable => Empty
  | pushGated _ _ _ _ _ =>
      Except ListenerRegistrationError (ListenerRegistrationId × DisposableToken)
  | remove _ _ => Bool
  | removeDisposable _ _ => Option ListenerObservationMeta
  | tokens _ => List DisposableToken
  | deliver _ => Unit
  | reported => Unit
  | setGate _ _ => Unit

abbrev Prog (V : Type) := Program (Op V) Op.Ret

variable {V : Type}

def perform (op : Op V) : Prog V op.Ret :=
  Program.perform op

/-- Nothing comes after `unreachable!`. -/
def unreachable {α : Type} : Prog V α := do
  let never ← perform .unreachable
  nomatch (show Empty from never)

/-! ## Registration and removal -/

/-- `into_hook`: an Around has a representation of its own. -/
def intoHook : ListenerRole → HookKind
  | .around => .around
  | role => .plain role

/-- `Context::register_listener` on a Context with this fiber and Scope chain. -/
def registerListener (owner : FiberId) (scope : List ScopeNode) (E : Event) (role : ListenerRole)
    (options : ListenerOptions) : Prog V (Except ListenerRegistrationError ListenerRegistration) := do
  let kind := intoHook role
  match ← perform (.pushGated owner E scope kind options) with
  | .error error => pure (.error error)
  | .ok (id, token) => do
      let listener : ListenerObservationMeta :=
        { id := id, event := E.NAME, role := kind.role, scope := scope, options := options }
      let registration : ListenerRegistration :=
        { listener := listener, owner := owner, cleanup := token }
      -- observed after the journal lock is free
      perform (.publish (.listenerRegistration .registered listener))
      perform (.deliver registration)
      pure (.ok registration)

/-- The removal that a registration and its cleanup share. -/
def removeListener (listener : ListenerObservationMeta) : Prog V Bool := do
  match ← perform (.remove listener.event listener.id) with
  | true => do
      perform (.publish (.listenerRegistration .unregistered listener))
      pure true
  | false => pure false

/-- `ListenerRegistration::remove`. -/
def removeRegistration (registration : ListenerRegistration) : Prog V Bool := do
  let removed ← removeListener registration.listener
  let _ ← perform (.removeDisposable registration.owner registration.cleanup)
  pure removed

/-- `run_tokens_contained` over the reversed tokens. -/
def runTokens (owner : FiberId) : List DisposableToken → Prog V Unit
  | [] => pure ()
  | token :: tokens => do
      match ← perform (.removeDisposable owner token) with
      | some listener => do
          let _ ← removeListener listener
          perform .reported
          runTokens owner tokens
      -- a removal took the cleanup first
      | none => runTokens owner tokens

def drainDisposables (owner : FiberId) : Prog V Unit := do
  let tokens ← perform (.tokens owner)
  runTokens owner tokens.reverse

/-! ## Dispatch -/

def claimHook (event : String) (hook : HookSnap) : Prog V Bool := do
  let (claimed, unregistered) ← perform (.claim event hook.id)
  -- a once hook leaves the store with its claim
  if unregistered then do
    let listener : ListenerObservationMeta :=
      { id := hook.id, event := event, role := hook.kind.role, scope := hook.scope
        options := hook.options }
    perform (.publish (.listenerRegistration .unregistered listener))
    pure claimed
  else pure claimed

/-- `Context::preflight` of the Runtime with this membership. -/
def preflight (membership : Nat) (E : Event) (routing : Routing) (operation : EventOperation) :
    Prog V (Except DispatchError (List HookSnap)) :=
  match routing with
  | .scoped scope =>
      if scope.membership = membership then perform (.preflight E routing operation)
      else pure (.error .foreignScope)
  | .unscoped => perform (.preflight E routing operation)

def invokePlain (hook : HookSnap) (payload : V) :
    Prog V (Except InvocationFailure (hook.kind.role.Value V)) := do
  perform (.call hook payload)
  let finish ← perform (.ended hook)
  pure finish.outcome

def invokeListener (hook : HookSnap) (payload : V) :
    Prog V (Except InvocationFailure (hook.kind.role.Value V)) := do
  let outcome ← invokePlain hook payload
  pure (correlated hook.id outcome)

def invokeAround (hook : HookSnap) (payload : V)
    (next : V → Prog V (Except InvocationFailure V)) : Prog V (Except InvocationFailure V) := do
  perform (.call hook payload)
  match ← perform (.moved hook) with
  | .ends finish => pure finish.outcome
  | .calls args => do
      -- whatever the rest of the chain gives, the callback goes on with it
      let downstream ← next args
      let resume ← perform (.resumed hook)
      pure (resume downstream).outcome

def dropUnclaimedHooks (hooks : List HookSnap) : Prog V Unit := do
  let _ ← perform (.discard hooks)
  pure ()

/-- The loop of `emit_inner`. -/
def emitHooks (event : String) (args : V) : List HookSnap → Prog V (Except DispatchError Unit)
  | [] => pure (.ok ())
  | hook :: hooks => do
      if ← claimHook event hook then
        match hook.kind with
        -- the preflight refused this role
        | .around => unreachable
        | .plain _ => do
            match ← invokeListener hook args with
            | .error failure => do
                -- the first failure ends the dispatch; nothing behind it is claimed
                dropUnclaimedHooks hooks
                pure (.error (.invocation failure))
            | .ok _ => emitHooks event args hooks
      else do
        -- removed since the snapshot: skipped
        dropUnclaimedHooks [hook]
        emitHooks event args hooks

def emitInner (membership : Nat) (E : Event) (routing : Routing) (args : V) :
    Prog V (Except DispatchError Unit) := do
  match ← preflight membership E routing .emit with
  | .error error => pure (.error error)
  | .ok hooks => emitHooks E.NAME args hooks

/-- The claims of `emit_parallel_inner`. -/
def claimHooks (event : String) : List HookSnap → Prog V (List HookSnap)
  | [] => pure []
  | hook :: hooks => do
      if ← claimHook event hook then do
        let claimed ← claimHooks event hooks
        pure (hook :: claimed)
      else do
        dropUnclaimedHooks [hook]
        claimHooks event hooks

/-- The first poll of `join_all`. -/
def callHooks (args : V) : List HookSnap → Prog V Unit
  | [] => pure ()
  | hook :: hooks =>
      match hook.kind with
      | .around => unreachable
      | .plain _ => do
          perform (.call hook args)
          callHooks args hooks

/-- The failures among what `join_all` returns, in the order of its futures. -/
def awaitHooks : List HookSnap → Prog V (List InvocationFailure)
  | [] => pure []
  | hook :: hooks => do
      let finish ← perform (.ended hook)
      -- every call is awaited, whatever the others came to
      let failures ← awaitHooks hooks
      match correlated hook.id finish.outcome with
      | .ok _ => pure failures
      | .error failure => pure (failure :: failures)

def emitParallelInner (membership : Nat) (E : Event) (routing : Routing) (args : V) :
    Prog V (Except DispatchError Unit) := do
  match ← preflight membership E routing .emitParallel with
  | .error error => pure (.error error)
  | .ok hooks => do
      -- all claims come before the first call
      let claimed ← claimHooks E.NAME hooks
      callHooks args claimed
      let failures ← awaitHooks claimed
      if failures.isEmpty then pure (.ok ()) else pure (.error (.parallel failures))

inductive QueryOutcome (V : Type) where
  | miss
  | answer (output : V)

/-- The loop of `query_inner`. -/
def queryHooks (event : String) (args : V) :
    List HookSnap → Prog V (Except DispatchError (QueryOutcome V))
  | [] => pure (.ok .miss)
  | hook :: hooks => do
      if ← claimHook event hook then
        match hook.kind with
        | .around => unreachable
        | .plain role => do
            match ← invokeListener hook args with
            | .error failure => do
                dropUnclaimedHooks hooks
                pure (.error (.invocation failure))
            | .ok value =>
                match role, adapt hook.kind.role value with
                | .observer, .observer => queryHooks event args hooks
                | .responder, .responder none => queryHooks event args hooks
                -- the first answer wins
                | .responder, .responder (some output) => do
                    dropUnclaimedHooks hooks
                    pure (.ok (.answer output))
                | _, _ => unreachable
      else do
        dropUnclaimedHooks [hook]
        queryHooks event args hooks

def queryInner (membership : Nat) (E : Event) (routing : Routing) (args : V) :
    Prog V (Except DispatchError (QueryOutcome V)) := do
  match ← preflight membership E routing .query with
  | .error error => pure (.error error)
  | .ok hooks => queryHooks E.NAME args hooks

/-! ## Waterfall -/

/-- The continuation that ends a waterfall. -/
def waterfallTail (payload : V) : Prog V (Except InvocationFailure V) := do
  perform (.tail payload)
  let ending ← perform .tailEnded
  pure ending.outcome

/-- The text of a Mapper failure whose uncalled continuation said these things. -/
def InvocationFailure.withUncalled (failure : InvocationFailure) (diagnostics : List String) :
    InvocationFailure :=
  diagnostics.foldl (fun failure diagnostic =>
    (failure.pushStr "; uncalled waterfall continuation destruction panicked: ").pushStr diagnostic)
    failure

/-- The continuation in front of one hook; `uncalled` are the hooks of `downstream`. -/
def waterfallHook (event : String) (hook : HookSnap) (uncalled : List HookSnap)
    (downstream : V → Prog V (Except InvocationFailure V)) (payload : V) :
    Prog V (Except InvocationFailure V) := do
  if ← claimHook event hook then
    match hook.kind with
    | .plain _ => do
        let outcome ← invokePlain hook payload
        match correlated hook.id outcome with
        | .ok value =>
            match adapt hook.kind.role value with
            | .mapper mapped => downstream mapped
            | _ => unreachable
        | .error failure => do
            -- the continuation is dropped uncalled, with the hooks it holds
            let diagnostics ← perform (.discard uncalled)
            pure (.error (failure.withUncalled diagnostics))
    | .around => do
        let outcome ← invokeAround hook payload downstream
        -- a failure without an identity gets this one, wherever it came from
        pure (correlated hook.id outcome)
  else do
    -- removed since the snapshot: the chain goes on without it
    dropUnclaimedHooks [hook]
    downstream payload

/-- The chain that the reversed loop builds, with the hooks it holds. -/
def waterfallChain (event : String) (hooks : List HookSnap) :
    List HookSnap × (V → Prog V (Except InvocationFailure V)) :=
  hooks.reverse.foldl
    (fun next hook => (hook :: next.1, waterfallHook event hook next.1 next.2))
    ([], waterfallTail)

def waterfallInner (membership : Nat) (E : Event) (routing : Routing) (args : V) :
    Prog V (Except DispatchError V) := do
  match ← preflight membership E routing .waterfall with
  | .error error => do
      let _ ← perform (.discard [])
      pure (.error error)
  | .ok hooks => do
      let outcome ← (waterfallChain E.NAME hooks).2 args
      pure (mapErr DispatchError.invocation outcome)

/-! ## Public operations -/

def completion {α : Type} : Except DispatchError α → DispatchOutcomeKind
  | .ok _ => .completed
  | .error _ => .failed

def queryCompletion : Except DispatchError (QueryOutcome V) → DispatchOutcomeKind
  | .ok (.answer _) => .answered
  | .ok .miss => .missed
  | .error _ => .failed

def emit (membership : Nat) (E : Event) (routing : Routing) (args : V) :
    Prog V (Except DispatchError Unit) := do
  let result ← emitInner membership E routing args
  perform (.publish (.dispatchCompleted .emit E.NAME routing (completion result)))
  pure result

def emitParallel (membership : Nat) (E : Event) (routing : Routing) (args : V) :
    Prog V (Except DispatchError Unit) := do
  let result ← emitParallelInner membership E routing args
  perform (.publish (.dispatchCompleted .emitParallel E.NAME routing (completion result)))
  pure result

def query (membership : Nat) (E : Event) (routing : Routing) (args : V) :
    Prog V (Except DispatchError (QueryOutcome V)) := do
  let result ← queryInner membership E routing args
  perform (.publish (.dispatchCompleted .query E.NAME routing (queryCompletion result)))
  pure result

def waterfall (membership : Nat) (E : Event) (routing : Routing) (args : V) :
    Prog V (Except DispatchError V) := do
  let result ← waterfallInner membership E routing args
  perform (.publish (.dispatchCompleted .waterfall E.NAME routing (completion result)))
  pure result

/-! ## The machine -/

inductive Routine (V : Type) where
  | emit (membership : Nat) (E : Event) (routing : Routing) (args : V)
  | emitParallel (membership : Nat) (E : Event) (routing : Routing) (args : V)
  | query (membership : Nat) (E : Event) (routing : Routing) (args : V)
  | waterfall (membership : Nat) (E : Event) (routing : Routing) (args : V)
  | registerListener (owner : FiberId) (scope : List ScopeNode) (E : Event) (role : ListenerRole)
      (options : ListenerOptions)
  | removeRegistration (registration : ListenerRegistration)
  | drainDisposables (owner : FiberId)
  | setGate (owner : FiberId) (isOpen : Bool)

inductive Answer (V : Type) where
  | emitted (result : Except DispatchError Unit)
  | queried (result : Except DispatchError (QueryOutcome V))
  | flowed (result : Except DispatchError V)
  | registered (result : Except ListenerRegistrationError ListenerRegistration)
  | removed (result : Bool)
  | drained
  | gated
  | dropped

/-- What user code does at one operation. -/
structure Choice (V : Type) where
  ended : (role : ListenerRole) → Finish (role.Value V)
  moved : Move V
  /-- What an Around makes of what its continuation gave it. -/
  resumed : Except InvocationFailure V → Finish V
  tailEnded : TailEnding V
  discarded : List String := []

/-- The journal of one fiber and whether its generation is open. -/
structure DisposableList where
  isOpen : Bool := false
  sn : Nat := 0
  map : List (DisposableToken × ListenerObservationMeta) := []

structure Shared where
  events : EventState := {}
  /-- The identities allocated so far. -/
  ids : Nat := 0
  journals : FiberId → DisposableList := fun _ => {}
  /-- The registrations that somebody still holds. -/
  registrations : List ListenerRegistration := []
  /-- The records handed to the hub, the latest first. -/
  records : List RuntimeObservation := []

namespace Shared

def setJournal (s : Shared) (owner : FiberId) (list : DisposableList) : Shared :=
  { s with journals := fun other => if other = owner then list else s.journals other }

/-- `push_gated` of a listener, one critical section. -/
def pushGated (s : Shared) (owner : FiberId) (E : Event) (scope : List ScopeNode)
    (kind : HookKind) (options : ListenerOptions) :
    Shared × Except ListenerRegistrationError (ListenerRegistrationId × DisposableToken) :=
  let list := s.journals owner
  if list.isOpen then
    -- the contract is judged beneath the journal lock; the identity is spent only on success
    match s.events.addReserved E (Hook.new scope kind options s.ids) with
    | none => (s, .error (.eventContractMismatch E.NAME))
    | some events =>
        let listener : ListenerObservationMeta :=
          { id := s.ids, event := E.NAME, role := kind.role, scope := scope, options := options }
        let token := list.sn + 1
        ({ s with events := events, ids := s.ids + 1 }.setJournal owner
            { list with sn := token, map := list.map ++ [(token, listener)] },
          .ok (s.ids, token))
  else (s, .error .inactiveContext)

/-- `remove_disposable`. -/
def removeDisposable (s : Shared) (owner : FiberId) (token : DisposableToken) :
    Shared × Option ListenerObservationMeta :=
  let list := s.journals owner
  (s.setJournal owner { list with map := list.map.filter fun row => row.1 != token },
    list.map.lookup token)

end Shared

def exec (choice : Choice V) : (op : Op V) → Shared → Option (Shared × op.Ret)
  | .preflight E routing operation, s =>
      let out := s.events.preflight E routing operation
      some ({ s with events := out.1 }, out.2)
  | .claim event id, s =>
      let out := s.events.claim event id
      some ({ s with events := out.1 }, out.2)
  | .publish record, s => some ({ s with records := record :: s.records }, ())
  | .call _ _, s => some (s, ())
  | .ended hook, s => some (s, choice.ended hook.kind.role)
  | .moved _, s => some (s, choice.moved)
  | .resumed _, s => some (s, choice.resumed)
  | .tail _, s => some (s, ())
  | .tailEnded, s => some (s, choice.tailEnded)
  | .discard _, s => some (s, choice.discarded)
  | .unreachable, _ => none
  | .pushGated owner E scope kind options, s => some (s.pushGated owner E scope kind options)
  | .remove event id, s =>
      let out := s.events.remove event id
      some ({ s with events := out.1 }, out.2)
  | .removeDisposable owner token, s => some (s.removeDisposable owner token)
  | .tokens owner, s => some (s, (s.journals owner).map.map Prod.fst)
  | .deliver registration, s =>
      some ({ s with registrations := registration :: s.registrations }, ())
  | .reported, s => some (s, ())
  | .setGate owner isOpen, s =>
      some (s.setJournal owner { s.journals owner with isOpen := isOpen }, ())

/-- Where a party waits and can be dropped. -/
def awaits : Op V → Bool
  | .ended _ => true
  | .moved _ => true
  | .resumed _ => true
  | .tailEnded => true
  | .reported => true
  | _ => false

def machine (V : Type) : Machine Shared (Op V) Op.Ret (Routine V) (Choice V) (Answer V) where
  init := {}
  exec _ _ choice op s := exec choice op s
  forks _ := none
  awaits := awaits
  dropped _ s := some (s, none)
  gone := .dropped
  body
    | .emit membership E routing args => Answer.emitted <$> emit membership E routing args
    | .emitParallel membership E routing args =>
        Answer.emitted <$> emitParallel membership E routing args
    | .query membership E routing args => Answer.queried <$> query membership E routing args
    | .waterfall membership E routing args => Answer.flowed <$> waterfall membership E routing args
    | .registerListener owner scope E role options =>
        Answer.registered <$> registerListener owner scope E role options
    | .removeRegistration registration => Answer.removed <$> removeRegistration registration
    | .drainDisposables owner => (fun _ => Answer.drained) <$> drainDisposables owner
    | .setGate owner isOpen => (fun _ => Answer.gated) <$> perform (.setGate owner isOpen)
  -- a registration is move-only: whoever removes it gives it up
  enter _ routine s :=
    match routine with
    | .removeRegistration registration =>
        if registration ∈ s.registrations then
          some { s with registrations := s.registrations.erase registration }
        else none
    | _ => some s

end Events
end CordisCore
