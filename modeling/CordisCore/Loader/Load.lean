import CordisCore.Context.Axes
import CordisCore.Interleaving.Paths
import CordisCore.Loader.Plan
import CordisCore.Runtime.Types

/-!
# Loading — one partial execution of a plan, and its abandonment

A load keeps what it obtained in a buffer of its own until it returns.  Whoever
drives it may drop it where it waits for a creation, and a panic unwinds out of
it; both leave the buffer to a detached rollback.
-/

namespace CordisCore
namespace Loader

open Interleaving
open Axes (Contracts Context RealmMembership ServiceRealm SnCounters)
open CordisCore.Runtime (FiberId PluginFailure)

/-! ## Resolution -/

/-- One sealed `PreparedPlugin`. -/
abbrev PreparedPlugin := Nat

/-- What a resolver sees of one entry. -/
structure PluginRequest where
  resolveKey : String
  config : Value
  inject : List (InjectEntry Value)
  deriving DecidableEq

/-- What a panic carries. -/
inductive PanicPayload where
  | literal (message : String)
  | owned (message : String)
  | other
  deriving DecidableEq

/-- How one call of a resolver ends. -/
inductive Resolution where
  | returned (prepared : Option PreparedPlugin)
  /-- `Err`, with its `Display` text. -/
  | failed (diagnostic : String)
  | panicked (payload : PanicPayload)
  /-- A panic whose payload panics again when it is dropped. -/
  | escaped (payload : PanicPayload)
  deriving DecidableEq

inductive ResolverFailureKind where
  | returnedError
  | panic
  deriving DecidableEq

structure ResolverFailure where
  kind : ResolverFailureKind
  diagnostic : String
  deriving DecidableEq

def PanicPayload.diagnostic : PanicPayload → String
  | literal message => message
  | owned message => message
  | other => "non-string panic payload"

/-- The normalization of `resolve_entry`; `none` where the call unwinds. -/
def Resolution.normalize : Resolution → Option (Except ResolverFailure (Option PreparedPlugin))
  | returned prepared => some (.ok prepared)
  | failed diagnostic => some (.error { kind := .returnedError, diagnostic := diagnostic })
  | panicked payload => some (.error { kind := .panic, diagnostic := payload.diagnostic })
  | escaped _ => none

/-! ## Outcomes -/

inductive SpawnError where
  | inactiveContext
  | initialApply (failure : PluginFailure)
  | interrupted
  deriving DecidableEq

inductive LoaderFailure where
  | unresolvedKey (key : String)
  | resolver (failure : ResolverFailure)
  | spawn (failure : SpawnError)
  deriving DecidableEq

inductive EntryOutcome where
  | group (id : EntryId)
  | disabled (id : EntryId)
  | pruned (id disabledAncestor : EntryId)
  | spawned (id : EntryId) (resolveKey : String) (fiberHandle : FiberId)
  | failed (id : EntryId) (resolveKey : String) (failure : LoaderFailure)
  deriving DecidableEq

namespace EntryOutcome

/-- The handle of a successful entry. -/
def fiberHandle : EntryOutcome → Option FiberId
  | spawned _ _ handle => some handle
  | _ => none

end EntryOutcome

/-! ## Operations -/

/-- How the creation of a fiber starts: refused, committed under an armed guard, or unwound. -/
inductive SpawnStart where
  | refused
  | created (fiber : FiberId)
  | unwound
  deriving DecidableEq

/-- How a committed creation ends. -/
inductive SpawnEnd where
  | delivered
  | failed (error : SpawnError)
  | unwound
  deriving DecidableEq

inductive Op (C : Contracts) where
  /-- `ResultHandoff::with_capacity`. -/
  | withCapacity
  | newServiceRealm (membership : RealmMembership)
  | resolve (request : PluginRequest)
  | spawnStart (placed : Context C) (prepared : PreparedPlugin)
  /-- The await of a committed creation. -/
  | spawnEnd (fiber : FiberId)
  /-- `ResultHandoff::push`. -/
  | push (outcome : EntryOutcome)
  /-- `ResultHandoff::finish`: take the buffer. -/
  | finish
  /-- A panic that leaves the load: nothing follows but the drop of what it owns. -/
  | unwind
  | disposeStart (fiber : FiberId)
  /-- The await of `FiberHandle::dispose`. -/
  | disposeEnd (fiber : FiberId)

def Op.Ret {C : Contracts} : Op C → Type
  | withCapacity => Unit
  | newServiceRealm _ => Option ServiceRealm
  | resolve _ => Resolution
  | spawnStart _ _ => SpawnStart
  | spawnEnd _ => SpawnEnd
  | push _ => Unit
  | finish => List EntryOutcome
  | unwind => Unit
  | disposeStart _ => Unit
  | disposeEnd _ => Bool

abbrev Prog (C : Contracts) := Program (Op C) Op.Ret

variable {C : Contracts}

def perform (op : Op C) : Prog C op.Ret :=
  Program.perform op

/-! ## Placement -/

/-- `RealmEnvironment`: the shared labels met so far and their realms. -/
abbrev RealmEnvironment := List (String × ServiceRealm)

/-- The realm of one row; `none` where its allocation panics. -/
def realmFor (membership : RealmMembership) (env : RealmEnvironment) :
    RealmPolicy → Prog C (Option (RealmEnvironment × ServiceRealm))
  | .privately => do
      match ← perform (.newServiceRealm membership) with
      | some realm => pure (some (env, realm))
      | none => pure none
  | .shared label =>
      -- entries that share a label meet in one realm
      match env.lookup label with
      | some realm => pure (some (env, realm))
      | none => do
          match ← perform (.newServiceRealm membership) with
          | some realm => pure (some ((label, realm) :: env, realm))
          | none => pure none

/-- The mapping of every row, in declaration order. -/
def mappings (membership : RealmMembership) :
    RealmEnvironment → List IsolateEntry →
      Prog C (Option (RealmEnvironment × List (String × ServiceRealm)))
  | env, [] => pure (some (env, []))
  | env, declaration :: declarations => do
      match ← realmFor membership env declaration.policy with
      | none => pure none
      | some (env, realm) =>
          match ← mappings membership env declarations with
          | none => pure none
          | some (env, rows) => pure (some (env, (declaration.service, realm) :: rows))

/-- `RealmEnvironment::place`. -/
def place (membership : RealmMembership) (ctx : Context C) (env : RealmEnvironment)
    (declarations : List IsolateEntry) : Prog C (Option (RealmEnvironment × Context C)) :=
  -- nothing to isolate: the context is used as it is
  if declarations.isEmpty then pure (some (env, ctx))
  else do
    match ← mappings membership env declarations with
    | none => pure none
    | some (env, rows) =>
        match ctx.withServiceRealms membership rows with
        | .ok placed => pure (some (env, placed))
        -- the `expect` on a validated batch
        | .error _ => pure none

/-! ## The load -/

/-- `Context::spawn`; `none` where it unwinds. -/
def spawn (placed : Context C) (prepared : PreparedPlugin) :
    Prog C (Option (Except SpawnError FiberId)) := do
  match ← perform (.spawnStart placed prepared) with
  | .refused => pure (some (.error .inactiveContext))
  | .unwound => pure none
  -- from here a dropped load leaves the creation to its guard
  | .created fiber => do
      match ← perform (.spawnEnd fiber) with
      | .delivered => pure (some (.ok fiber))
      | .failed error => pure (some (.error error))
      | .unwound => pure none

/-- The maps that a load fills while it goes. -/
structure Locals where
  disabledByEntry : List (EntryId × EntryId) := []
  realms : RealmEnvironment := []

/-- The arm of a reachable, enabled plugin. -/
def loadPlugin (membership : RealmMembership) (ctx : Context C) (id : EntryId)
    (entry : PluginEntry) (locals : Locals) : Prog C (Option (Locals × EntryOutcome)) :=
  match entry.resolveKey with
  -- the `expect` on a validated entry
  | none => pure none
  | some key => do
      let resolution ← perform
        (.resolve { resolveKey := key, config := entry.config, inject := entry.inject })
      -- a resolver that unwinds ends the load
      match resolution.normalize with
      | none => pure none
      | some (.error failure) => pure (some (locals, .failed id key (.resolver failure)))
      | some (.ok none) => pure (some (locals, .failed id key (.unresolvedKey key)))
      | some (.ok (some prepared)) =>
          -- realms are placed only for an entry that was resolved
          match ← place membership ctx locals.realms entry.isolate with
          | none => pure none
          | some (realms, placed) =>
              match ← spawn placed prepared with
              | none => pure none
              | some (.ok handle) =>
                  pure (some ({ locals with realms := realms }, .spawned id key handle))
              | some (.error failure) =>
                  -- a refused spawn keeps the realms it allocated
                  pure (some ({ locals with realms := realms }, .failed id key (.spawn failure)))

/-- The classification of one node; `none` where it unwinds. -/
def loadNode (membership : RealmMembership) (ctx : Context C) (node : PlanNode)
    (locals : Locals) : Prog C (Option (Locals × EntryOutcome)) :=
  match node.parent.bind fun parent => locals.disabledByEntry.lookup parent with
  -- below a disabled entry nothing is resolved
  | some ancestor =>
      pure (some ({ locals with disabledByEntry := (node.id, ancestor) :: locals.disabledByEntry },
        .pruned node.id ancestor))
  | none =>
      match node.entry with
      | .group => pure (some (locals, .group node.id))
      | .plugin entry =>
          if entry.disabled then
            pure (some
              -- a disabled entry is its own outermost ancestor
              ({ locals with disabledByEntry := (node.id, node.id) :: locals.disabledByEntry },
                .disabled node.id))
          else loadPlugin membership ctx node.id entry locals

inductive Answer where
  | loaded (entries : List EntryOutcome)
  | unwound
  | rolledBack
  | discarded
  | allocated
  | dropped
  deriving DecidableEq

/-- A panic: the party is left to the drop of its buffer. -/
def unwinding : Prog C Answer := do
  perform .unwind
  pure .unwound

/-- The loop over the execution order. -/
def loadFrom (plan : LoadPlan) (membership : RealmMembership) (ctx : Context C) :
    List Nat → Locals → Prog C Answer
  | [], _ => do
      let entries ← perform .finish
      pure (.loaded entries)
  | index :: order, locals =>
      match plan.nodes[index]? with
      -- an index out of bounds
      | none => unwinding
      | some node => do
          match ← loadNode membership ctx node locals with
          | none => unwinding
          | some (locals, outcome) => do
              -- the handoff holds every outcome before the next entry is touched
              perform (.push outcome)
              loadFrom plan membership ctx order locals

/-- `LoadPlan::load`. -/
def load (plan : LoadPlan) (membership : RealmMembership) (ctx : Context C) : Prog C Answer := do
  perform .withCapacity
  match plan.executionOrder with
  | some order => loadFrom plan membership ctx order {}
  | none => Program.iterate () fun _ => pure (.inl ())

/-! ## Rollback -/

/-- The loop of `rollback` over the reversed buffer. -/
def rollbackFrom : List EntryOutcome → Prog C Answer
  | [] => pure .rolledBack
  | .spawned _ _ handle :: entries => do
      perform (.disposeStart handle)
      -- the answer of a disposal does not stop the rollback
      let _ ← perform (.disposeEnd handle)
      rollbackFrom entries
  | _ :: entries => rollbackFrom entries

def rollback (entries : List EntryOutcome) : Prog C Answer :=
  rollbackFrom entries.reverse

/-! ## The machine -/

inductive Routine (C : Contracts) where
  | load (plan : LoadPlan) (membership : RealmMembership) (ctx : Context C)
  | rollback (entries : List EntryOutcome)
  /-- The drop of a delivered outcome; neither it nor a `FiberHandle` has drop glue of its own. -/
  | discard (entries : List EntryOutcome)
  /-- Anybody else who allocates a realm. -/
  | newServiceRealm (membership : RealmMembership)

/-- What the outside world decides at one operation. -/
structure Choice where
  resolution : Resolution := .returned none
  start : SpawnStart := .refused
  ending : SpawnEnd := .delivered
  disposed : Bool := true

/-- What all parties share, and what each of them owns and drops. -/
structure Shared where
  sn : RealmMembership → SnCounters := fun _ => {}
  /-- The fibers allocated so far. -/
  fibers : Nat := 0
  /-- The fiber of the `CreationGuard` that the party holds armed. -/
  guards : Party → Option FiberId := fun _ => none
  /-- The fibers left to their own creation guards. -/
  cleaned : List FiberId := []
  /-- The `ResultHandoff` buffer that the party owns. -/
  handoffs : Party → Option (List EntryOutcome) := fun _ => none

namespace Shared

def setGuard (s : Shared) (p : Party) (fiber : Option FiberId) : Shared :=
  { s with guards := fun q => if q = p then fiber else s.guards q }

def setHandoff (s : Shared) (p : Party) (entries : Option (List EntryOutcome)) : Shared :=
  { s with handoffs := fun q => if q = p then entries else s.handoffs q }

/-- The drop of a guard that is still armed. -/
def fireGuard (s : Shared) (p : Party) : Shared :=
  match s.guards p with
  | some fiber => { s.setGuard p none with cleaned := fiber :: s.cleaned }
  | none => s

end Shared

/-- One operation of the loader. -/
def exec (self : Party) (choice : Choice) : (op : Op C) → Shared → Option (Shared × op.Ret)
  | .withCapacity, s => some (s.setHandoff self (some []), ())
  | .newServiceRealm membership, s =>
      match (s.sn membership).nextRealmKey with
      | some (sn, key) =>
          some ({ s with sn := fun m => if m = membership then sn else s.sn m },
            some { membership := membership, key := key })
      | none => some (s, none)
  | .resolve _, s => some (s, choice.resolution)
  | .spawnStart _ _, s =>
      match choice.start with
      | .refused => some (s, .refused)
      | .unwound => some (s, .unwound)
      | .created _ =>
          some ({ s with fibers := s.fibers + 1 }.setGuard self (some s.fibers), .created s.fibers)
  | .spawnEnd _, s =>
      match choice.ending with
      | .delivered => some (s.setGuard self none, .delivered)
      | .failed error => some (s.setGuard self none, .failed error)
      | .unwound => some (s.fireGuard self, .unwound)
  | .push outcome, s =>
      some (s.setHandoff self ((s.handoffs self).map (· ++ [outcome])), ())
  | .finish, s => some (s.setHandoff self none, (s.handoffs self).getD [])
  | .unwind, _ => none
  | .disposeStart _, s => some (s, ())
  | .disposeEnd _, s => some (s, choice.disposed)

/-- Where a party waits, or is unwinding. -/
def awaits : Op C → Bool
  | .spawnEnd _ => true
  | .unwind => true
  | .disposeEnd _ => true
  | _ => false

/-- The drop of a load: its guard fires, its buffer goes to a detached rollback.  A detached task
has no buffer and nobody drops it. -/
def dropped (self : Party) (s : Shared) : Option (Shared × Option (Routine C)) :=
  (s.handoffs self).map fun entries =>
    ((s.fireGuard self).setHandoff self none, some (.rollback entries))

def machine (C : Contracts) : Machine Shared (Op C) Op.Ret (Routine C) Choice Answer where
  init := {}
  exec self _ choice op s := exec self choice op s
  forks _ := none
  awaits := awaits
  dropped := dropped
  gone := .dropped
  body
    | .load plan membership ctx => load plan membership ctx
    | .rollback entries => rollback entries
    | .discard _ => pure .discarded
    | .newServiceRealm membership => do
        let _ ← perform (.newServiceRealm membership)
        pure .allocated
  -- whoever starts owns nothing yet
  enter p routine s :=
    match routine with
    | .rollback _ => none
    | _ => some ((s.setGuard p none).setHandoff p none)

end Loader
end CordisCore
