import CordisCore.Interleaving.Logic
import CordisCore.Journal.Stores

/-!
# Routines — registration, the ways to unregister, and the drain

What the lifecycle does to a Fiber (its generations open and close, it dies) is
up to the outside; so is what a dispatch or an update has selected.
-/

namespace CordisCore
namespace Journal

open Interleaving
open CordisCore.Runtime (FiberId PluginKey Token)
open Root (ServiceControlError)

/-! ## Operations -/

inductive Op where
  | pushGated (f : FiberId) (step : PublishStep)
  /-- The caller holds the control from now on. -/
  | deliver (control : Control)
  /-- What a control does first: take its own resource out of the store. -/
  | unregister (control : Control)
  | removeDisposable (f : FiberId) (token : Token)
  | tokens (f : FiberId)
  /-- Execute a claimed cleanup. -/
  | execute (cleanup : Cleanup)
  /-- Await the report of a claimed cleanup. -/
  | reported
  | claimListener (event : String) (id : ResourceId)
  | claimUpdate (contract : PluginKey) (id : ResourceId)
  /-- Invoke a claimed listener or update hook. -/
  | call (id : ResourceId)
  | setGate (f : FiberId) (isOpen : Bool)
  | die (f : FiberId)

namespace Op

abbrev Ret : Op → Type
  | pushGated _ _ => Except GatedPublishError (Cleanup × Token)
  | unregister _ => Except ServiceControlError Bool
  | removeDisposable _ _ => Option Cleanup
  | tokens _ => List Token
  | claimListener _ _ => Bool × Bool
  | claimUpdate _ _ => Bool
  | _ => Unit

end Op

abbrev Prog := Program Op Op.Ret

abbrev perform (op : Op) : Prog op.Ret :=
  Program.perform op

namespace Control

/-- The resource store part of `ServicePublication::remove`, `ListenerRegistration::remove` and
`ExporterRegistration::remove`. -/
def unregister (s : Root) : Control → Root × Except ServiceControlError Bool
  | publication key occurrence owner _ =>
      match s.removeExact key occurrence owner with
      | (s, .ok ()) => (s, .ok true)
      | (s, .error error) => (s, .error error)
  | listener event id _ _ => ((s.removeListener event id).1, .ok (s.removeListener event id).2)
  | update contract id _ _ => ((s.removeUpdate contract id).1, .ok (s.removeUpdate contract id).2)
  | exporter key => ((s.removeExporter key).1, .ok (s.removeExporter key).2)
  | effect _ _ => (s, .ok false)

/-- The journal occurrence that the control can claim. -/
def token : Control → Option (FiberId × Token)
  | publication _ _ owner cleanup | listener _ _ owner cleanup | update _ _ owner cleanup
  | effect owner cleanup => some (owner, cleanup)
  | exporter _ => none

/-- The obligation that was committed with the resource. -/
def cleanup : Control → Cleanup
  | publication key occurrence _ _ => .withdrawExact key occurrence
  | listener event id _ _ => .removeListener event id
  | update contract id _ _ => .removeUpdate contract id
  | exporter key => .removeExporter key
  | effect _ _ => .effect

end Control

/-- The cleanup bodies. -/
def Cleanup.execute (s : Root) : Cleanup → Root
  | withdrawExact key occurrence => s.withdrawExact key occurrence
  | removeListener event id => (s.removeListener event id).1
  | removeUpdate contract id => (s.removeUpdate contract id).1
  | removeExporter key => (s.removeExporter key).1
  | removeObserver id => s.removeObserver id
  | effect => s

/-- Instrumentation: this party owes the token, or nothing. -/
def Root.owe (s : Root) (p : Party) (token : Option (FiberId × Token)) : Root :=
  { s with removing := fun q => if q = p then token else s.removing q }

def exec (self : Party) : (op : Op) → Root → Option (Root × op.Ret)
  | .pushGated f step, s => some (s.pushGated f step)
  | .deliver control, s => some ({ s with controls := control :: s.controls }, ())
  | .unregister control, s =>
      let out := control.unregister s
      match out.2 with
      | .ok true => some (out.1.owe self control.token, .ok true)
      | other => some (out.1, other)
  | .removeDisposable f token, s =>
      let out := s.removeDisposable f token
      some (out.1.owe self none, out.2)
  | .tokens f, s => some (s, (s.fibers f).disposables.map Prod.fst)
  | .execute cleanup, s => some (cleanup.execute s, ())
  | .reported, s => some (s, ())
  | .claimListener event id, s => some (s.claimListener event id)
  | .claimUpdate contract id, s => some (s.claimUpdate contract id)
  | .call _, s => some (s, ())
  | .setGate f isOpen, s => some (s.setFiber f { s.fibers f with isOpen := isOpen }, ())
  | .die f, s => some (s.setFiber f { s.fibers f with alive := false }, ())

/-! ## Registration -/

/-- The control for what a gated push committed. -/
def controlOf (f : FiberId) : Cleanup × Token → Option Control
  | (.withdrawExact key occurrence, token) => some (.publication key occurrence f token)
  | (.removeListener event id, token) => some (.listener event id f token)
  | (.removeUpdate contract id, token) => some (.update contract id f token)
  | (.removeExporter key, _) => some (.exporter key)
  -- observers are withdrawn by their generation only
  | (.removeObserver _, _) => none
  | (.effect, token) => some (.effect f token)

/-- `provide`, `register_listener`, `on_update`, `add_exporter`, `register` of an observer,
`register_cleanup` and `run`. -/
def register (f : FiberId) (step : PublishStep) : Prog (Except GatedPublishError Unit) := do
  match ← perform (.pushGated f step) with
  | .error error => pure (.error error)
  | .ok committed =>
      match controlOf f committed with
      | some control => do
          perform (.deliver control)
          pure (.ok ())
      | none => pure (.ok ())

/-! ## Unregistration by a control -/

/-- `ServicePublication::remove`: the token is claimed only after a removal. -/
def removePublication (control : Control) (owner : FiberId) (cleanup : Token) :
    Prog (Except ServiceControlError Bool) := do
  match ← perform (.unregister control) with
  | .error error => pure (.error error)
  | .ok removed => do
      let _ ← perform (.removeDisposable owner cleanup)
      pure (.ok removed)

/-- `ListenerRegistration::remove`, of a listener or of an update hook. -/
def removeRegistration (control : Control) (owner : FiberId) (cleanup : Token) :
    Prog (Except ServiceControlError Bool) := do
  let removed ← perform (.unregister control)
  let _ ← perform (.removeDisposable owner cleanup)
  pure removed

/-- `ExporterRegistration::remove`. -/
def removeExporter (control : Control) : Prog (Except ServiceControlError Bool) :=
  perform (.unregister control)

/-- `EffectRegistration::dispose`. -/
def disposeEffect (owner : FiberId) (token : Token) : Prog (Except ServiceControlError Bool) := do
  match ← perform (.removeDisposable owner token) with
  | none => pure (.ok false)
  | some cleanup => do
      perform (.execute cleanup)
      perform .reported
      pure (.ok true)

/-- Use a control up. -/
def consume : Control → Prog (Except ServiceControlError Bool)
  | .publication key occurrence owner cleanup =>
      removePublication (.publication key occurrence owner cleanup) owner cleanup
  | .listener event id owner cleanup =>
      removeRegistration (.listener event id owner cleanup) owner cleanup
  | .update contract id owner cleanup =>
      removeRegistration (.update contract id owner cleanup) owner cleanup
  | .exporter key => removeExporter (.exporter key)
  | .effect owner token => disposeEffect owner token

/-- `EffectRegistration::disarm`. -/
def disarm (owner : FiberId) (token : Token) : Prog Bool := do
  let cleanup ← perform (.removeDisposable owner token)
  pure cleanup.isSome

/-! ## Claims -/

/-- `claim_hook` for the snapshots of one dispatch, in turn. -/
def dispatch (event : String) : List ResourceId → Prog Unit
  | [] => pure ()
  | id :: ids => do
      let (claimed, _) ← perform (.claimListener event id)
      if claimed then do
        perform (.call id)
        dispatch event ids
      else dispatch event ids

/-- `run_chain`: the claims of one precommit chain. -/
def control (contract : PluginKey) : List ResourceId → Prog Unit
  | [] => pure ()
  | id :: ids => do
      if ← perform (.claimUpdate contract id) then do
        perform (.call id)
        control contract ids
      else control contract ids

/-! ## The drain -/

/-- Claim and execute the obligations behind these tokens. -/
def runTokens (f : FiberId) : List Token → Prog Unit
  | [] => pure ()
  | token :: tokens => do
      match ← perform (.removeDisposable f token) with
      | some cleanup => do
          perform (.execute cleanup)
          perform .reported
          runTokens f tokens
      | none => runTokens f tokens

def drainDisposables (f : FiberId) : Prog Unit := do
  let tokens ← perform (.tokens f)
  runTokens f tokens.reverse

/-! ## The machine -/

inductive Routine where
  | register (f : FiberId) (step : PublishStep)
  | consume (control : Control)
  | disarm (owner : FiberId) (token : Token)
  | dispatch (event : String) (ids : List ResourceId)
  | control (contract : PluginKey) (ids : List ResourceId)
  | drain (f : FiberId)
  | setGate (f : FiberId) (isOpen : Bool)
  | die (f : FiberId)

inductive Answer where
  | registered (result : Except GatedPublishError Unit)
  | removed (result : Except ServiceControlError Bool)
  | disarmed (result : Bool)
  | finished
  | dropped

def body : Routine → Prog Answer
  | .register f step => Answer.registered <$> register f step
  | .consume control => Answer.removed <$> consume control
  | .disarm owner token => Answer.disarmed <$> disarm owner token
  | .dispatch event ids => (fun _ => Answer.finished) <$> dispatch event ids
  | .control contract ids => (fun _ => Answer.finished) <$> control contract ids
  | .drain f => (fun _ => Answer.finished) <$> drainDisposables f
  | .setGate f isOpen => (fun _ => Answer.finished) <$> perform (.setGate f isOpen)
  | .die f => (fun _ => Answer.finished) <$> perform (.die f)

/-- Controls are move-only: whoever consumes one gives it up. -/
def enter : Routine → Root → Option Root
  | .consume control, s =>
      if control ∈ s.controls then some { s with controls := s.controls.erase control } else none
  | .disarm owner token, s =>
      if .effect owner token ∈ s.controls then
        some { s with controls := s.controls.erase (.effect owner token) }
      else none
  | _, s => some s

/-- Where a party waits, and can be dropped. -/
def awaits : Op → Bool
  | .reported | .call _ => true
  | _ => false

/-- The journals of one Runtime and the stores behind them. -/
def machine : Machine Root Op Op.Ret Routine Unit Answer where
  init := {}
  exec self _ _ op s := exec self op s
  forks _ := none
  awaits := awaits
  dropped _ s := some (s, none)
  gone := .dropped
  body := body
  enter _ := enter

abbrev State := Config Root Op Op.Ret Answer

abbrev Condition := Machine.Condition Root Op Unit

abbrev Reachable (ok : Condition) (c : State) : Prop :=
  machine.Reachable ok c

end Journal
end CordisCore
