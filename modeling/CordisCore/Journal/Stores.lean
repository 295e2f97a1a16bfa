import CordisCore.Events.Dispatch
import CordisCore.Update.Control

/-!
# Stores — where generation-owned resources live, and the obligations to remove them

Every registration crosses one gated seam: the resource goes into its own store
and the cleanup that takes it out again goes into the journal of its Fiber.
-/

namespace CordisCore
namespace Journal

open Interleaving (Party)
open Axes (ScopeNode)
open Events (EventState HookKind Hook ListenerOptions)
open CordisCore.Runtime (FiberId ServiceName Contract PluginKey Token DependencyEdge)

/-- A listener event. -/
abbrev Event := Events.Event

/-- The address of one resource; identities are never reused. -/
abbrev ResourceId := Nat

/-! ## Obligations -/

/-- What a committed obligation does when its generation closes. -/
inductive Cleanup where
  | withdrawExact (key : DependencyEdge) (occurrence : ResourceId)
  | removeListener (event : String) (id : ResourceId)
  | removeUpdate (contract : PluginKey) (id : ResourceId)
  | removeExporter (key : ResourceId)
  | removeObserver (id : ResourceId)
  /-- A plain effect or the join of a task: no store holds anything for it. -/
  | effect
  deriving DecidableEq

namespace Cleanup

/-- The resource that the obligation is about, if a store holds one. -/
def resource : Cleanup → Option ResourceId
  | withdrawExact _ id | removeListener _ id | removeUpdate _ id | removeExporter id
  | removeObserver id => some id
  | effect => none

end Cleanup

/-! ## State -/

structure ServiceSlot where
  key : DependencyEdge
  occurrence : ResourceId
  contract : Contract
  fiber : FiberId
  deriving DecidableEq

/-- What registration sees of a Fiber. -/
structure Fiber where
  alive : Bool := true
  /-- No replacement or disposal is marked and the state admits registrations. -/
  isOpen : Bool := false
  sn : Nat := 0
  disposables : List (Token × Cleanup) := []

/-- `assert_can_register`. -/
def Fiber.assertCanRegister (fiber : Fiber) : Bool :=
  fiber.alive && fiber.isOpen

/-- The control that a registration hands to its caller. -/
inductive Control where
  | publication (key : DependencyEdge) (occurrence : ResourceId) (owner : FiberId)
      (cleanup : Token)
  | listener (event : String) (id : ResourceId) (owner : FiberId) (cleanup : Token)
  | update (contract : PluginKey) (id : ResourceId) (owner : FiberId) (cleanup : Token)
  | exporter (key : ResourceId)
  | effect (owner : FiberId) (token : Token)
  deriving DecidableEq

structure Root where
  fibers : FiberId → Fiber := fun _ => {}
  -- `ServiceStore`
  contracts : ServiceName → Option Contract := fun _ => none
  slots : List ServiceSlot := []
  events : EventState := {}
  updates : Update.Hooks := fun _ => []
  exporters : List ResourceId := []
  observers : List ResourceId := []
  nextId : ResourceId := 0
  /-- The controls that callers hold. -/
  controls : List Control := []
  /-- Instrumentation: the token that a party which just unregistered a resource still owes. -/
  removing : Party → Option (FiberId × Token) := fun _ => none

namespace Root

def setFiber (s : Root) (f : FiberId) (fiber : Fiber) : Root :=
  { s with fibers := fun g => if g = f then fiber else s.fibers g }

/-- The slot occupied under this key. -/
def slotAt (s : Root) (key : DependencyEdge) : Option ServiceSlot :=
  s.slots.find? fun slot => slot.key = key

/-- The slot under the key is this very occurrence. -/
def holds (s : Root) (key : DependencyEdge) (occurrence : ResourceId) : Bool :=
  (s.slotAt key).any fun slot => slot.occurrence = occurrence

def removeSlot (s : Root) (key : DependencyEdge) : Root :=
  { s with slots := s.slots.filter fun slot => slot.key ≠ key }

/-! ## The stores -/

inductive ServiceInstallRefusal where
  | duplicate
  | contractMismatch
  deriving DecidableEq

def bindContract (s : Root) (name : ServiceName) (contract : Contract) : Root :=
  { s with contracts := fun other => if other = name then some contract else s.contracts other }

/-- `ServiceStore::install`: a slot whose owner is dead gives way. -/
def install (s : Root) (slot : ServiceSlot) : Root × Except ServiceInstallRefusal Unit :=
  match s.contracts slot.key.service with
  | some bound => if bound = slot.contract then occupy s else (s, .error .contractMismatch)
  | none => occupy (s.bindContract slot.key.service slot.contract)
where
  occupy (s : Root) : Root × Except ServiceInstallRefusal Unit :=
    if (s.slotAt slot.key).any fun existing => (s.fibers existing.fiber).alive then
      (s, .error .duplicate)
    else ({ s.removeSlot slot.key with slots := slot :: (s.removeSlot slot.key).slots }, .ok ())

inductive ServiceControlError where
  | stalePublication
  | mutationClosed
  deriving DecidableEq

/-- `ServiceStore::remove_exact`. -/
def removeExact (s : Root) (key : DependencyEdge) (occurrence : ResourceId) (owner : FiberId) :
    Root × Except ServiceControlError Unit :=
  if s.holds key occurrence then
    if (s.fibers owner).assertCanRegister then (s.removeSlot key, .ok ())
    else (s, .error .mutationClosed)
  else (s, .error .stalePublication)

/-- `ServiceStore::withdraw_exact`. -/
def withdrawExact (s : Root) (key : DependencyEdge) (occurrence : ResourceId) : Root :=
  if s.holds key occurrence then s.removeSlot key else s

/-- `EventStore::remove`. -/
def removeListener (s : Root) (event : String) (id : ResourceId) : Root × Bool :=
  let out := s.events.remove event id
  ({ s with events := out.1 }, out.2)

/-- `EventStore::claim`. -/
def claimListener (s : Root) (event : String) (id : ResourceId) : Root × Bool × Bool :=
  let out := s.events.claim event id
  ({ s with events := out.1 }, out.2)

/-- `UpdateStore::remove`. -/
def removeUpdate (s : Root) (contract : PluginKey) (id : ResourceId) : Root × Bool :=
  let out := s.updates.remove contract id
  ({ s with updates := out.1 }, out.2)

/-- `UpdateStore::claim`. -/
def claimUpdate (s : Root) (contract : PluginKey) (id : ResourceId) : Root × Bool :=
  let out := s.updates.claim contract id
  ({ s with updates := out.1 }, out.2)

/-- `LoggerService::remove_exporter`. -/
def removeExporter (s : Root) (key : ResourceId) : Root × Bool :=
  ({ s with exporters := s.exporters.erase key }, key ∈ s.exporters)

/-- `ObservationHub::remove`. -/
def removeObserver (s : Root) (id : ResourceId) : Root :=
  { s with observers := s.observers.erase id }

end Root

/-! ## The gated seam -/

/-- What a gated push makes visible. -/
inductive PublishStep where
  | noPublish
  | service (key : DependencyEdge) (contract : Contract)
  | listener (E : Event) (scope : List ScopeNode) (kind : HookKind) (options : ListenerOptions)
  | update (contract : PluginKey) (scope : Option Update.ScopeNode) (kind : Update.UpdateKind)
      (options : ListenerOptions)
  | exporter
  | observer

inductive GatedPublishError where
  | inactiveContext
  | publishRefused
  deriving DecidableEq

namespace Root

/-- `PublishStep::publish` of a resource with this fresh identity; `none` is a refusal. -/
def publish (s : Root) (f : FiberId) (id : ResourceId) : PublishStep → Root × Option Cleanup
  | .noPublish => (s, some .effect)
  | .service key contract =>
      match s.install { key := key, occurrence := id, contract := contract, fiber := f } with
      | (s, .ok ()) => (s, some (.withdrawExact key id))
      | (s, .error _) => (s, none)
  | .listener E scope kind options =>
      match s.events.addReserved E (Hook.new scope kind options id) with
      | some events => ({ s with events := events }, some (.removeListener E.NAME id))
      | none => (s, none)
  | .update contract scope kind options =>
      let hook : Update.UpdateHook :=
        { id := id, prepend := options.prepend, isGlobal := options.global, scope := scope
          once := options.once, kind := kind }
      ({ s with updates := s.updates.add contract hook }, some (.removeUpdate contract id))
  | .exporter => ({ s with exporters := s.exporters ++ [id] }, some (.removeExporter id))
  | .observer => ({ s with observers := id :: s.observers }, some (.removeObserver id))

/-- `DisposableList::push`. -/
def push (s : Root) (f : FiberId) (cleanup : Cleanup) : Root × Token :=
  let fiber := s.fibers f
  let token := fiber.sn + 1
  (s.setFiber f { fiber with
      sn := token, disposables := fiber.disposables ++ [(token, cleanup)] }, token)

/-- `push_gated`: check, publish and commit the obligation under the journal lock. -/
def pushGated (s : Root) (f : FiberId) (step : PublishStep) :
    Root × Except GatedPublishError (Cleanup × Token) :=
  if (s.fibers f).assertCanRegister then
    match { s with nextId := s.nextId + 1 }.publish f s.nextId step with
    | (published, none) => (published, .error .publishRefused)
    | (published, some cleanup) =>
        let out := published.push f cleanup
        (out.1, .ok (cleanup, out.2))
  else (s, .error .inactiveContext)

/-- `remove_disposable`. -/
def removeDisposable (s : Root) (f : FiberId) (token : Token) : Root × Option Cleanup :=
  let fiber := s.fibers f
  (s.setFiber f { fiber with disposables := fiber.disposables.filter fun row => row.1 ≠ token },
    (fiber.disposables.find? fun row => row.1 = token).map Prod.snd)

/-! ## Registration -/

/-- The resource of the obligation is still in its store. -/
def registered (s : Root) : Cleanup → Bool
  | .withdrawExact key occurrence => s.holds key occurrence
  | .removeListener event id => (s.events.find event id).isSome
  | .removeUpdate contract id => (s.updates.find contract id).isSome
  | .removeExporter key => key ∈ s.exporters
  | .removeObserver id => id ∈ s.observers
  | .effect => true

/-- The occurrence that a publication under this key would evict: its owner is dead. -/
def evicted (s : Root) (key : DependencyEdge) (contract : Contract) : Option ResourceId :=
  if (s.contracts key.service).all (· = contract) then
    (s.slotAt key).bind fun slot =>
      if (s.fibers slot.fiber).alive then none else some slot.occurrence
  else none

/-! ### What each access takes out -/

/-- At most the lost resource leaves its store; journals and controls stay. -/
structure Leaves (lost : Option ResourceId) (s s' : Root) : Prop where
  fibers : s'.fibers = s.fibers
  nextId : s'.nextId = s.nextId
  controls : s'.controls = s.controls
  removing : s'.removing = s.removing
  registered : ∀ cleanup, s.registered cleanup = true →
    s'.registered cleanup = true ∨ ∃ id, lost = some id ∧ cleanup.resource = some id

theorem Leaves.refl (lost : Option ResourceId) (s : Root) : Leaves lost s s :=
  ⟨rfl, rfl, rfl, rfl, fun _ h => .inl h⟩

theorem Leaves.mono {lost lost' : Option ResourceId} {s s' : Root} (h : Leaves lost s s')
    (hlost : ∀ id, lost = some id → lost' = some id) : Leaves lost' s s' := by
  refine ⟨h.fibers, h.nextId, h.controls, h.removing, fun cleanup hregistered => ?_⟩
  rcases h.registered cleanup hregistered with hkept | ⟨id, hid, hres⟩
  · exact .inl hkept
  · exact .inr ⟨id, hlost id hid, hres⟩

theorem slotAt_removeSlot (s : Root) (key other : DependencyEdge) :
    (s.removeSlot key).slotAt other = if other = key then none else s.slotAt other := by
  unfold slotAt removeSlot
  rw [List.find?_filter]
  split
  · rename_i heq
    rw [List.find?_eq_none]
    intro slot _
    simp [heq]
  · rename_i hne
    congr 1
    funext slot
    by_cases hkey : slot.key = other
    · simp [hkey, hne]
    · simp [hkey]

theorem holds_removeSlot (s : Root) (key other : DependencyEdge) (occurrence : ResourceId) :
    (s.removeSlot key).holds other occurrence =
      if other = key then false else s.holds other occurrence := by
  unfold holds
  rw [slotAt_removeSlot]
  split <;> rfl

theorem holds_unique {s : Root} {key : DependencyEdge} {a b : ResourceId}
    (ha : s.holds key a = true) (hb : s.holds key b = true) : a = b := by
  unfold holds at ha hb
  cases hslot : s.slotAt key with
  | none =>
      rw [hslot] at ha
      cases ha
  | some slot =>
      rw [hslot] at ha hb
      have hsame : slot.occurrence = a := of_decide_eq_true ha
      exact hsame.symm.trans (of_decide_eq_true hb)

theorem leaves_removeSlot {s : Root} {key : DependencyEdge} {occurrence : ResourceId}
    (h : s.holds key occurrence = true) : Leaves (some occurrence) s (s.removeSlot key) := by
  refine ⟨rfl, rfl, rfl, rfl, fun cleanup hregistered => ?_⟩
  cases cleanup with
  | withdrawExact other occurrence' =>
      simp only [registered] at hregistered ⊢
      rw [holds_removeSlot]
      split
      · rename_i heq
        subst heq
        exact .inr ⟨occurrence, rfl, congrArg some (holds_unique hregistered h)⟩
      · exact .inl hregistered
  | _ => exact .inl hregistered

theorem leaves_withdrawExact (s : Root) (key : DependencyEdge) (occurrence : ResourceId) :
    Leaves (some occurrence) s (s.withdrawExact key occurrence) := by
  unfold withdrawExact
  split
  · rename_i h
    exact leaves_removeSlot h
  · exact Leaves.refl _ s

theorem leaves_removeListener (s : Root) (event : String) (id : ResourceId) :
    Leaves (if (s.removeListener event id).2 then some id else none) s
      (s.removeListener event id).1 := by
  have hremove := EventState.find_remove s.events event id
  refine ⟨rfl, rfl, rfl, rfl, fun cleanup hregistered => ?_⟩
  cases cleanup with
  | removeListener other id' =>
      simp only [registered, removeListener] at hregistered ⊢
      rw [hremove.2]
      split
      · rename_i heq
        rw [heq.1, heq.2, ← hremove.1] at hregistered
        exact .inr ⟨id, if_pos hregistered, congrArg some heq.2⟩
      · exact .inl hregistered
  | _ => exact .inl hregistered

/-- The hook that a claim of this listener would take out. -/
def onceListener (s : Root) (event : String) (id : ResourceId) : Option ResourceId :=
  if (s.events.find event id).any Hook.once then some id else none

theorem leaves_claimListener (s : Root) (event : String) (id : ResourceId) :
    Leaves (s.onceListener event id) s (s.claimListener event id).1 := by
  refine ⟨rfl, rfl, rfl, rfl, fun cleanup hregistered => ?_⟩
  have hclaim := EventState.find_claim s.events event id
  cases cleanup with
  | removeListener other id' =>
      simp only [registered, claimListener] at hregistered ⊢
      rw [hclaim.2]
      split
      · rename_i heq
        have hkind : ((s.events.find event id).map Hook.once).getD false = true := by
          rw [hclaim.1] at heq
          exact heq.1
        have honce : (s.events.find event id).any Hook.once = true := by
          cases hfind : s.events.find event id with
          | none =>
              rw [hfind] at hkind
              cases hkind
          | some hook =>
              rw [hfind] at hkind
              exact hkind
        exact .inr ⟨id, if_pos honce, congrArg some heq.2.2⟩
      · exact .inl hregistered
  | _ => exact .inl hregistered

/-- A hook of one contract is found in its own list only. -/
theorem find_put (hooks : Update.Hooks) (contract other : PluginKey)
    (list : List Update.UpdateHook) (id : ResourceId) :
    (hooks.put contract list).find other id =
      if other = contract then list.find? fun hook => hook.id = id else hooks.find other id := by
  unfold Update.Hooks.find Update.Hooks.put
  split <;> rfl

theorem find_eraseP_ne {list : List Update.UpdateHook} {id other : ResourceId} (h : other ≠ id) :
    ((list.eraseP fun hook => hook.id = id).find? fun hook => hook.id = other) =
      list.find? fun hook => hook.id = other := by
  induction list with
  | nil => rfl
  | cons hook rest ih =>
      by_cases hid : hook.id = id
      · have hother : ¬ id = other := fun heq => h heq.symm
        simp [hid, hother]
      · simp only [List.eraseP_cons, hid, decide_false, cond_false, List.find?_cons, ih]

theorem leaves_without (s : Root) (contract : PluginKey) (id : ResourceId) :
    Leaves (some id) s { s with updates := s.updates.without contract id } := by
  refine ⟨rfl, rfl, rfl, rfl, fun cleanup hregistered => ?_⟩
  cases cleanup with
  | removeUpdate other id' =>
      simp only [registered] at hregistered ⊢
      by_cases hid : id' = id
      · exact .inr ⟨id, rfl, congrArg some hid⟩
      · left
        rw [Update.Hooks.without, find_put]
        split
        · rename_i heq
          subst heq
          rw [find_eraseP_ne hid]
          exact hregistered
        · exact hregistered
  | _ => exact .inl hregistered

theorem leaves_removeUpdate (s : Root) (contract : PluginKey) (id : ResourceId) :
    Leaves (if (s.removeUpdate contract id).2 then some id else none) s
      (s.removeUpdate contract id).1 := by
  unfold removeUpdate Update.Hooks.remove
  cases s.updates.find contract id with
  | none => exact Leaves.refl _ s
  | some hook => exact leaves_without s contract id

/-- The hook that a claim of this update hook would take out. -/
def onceUpdate (s : Root) (contract : PluginKey) (id : ResourceId) : Option ResourceId :=
  if (s.updates.find contract id).any (·.once) then some id else none

theorem leaves_claimUpdate (s : Root) (contract : PluginKey) (id : ResourceId) :
    Leaves (s.onceUpdate contract id) s (s.claimUpdate contract id).1 := by
  unfold claimUpdate Update.Hooks.claim onceUpdate
  cases hfind : s.updates.find contract id with
  | none => exact Leaves.refl _ s
  | some hook =>
      cases honce : hook.once with
      | false => simpa [honce] using Leaves.refl _ s
      | true => simpa [honce] using leaves_without s contract id

theorem leaves_removeExporter (s : Root) (key : ResourceId) :
    Leaves (if key ∈ s.exporters then some key else none) s (s.removeExporter key).1 := by
  refine ⟨rfl, rfl, rfl, rfl, fun cleanup hregistered => ?_⟩
  cases cleanup with
  | removeExporter other =>
      simp only [registered, decide_eq_true_eq, removeExporter] at hregistered ⊢
      by_cases hkey : other = key
      · subst hkey
        exact .inr ⟨other, if_pos hregistered, rfl⟩
      · exact .inl (decide_eq_true ((List.mem_erase_of_ne hkey).mpr hregistered))
  | _ => exact .inl hregistered

theorem leaves_removeObserver (s : Root) (id : ResourceId) :
    Leaves (some id) s (s.removeObserver id) := by
  refine ⟨rfl, rfl, rfl, rfl, fun cleanup hregistered => ?_⟩
  cases cleanup with
  | removeObserver other =>
      simp only [registered, decide_eq_true_eq, removeObserver] at hregistered ⊢
      by_cases hid : other = id
      · exact .inr ⟨id, rfl, congrArg some hid⟩
      · exact .inl (decide_eq_true ((List.mem_erase_of_ne hid).mpr hregistered))
  | _ => exact .inl hregistered

/-! ### What a gated push publishes -/

/-- The occurrence that this publication would evict. -/
def evicts (s : Root) : PublishStep → Option ResourceId
  | .service key contract => s.evicted key contract
  | _ => none

theorem occupy_spec {s s' : Root} {slot : ServiceSlot}
    {out : Except ServiceInstallRefusal Unit} (h : install.occupy slot s = (s', out)) :
    Leaves ((s.slotAt slot.key).bind fun old =>
        if (s.fibers old.fiber).alive then none else some old.occurrence) s s' ∧
      (out = .ok () → s'.holds slot.key slot.occurrence = true) := by
  unfold install.occupy at h
  split at h
  · cases h
    exact ⟨Leaves.refl _ s, nofun⟩
  · rename_i hdead
    cases h
    have hslotAt : ∀ other, { s.removeSlot slot.key with
        slots := slot :: (s.removeSlot slot.key).slots }.slotAt other =
          if slot.key = other then some slot else s.slotAt other := by
      intro other
      have hold := slotAt_removeSlot s slot.key other
      by_cases hother : slot.key = other
      · simp [slotAt, hother]
      · rw [if_neg fun heq => hother heq.symm] at hold
        simpa [slotAt, hother] using hold
    refine ⟨⟨rfl, rfl, rfl, rfl, fun cleanup hregistered => ?_⟩, fun _ => ?_⟩
    · cases cleanup with
      | withdrawExact other occurrence =>
          simp only [registered, holds] at hregistered ⊢
          rw [hslotAt]
          split
          · rename_i heq
            -- the slot gives way only because its owner is dead
            subst heq
            cases hold : s.slotAt slot.key with
            | none =>
                rw [hold] at hregistered
                cases hregistered
            | some old =>
                rw [hold] at hregistered hdead
                have hsame : old.occurrence = occurrence := of_decide_eq_true hregistered
                refine .inr ⟨old.occurrence, ?_, congrArg some hsame.symm⟩
                exact if_neg hdead
          · exact .inl hregistered
      | _ => exact .inl hregistered
    · unfold holds
      rw [hslotAt, if_pos rfl]
      exact decide_eq_true rfl

theorem install_spec {s s' : Root} {slot : ServiceSlot}
    {out : Except ServiceInstallRefusal Unit} (h : s.install slot = (s', out)) :
    Leaves (s.evicted slot.key slot.contract) s s' ∧
      (out = .ok () → s'.holds slot.key slot.occurrence = true) := by
  unfold install at h
  cases hbound : s.contracts slot.key.service with
  | none =>
      simp only [hbound] at h
      have hspec := occupy_spec h
      have hevicted : s.evicted slot.key slot.contract = (s.slotAt slot.key).bind fun old =>
          if (s.fibers old.fiber).alive then none else some old.occurrence := by
        simp [evicted, hbound]
      rw [hevicted]
      have hkept := hspec.1
      exact ⟨⟨hkept.fibers, hkept.nextId, hkept.controls, hkept.removing, hkept.registered⟩, hspec.2⟩
  | some bound =>
      simp only [hbound] at h
      split at h
      · rename_i heq
        have hevicted : s.evicted slot.key slot.contract = (s.slotAt slot.key).bind fun old =>
            if (s.fibers old.fiber).alive then none else some old.occurrence := by
          simp [evicted, hbound, heq]
        rw [hevicted]
        exact occupy_spec h
      · cases h
        exact ⟨Leaves.refl _ s, nofun⟩

theorem find_add {hooks : Update.Hooks} {contract other : PluginKey} {hook : Update.UpdateHook}
    {id : ResourceId} (h : (hooks.find other id).isSome = true ∨
      (other = contract ∧ id = hook.id)) :
    ((hooks.add contract hook).find other id).isSome = true := by
  unfold Update.Hooks.add
  rw [find_put]
  split
  · rename_i heq
    subst heq
    have hmember : ∃ known ∈ (if hook.prepend then hook :: hooks other else hooks other ++ [hook]),
        known.id = id := by
      rcases h with h | h
      · rcases Option.isSome_iff_exists.mp h with ⟨known, hknown⟩
        have hfound := List.find?_some hknown
        have hid : known.id = id := of_decide_eq_true hfound
        have hmem := List.mem_of_find?_eq_some hknown
        refine ⟨known, ?_, hid⟩
        split
        · exact List.mem_cons_of_mem _ hmem
        · exact List.mem_append_left _ hmem
      · refine ⟨hook, ?_, h.2.symm⟩
        split
        · exact List.mem_cons_self
        · exact List.mem_append_right _ List.mem_cons_self
    rcases hmember with ⟨known, hmem, hid⟩
    exact List.find?_isSome.mpr ⟨known, hmem, decide_eq_true hid⟩
  · rename_i hne
    rcases h with h | h
    · exact h
    · exact absurd h.1 hne

/-- A publication takes out what it evicts, and puts in the resource of its obligation. -/
theorem publish_spec {s s' : Root} {f : FiberId} {id : ResourceId} {step : PublishStep}
    {out : Option Cleanup} (h : s.publish f id step = (s', out)) :
    Leaves (s.evicts step) s s' ∧ ∀ cleanup, out = some cleanup →
      s'.registered cleanup = true ∧ (cleanup.resource = none ∨ cleanup.resource = some id) := by
  cases step with
  | noPublish =>
      -- no resource is put in; the cleanup of a plain effect has none
      cases h
      refine ⟨Leaves.refl _ s, fun cleanup hout => ?_⟩
      cases hout
      exact ⟨rfl, .inl rfl⟩
  | service key contract =>
      simp only [publish] at h
      split at h
      · rename_i s₁ hinstall
        cases h
        have hspec := install_spec hinstall
        refine ⟨hspec.1, fun cleanup hout => ?_⟩
        cases hout
        exact ⟨hspec.2 rfl, .inr rfl⟩
      -- a refused installation puts nothing in
      · rename_i s₁ refusal hinstall
        cases h
        exact ⟨(install_spec hinstall).1, nofun⟩
  | listener E scope kind options =>
      simp only [publish] at h
      split at h
      · rename_i events hadd
        cases h
        have hfind := EventState.find_addReserved hadd
        refine ⟨⟨rfl, rfl, rfl, rfl, fun cleanup hregistered => ?_⟩, fun cleanup hout => ?_⟩
        · cases cleanup with
          | removeListener other id' =>
              left
              simp only [registered] at hregistered ⊢
              rw [hfind]
              split
              · rfl
              · exact hregistered
          | _ => exact .inl hregistered
        · cases hout
          refine ⟨?_, .inr rfl⟩
          simp only [registered]
          rw [hfind, if_pos ⟨rfl, rfl⟩]
          rfl
      · cases h
        exact ⟨Leaves.refl _ s, nofun⟩
  | update contract scope kind options =>
      cases h
      refine ⟨⟨rfl, rfl, rfl, rfl, fun cleanup hregistered => ?_⟩, fun cleanup hout => ?_⟩
      · cases cleanup with
        | removeUpdate other id' => exact .inl (find_add (.inl hregistered))
        | _ => exact .inl hregistered
      · cases hout
        exact ⟨find_add (.inr ⟨rfl, rfl⟩), .inr rfl⟩
  | exporter =>
      cases h
      refine ⟨⟨rfl, rfl, rfl, rfl, fun cleanup hregistered => ?_⟩, fun cleanup hout => ?_⟩
      · cases cleanup with
        | removeExporter other =>
            exact .inl (decide_eq_true (List.mem_append_left _ (of_decide_eq_true hregistered)))
        | _ => exact .inl hregistered
      · cases hout
        exact ⟨decide_eq_true (List.mem_append_right _ List.mem_cons_self), .inr rfl⟩
  | observer =>
      cases h
      refine ⟨⟨rfl, rfl, rfl, rfl, fun cleanup hregistered => ?_⟩, fun cleanup hout => ?_⟩
      · cases cleanup with
        | removeObserver other =>
            exact .inl (decide_eq_true (List.mem_cons_of_mem _ (of_decide_eq_true hregistered)))
        | _ => exact .inl hregistered
      · cases hout
        exact ⟨decide_eq_true List.mem_cons_self, .inr rfl⟩

end Root

end Journal
end CordisCore
