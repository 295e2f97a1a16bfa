import CordisCore.Events.Ledger
import CordisCore.Context.Independence

/-!
# Effective order — what a preflight selects, from the history alone

Prepending puts a hook in front of what is registered, appending behind it, and
a removal leaves the others where they are.  A preflight answers with the
eligible hooks of this order, or refuses because of the first role it cannot run.
-/

namespace CordisCore
namespace Events

open Interleaving
open Axes (ScopeNode)

variable {V : Type}

/-! ## The store in effective order -/

namespace EventState

theorem effective_setHooks (state : EventState) (name other : String) (list : Option EventHooks) :
    (state.setHooks name list).effective other =
      if other = name then (list.map EventHooks.iter).getD [] else state.effective other := by
  unfold effective setHooks
  simp only
  split <;> rfl

theorem effective_setOrDrop (state : EventState) (name other : String) (list : EventHooks) :
    (state.setOrDrop name list).effective other =
      if other = name then list.iter else state.effective other := by
  rw [setOrDrop, effective_setHooks]
  split
  · split
    · rename_i hempty
      have hnone := (EventHooks.isEmpty_iff list).mp hempty
      refine (List.filterMap_eq_nil_iff.mpr fun id _ => hnone id).symm
    · rfl
  · rfl

/-- A fresh hook goes to the end that its option names. -/
theorem effective_addFresh {state state' : EventState} {E : Event} {hook : Hook}
    (hfresh : ∀ list, state.hooks E.NAME = some list → hook.id ∉ list.order)
    (h : state.addReserved E hook = some state') (name : String) :
    state'.effective name =
      if name = E.NAME then
        if hook.prepend then hook :: state.effective name else state.effective name ++ [hook]
      else state.effective name := by
  simp only [addReserved, Option.map_eq_some_iff] at h
  rcases h with ⟨bounded, hbound, rfl⟩
  have hhooks := hooks_bindLocked hbound
  rw [effective_setHooks, hhooks]
  by_cases hname : name = E.NAME
  · subst hname
    simp only [if_true, Option.map_some, Option.getD_some]
    have hnew : hook.id ∉ ((state.hooks E.NAME).getD {}).order := by
      cases hlist : state.hooks E.NAME with
      | none => exact List.not_mem_nil
      | some list => exact hfresh list hlist
    rw [EventHooks.iter_add hnew]
    have hold : ((state.hooks E.NAME).getD {}).iter = state.effective E.NAME := by
      unfold effective
      cases state.hooks E.NAME <;> rfl
    rw [hold]
  · rw [if_neg hname, if_neg hname]
    unfold effective
    rw [hhooks]

theorem effective_addReserved {state state' : EventState} {E : Event} {hook : Hook} {bound : Nat}
    (hsound : ∀ list, state.hooks E.NAME = some list → list.Sound bound) (hfresh : hook.id = bound)
    (h : state.addReserved E hook = some state') (name : String) :
    state'.effective name =
      if name = E.NAME then
        if hook.prepend then hook :: state.effective name else state.effective name ++ [hook]
      else state.effective name :=
  effective_addFresh (fun list hlist => (hsound list hlist).fresh hfresh) h name

theorem effective_remove (state : EventState) (name other : String)
    (id : ListenerRegistrationId) : (state.remove name id).1.effective other =
      if (state.remove name id).2 = true ∧ other = name then
        (state.effective other).filter fun hook => hook.id != id
      else state.effective other := by
  unfold remove
  cases hlist : state.hooks name with
  | none => simp
  | some list =>
      cases hget : list.get id with
      | none => simp [hget]
      | some hook =>
          simp only [hget, true_and]
          rw [effective_setOrDrop]
          by_cases hother : other = name
          · subst hother
            simp [EventHooks.iter_remove, effective, hlist]
          · simp [hother]

theorem effective_claim (state : EventState) (name other : String)
    (id : ListenerRegistrationId) : (state.claim name id).1.effective other =
      if (state.claim name id).2.2 = true ∧ other = name then
        (state.effective other).filter fun hook => hook.id != id
      else state.effective other := by
  unfold claim
  cases hlist : state.hooks name with
  | none => simp
  | some list =>
      cases hget : list.get id with
      | none => simp [hget]
      | some hook =>
          cases honce : hook.once with
          | false => simp [hget, honce]
          | true =>
              simp only [hget, honce, if_true, true_and]
              rw [effective_setOrDrop]
              by_cases hother : other = name
              · subst hother
                simp [EventHooks.iter_remove, effective, hlist]
              · simp [hother]

/-! ### Contracts -/

theorem bindLocked_eq_none {state : EventState} {E : Event} :
    state.bindLocked E = none ↔ ∃ bound, state.contracts E.NAME = some bound ∧ bound ≠ E.contract := by
  unfold bindLocked
  cases hcontract : state.contracts E.NAME with
  | none => simp
  | some bound => simp

theorem contracts_remove (state : EventState) (name other : String) (id : ListenerRegistrationId) :
    (state.remove name id).1.contracts other = state.contracts other := by
  unfold remove
  split
  · rfl
  · split <;> rfl

theorem contracts_claim (state : EventState) (name other : String) (id : ListenerRegistrationId) :
    (state.claim name id).1.contracts other = state.contracts other := by
  unfold claim
  split
  · rfl
  · split
    · rfl
    · split <;> rfl

theorem contracts_bindLocked {state state' : EventState} {E : Event}
    (h : state.bindLocked E = some state') (name : String) :
    state'.contracts name = if name = E.NAME then some E.contract else state.contracts name := by
  unfold bindLocked at h
  split at h
  · rename_i bound hbound
    split at h
    · rename_i hsame
      cases h
      split
      · rename_i hname
        rw [hname, hbound, hsame]
      · rfl
    · cases h
  · cases h
    rfl

end EventState

/-! ## What a dispatch reaches -/

/-- Dispatched without a Scope, or registered globally, at the root, or on a Scope that is the
dispatching one or an ancestor of it. -/
def Eligible (routing : Routing) (hook : Hook) : Prop :=
  routing = .unscoped ∨ hook.global = true ∨ hook.scope = [] ∨
    ∃ scope node, routing = .scoped scope ∧ hook.scope.head? = some node ∧ node ∈ scope.layer

theorem eligible_iff (routing : Routing) (hook : Hook) :
    EventState.eligible routing hook = true ↔ Eligible routing hook := by
  rcases routing with _ | scope
  · exact iff_of_true rfl (.inl rfl)
  · have hchain : Axes.eligible hook.scope scope.layer = true ↔ hook.scope = [] ∨
        ∃ node, hook.scope.head? = some node ∧ node ∈ scope.layer := by
      cases hscope : hook.scope with
      | nil => simp [Axes.eligible]
      | cons node parents =>
          cases hlayer : scope.layer with
          | nil => simp [Axes.eligible]
          | cons current outer => simp [Axes.eligible, Axes.reaches_iff]
    simp only [EventState.eligible, Bool.or_eq_true, hchain, Eligible]
    simp

instance (routing : Routing) (hook : Hook) : Decidable (Eligible routing hook) :=
  decidable_of_iff _ (eligible_iff routing hook)

/-- What a preflight answers where these hooks are registered. -/
def selection (bound : Option EventContract) (hooks : List Hook) (E : Event) (routing : Routing)
    (operation : EventOperation) : Except DispatchError (List HookSnap) :=
  if ∀ contract, bound = some contract → contract = E.contract then
    let selected := hooks.filter fun hook => Eligible routing hook
    match selected.find? fun hook => !EventState.compatible operation hook.kind.role with
    | some hook => .error (.incompatibleRole operation hook.kind.role)
    | none => .ok (selected.map Hook.snap)
  else .error (.eventContractMismatch E.NAME)

/-- What is selected are the snapshots of the eligible hooks. -/
theorem eq_of_selection {bound : Option EventContract} {hooks : List Hook} {E : Event}
    {routing : Routing} {operation : EventOperation} {snaps : List HookSnap}
    (h : selection bound hooks E routing operation = .ok snaps) :
    snaps = (hooks.filter fun hook => Eligible routing hook).map Hook.snap := by
  unfold selection at h
  split at h
  · simp only at h
    split at h
    · cases h
    · exact (Except.ok.inj h).symm
  · cases h

theorem EventState.preflight_eq_selection (state : EventState) (E : Event) (routing : Routing)
    (operation : EventOperation) : (state.preflight E routing operation).2 =
      selection (state.contracts E.NAME) (state.effective E.NAME) E routing operation := by
  have hfilter : ∀ hooks : List Hook, hooks.filter (EventState.eligible routing) =
      hooks.filter fun hook => Eligible routing hook := by
    intro hooks
    apply List.filter_congr
    intro hook _
    rw [Bool.eq_iff_iff, eligible_iff, decide_eq_true_iff]
  unfold EventState.preflight selection
  cases hbound : state.bindLocked E with
  | none =>
      rcases EventState.bindLocked_eq_none.mp hbound with ⟨bound, hcontract, hne⟩
      rw [if_neg fun hall => hne (hall bound hcontract)]
  | some bounded =>
      have hsame : ∀ contract, state.contracts E.NAME = some contract → contract = E.contract := by
        intro contract hcontract
        by_contra hne
        have hnone := EventState.bindLocked_eq_none.mpr ⟨contract, hcontract, hne⟩
        rw [hbound] at hnone
        cases hnone
      rw [if_pos hsame]
      simp only [EventState.hooks_bindLocked hbound, EventState.effective]
      cases hlist : state.hooks E.NAME with
      | none => rfl
      | some list =>
          simp only [Option.map_some, Option.getD_some, hfilter, EventHooks.iter_compact,
            List.find?_map]
          cases hfind : (list.iter.filter fun hook => Eligible routing hook).find?
              (fun hook => !compatible operation hook.kind.role) with
          | none =>
              have hcomp : (list.iter.filter fun hook => decide (Eligible routing hook)).find?
                  ((fun role => !compatible operation role) ∘ fun hook => hook.kind.role) = none :=
                hfind
              simp only [hcomp, Option.map_none]
          | some hook =>
              have hcomp : (list.iter.filter fun hook => decide (Eligible routing hook)).find?
                  ((fun role => !compatible operation role) ∘ fun hook => hook.kind.role) =
                    some hook := hfind
              simp only [hcomp, Option.map_some]

/-! ## The order that a history leaves behind -/

/-- What one access does to the order of an event. -/
def orderStep (name : String) (event : Performed V) (hooks : List Hook) : List Hook :=
  match hookOf event with
  | some (registered, hook) =>
      if name = registered then if hook.prepend then hook :: hooks else hooks ++ [hook] else hooks
  | none =>
      match removedOf event with
      | some (gone, id) => if name = gone then hooks.filter fun hook => hook.id != id else hooks
      | none => hooks

/-- The registered hooks of an event, first to last. -/
def order (name : String) (history : History V) : List Hook :=
  history.foldr (fun row hooks => orderStep name row.2 hooks) []

/-- The event whose contract this access requires, where it is not refused for that. -/
def requiredOf : Performed V → Option Event
  | ⟨.preflight _ _ _, .error (.eventContractMismatch _)⟩ => none
  | ⟨.preflight E _ _, _⟩ => some E
  | ⟨.pushGated _ E _ _ _, .ok _⟩ => some E
  | _ => none

/-- The contract that a name is bound to. -/
def boundContract (name : String) (history : History V) : Option EventContract :=
  history.foldr (fun row bound =>
    match requiredOf row.2 with
    | some E => if name = E.NAME then some E.contract else bound
    | none => bound) none

/-- What one access does to the order and the contracts of the store. -/
structure Orders (s s' : Shared) (event : Performed V) : Prop where
  effective : ∀ name, s'.events.effective name = orderStep name event (s.events.effective name)
  contracts : ∀ name, s'.events.contracts name =
    match requiredOf event with
    | some E => if name = E.NAME then some E.contract else s.events.contracts name
    | none => s.events.contracts name
  selected : ∀ E routing operation answer, event = ⟨.preflight E routing operation, answer⟩ →
    answer = selection (s.events.contracts E.NAME) (s.events.effective E.NAME) E routing operation

theorem Orders.of_same {s s' : Shared} {event : Performed V} (hevents : s'.events = s.events)
    (hhook : hookOf event = none) (hremoved : removedOf event = none)
    (hrequired : requiredOf event = none)
    (hother : ∀ E routing operation answer, event ≠ ⟨.preflight E routing operation, answer⟩) :
    Orders s s' event where
  effective name := by
    rw [hevents]
    simp only [orderStep, hhook, hremoved]
  contracts name := by
    rw [hevents]
    simp only [hrequired]
  selected E routing operation answer heq := absurd heq (hother E routing operation answer)

theorem orders_preflight (s : Shared) (E : Event) (routing : Routing)
    (operation : EventOperation) :
    Orders (V := V) s { s with events := (s.events.preflight E routing operation).1 }
      ⟨.preflight E routing operation, (s.events.preflight E routing operation).2⟩ where
  effective name := EventState.effective_preflight s.events E routing operation name
  contracts name := by
    unfold EventState.preflight
    cases hbound : s.events.bindLocked E with
    | none => rfl
    | some bounded =>
        have hcontracts := EventState.contracts_bindLocked hbound name
        simp only
        split
        · exact hcontracts
        · split <;> exact hcontracts
  selected E' routing' operation' answer heq := by
    cases heq
    exact EventState.preflight_eq_selection s.events E routing operation

theorem orders_claim (s : Shared) (name : String) (id : ListenerRegistrationId) :
    Orders (V := V) s { s with events := (s.events.claim name id).1 }
      ⟨.claim name id, (s.events.claim name id).2⟩ where
  effective other := by
    simp only [orderStep, hookOf, removedOf_claim]
    rw [EventState.effective_claim]
    by_cases hgone : (s.events.claim name id).2.2 = true <;> simp [hgone]
  contracts other := EventState.contracts_claim s.events name other id
  selected E routing operation answer heq := by cases heq

theorem orders_remove (s : Shared) (name : String) (id : ListenerRegistrationId) :
    Orders (V := V) s { s with events := (s.events.remove name id).1 }
      ⟨.remove name id, (s.events.remove name id).2⟩ where
  effective other := by
    simp only [orderStep, hookOf, removedOf_remove]
    rw [EventState.effective_remove]
    by_cases hgone : (s.events.remove name id).2 = true <;> simp [hgone]
  contracts other := EventState.contracts_remove s.events name other id
  selected E routing operation answer heq := by cases heq

theorem orders_pushGated {s : Shared} (hs : Sound s) (owner : FiberId) (E : Event)
    (scope : List ScopeNode) (kind : HookKind) (options : ListenerOptions) :
    Orders (V := V) s (s.pushGated owner E scope kind options).1
      ⟨.pushGated owner E scope kind options, (s.pushGated owner E scope kind options).2⟩ := by
  unfold Shared.pushGated
  simp only
  split
  · cases hadd : s.events.addReserved E (Hook.new scope kind options s.ids) with
    | none => exact .of_same rfl rfl rfl rfl fun _ _ _ _ heq => by cases heq
    | some events =>
        have hcontracts : ∀ name, events.contracts name =
            if name = E.NAME then some E.contract else s.events.contracts name := by
          have hparts := hadd
          simp only [EventState.addReserved, Option.map_eq_some_iff] at hparts
          rcases hparts with ⟨bounded, hbound, rfl⟩
          exact fun name => EventState.contracts_bindLocked hbound name
        exact ⟨EventState.effective_addReserved (hs E.NAME) rfl hadd, hcontracts,
          fun _ _ _ _ heq => by cases heq⟩
  · exact .of_same rfl rfl rfl rfl fun _ _ _ _ heq => by cases heq

theorem orders_of_exec {choice : Choice V} {op : Op V} {s s' : Shared} {r : op.Ret} (hs : Sound s)
    (h : exec choice op s = some (s', r)) : Orders s s' ⟨op, r⟩ := by
  cases op with
  | preflight E routing operation =>
      cases h
      exact orders_preflight s E routing operation
  | claim event id =>
      cases h
      exact orders_claim s event id
  | remove event id =>
      cases h
      exact orders_remove s event id
  | pushGated owner E scope kind options =>
      have hpush : s.pushGated owner E scope kind options = (s', r) := Option.some.inj h
      have horders := orders_pushGated (V := V) hs owner E scope kind options
      rw [hpush] at horders
      exact horders
  | unreachable => cases h
  | publish | call | ended | moved | resumed | tail | tailEnded | discard
  | removeDisposable | tokens | deliver | reported | setGate =>
      cases h
      exact .of_same rfl rfl rfl rfl fun _ _ _ _ heq => by cases heq

/-! ## Every preflight of a run -/

structure Ordered (s : Record V) : Prop where
  effective : ∀ name, s.state.events.effective name = order name s.history
  contracts : ∀ name, s.state.events.contracts name = boundContract name s.history
  /-- A preflight selects from what was registered and not removed before it. -/
  selected : ∀ later p E routing operation answer earlier,
    s.history = later ++ (p, ⟨.preflight E routing operation, answer⟩) :: earlier →
      answer = selection (boundContract E.NAME earlier) (order E.NAME earlier) E routing operation

namespace Ordered

variable {s : Record V}

theorem init : Ordered ({ state := {} } : Record V) where
  effective _ := rfl
  contracts _ := rfl
  selected later p E routing operation answer earlier h := by cases later <;> cases h

theorem same (h : Ordered s) {s' : Record V} (hhistory : s'.history = s.history)
    (hevents : s'.state.events = s.state.events) : Ordered s' where
  effective := by
    rw [hhistory, hevents]
    exact h.effective
  contracts := by
    rw [hhistory, hevents]
    exact h.contracts
  selected := by
    rw [hhistory]
    exact h.selected

theorem record (h : Ordered s) {p : Party} {state : Shared} {event : Performed V}
    (hstep : Orders s.state state event) : Ordered ((s.move state).record p event) where
  effective name := by
    change state.events.effective name = orderStep name event (order name s.history)
    rw [hstep.effective, h.effective]
  contracts name := by
    have hcontracts := hstep.contracts name
    rw [h.contracts] at hcontracts
    exact hcontracts
  selected := by
    intro later q E routing operation answer earlier hsplit
    change (p, event) :: s.history = _ at hsplit
    cases later with
    | nil =>
        cases hsplit
        rw [← h.contracts, ← h.effective]
        exact hstep.selected E routing operation answer rfl
    | cons row later =>
        rw [List.cons_append, List.cons.injEq] at hsplit
        exact h.selected later q E routing operation answer earlier hsplit.2

theorem of_reachable {ok : Machine.Condition (Record V) (Op V) (Choice V)}
    {cfg : Config (Record V) (Op V) Op.Ret (Answer V)}
    (h : (machine V).recorded.Reachable ok cfg) : Ordered cfg.shared := by
  have hboth : Ledger cfg.shared ∧ Ordered cfg.shared := by
    refine Machine.recorded_invariant (I := fun s => Ledger s ∧ Ordered s) ⟨Ledger.init, init⟩
      ?_ ?_ ?_ ?_ h
    · exact fun hs hexec => ⟨hs.1.record (steps_of_exec hexec),
        hs.2.record (orders_of_exec hs.1.sound hexec)⟩
    · exact fun hs => ⟨hs.1.same rfl rfl rfl rfl, hs.2.same rfl rfl⟩
    · intro s p routine s' hs henter
      have hkept := Ledger.enter_kept henter
      exact ⟨hs.1.same rfl hkept.1 hkept.2.1 hkept.2.2, hs.2.same rfl hkept.1⟩
    · intro s p s' next hs hdrop
      simp only [machine, Option.some.injEq, Prod.mk.injEq] at hdrop
      rcases hdrop with ⟨rfl, rfl⟩
      exact ⟨hs.1.same rfl rfl rfl rfl, hs.2.same rfl rfl⟩
  exact hboth.2

end Ordered

end Events
end CordisCore
