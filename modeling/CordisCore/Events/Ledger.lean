import CordisCore.Events.Dispatch

/-!
# Listener ledger — the store as a function of what was performed

An occurrence is in the store exactly when its registration was performed and no
removal of it was, by whomever; a claim answers accordingly.
-/

namespace CordisCore
namespace Events

open Interleaving
open Axes (ScopeNode)

variable {V : Type}

abbrev Record (V : Type) := Recorded Shared (Op V) Op.Ret (Routine V)

abbrev Performed (V : Type) := Interleaving.Event (Op V) Op.Ret

abbrev History (V : Type) := List (Party × Performed V)

/-! ## What the events say -/

/-- The name and the hook of a registration. -/
def hookOf : Performed V → Option (String × Hook)
  | ⟨.pushGated _ E scope kind options, .ok (id, _)⟩ =>
      some (E.NAME, Hook.new scope kind options id)
  | _ => none

/-- The occurrence that this access unregistered. -/
def removedOf : Performed V → Option (String × ListenerRegistrationId)
  | ⟨.remove event id, true⟩ => some (event, id)
  | ⟨.claim event id, (_, true)⟩ => some (event, id)
  | _ => none

/-- The occurrence that is reported as unregistered. -/
def unregisteredOf : Performed V → Option (String × ListenerRegistrationId)
  | ⟨.publish (.listenerRegistration .unregistered listener), _⟩ =>
      some (listener.event, listener.id)
  | _ => none

/-- The record that was handed to the hub. -/
def publishedOf : Performed V → Option RuntimeObservation
  | ⟨.publish record, _⟩ => some record
  | _ => none

theorem removedOf_claim (name : String) (id : ListenerRegistrationId) (answer : Bool × Bool) :
    removedOf (V := V) ⟨.claim name id, answer⟩ = if answer.2 then some (name, id) else none := by
  rcases answer with ⟨claimed, unregistered⟩
  cases unregistered <;> rfl

theorem removedOf_remove (name : String) (id : ListenerRegistrationId) (removed : Bool) :
    removedOf (V := V) ⟨.remove name id, removed⟩ = if removed then some (name, id) else none := by
  cases removed <;> rfl

/-- The registrations so far, the latest first. -/
def registrations (history : History V) : List (String × Hook) :=
  history.filterMap fun row => hookOf row.2

/-- The removals so far, the latest first. -/
def removals (history : History V) : List (String × ListenerRegistrationId) :=
  history.filterMap fun row => removedOf row.2

/-- The hook with this identity is registered and was not removed. -/
def Live (history : History V) (name : String) (hook : Hook) : Prop :=
  (name, hook) ∈ registrations history ∧ (name, hook.id) ∉ removals history

/-! ## The admitted answers -/

/-- What a preflight selects: every hook once, and of a role that the operation can run. -/
def Admits : (op : Op V) → op.Ret → Prop
  | .preflight _ _ operation, .ok hooks =>
      (hooks.map HookSnap.id).Nodup ∧ ∀ hook ∈ hooks, EventState.compatible operation hook.kind.role
  | _, _ => True

/-- Every table of the store is sound. -/
def Sound (s : Shared) : Prop :=
  ∀ name list, s.events.hooks name = some list → EventHooks.Sound s.ids list

namespace EventHooks

theorem nodup_iter {bound : Nat} {list : EventHooks} (h : list.Sound bound) :
    (list.iter.map Hook.id).Nodup := by
  have hsub : (list.iter.map Hook.id).Sublist list.order := by
    unfold iter
    rw [List.map_filterMap]
    have hself : ∀ id, (list.get id).map Hook.id = if (list.get id).isSome then some id else none := by
      intro id
      cases hget : list.get id with
      | none => rfl
      | some hook => simp [id_of_get hget]
    simp only [hself]
    induction list.order with
    | nil => exact .slnil
    | cons id order ih =>
        rw [List.filterMap_cons]
        split
        · exact ih.cons id
        · rename_i heq
          split at heq
          · cases heq
            exact ih.cons_cons id
          · cases heq
  exact h.once.sublist hsub

end EventHooks

theorem admits_preflight {s : Shared} (h : Sound s) (E : Event) (routing : Routing)
    (operation : EventOperation) :
    Admits (V := V) (.preflight E routing operation)
      (s.events.preflight E routing operation).2 := by
  unfold EventState.preflight
  cases hbound : s.events.bindLocked E with
  | none => trivial
  | some bound =>
      have hhooks := EventState.hooks_bindLocked hbound
      simp only [hhooks]
      cases hlist : s.events.hooks E.NAME with
      | none => exact ⟨.nil, nofun⟩
      | some list =>
          simp only
          split
          · trivial
          · rename_i hroles
            constructor
            · have hids : (List.map Hook.snap (list.compactIfSparse.iter.filter
                  (EventState.eligible routing))).map HookSnap.id =
                    (list.compactIfSparse.iter.filter (EventState.eligible routing)).map Hook.id := by
                rw [List.map_map]
                rfl
              rw [hids]
              have hnodup := EventHooks.nodup_iter (h E.NAME list hlist).compact
              exact hnodup.sublist (List.filter_sublist.map _)
            · intro snap hsnap
              rcases List.mem_map.mp hsnap with ⟨hook, hhook, rfl⟩
              rw [List.find?_eq_none] at hroles
              have hrole := hroles hook.kind.role (List.mem_map_of_mem hhook)
              simpa [Hook.snap] using hrole

/-! ## What one access changes -/

/-- The specification of one operation. -/
structure Steps (s s' : Shared) (event : Performed V) : Prop where
  ids : s.ids ≤ s'.ids
  registered : ∀ name hook, hookOf event = some (name, hook) → hook.id = s.ids ∧ s.ids < s'.ids
  find : ∀ name id, s'.events.find name id =
    match hookOf event with
    | some (event, hook) => if name = event ∧ id = hook.id then some hook else s.events.find name id
    | none => if removedOf event = some (name, id) then none else s.events.find name id
  removed : ∀ name id, removedOf event = some (name, id) → hookOf event = none ∧
    (s.events.find name id).isSome
  claimed : ∀ name id answer, event = ⟨.claim name id, answer⟩ →
    answer.1 = (s.events.find name id).isSome ∧
      answer.2 = ((s.events.find name id).map Hook.once).getD false
  records : s'.records = (publishedOf event).toList ++ s.records
  sound : Sound s → Sound s'
  admitted : Sound s → Admits event.1 event.2

/-- Operations that leave the store alone. -/
theorem Steps.of_same {s s' : Shared} {event : Performed V} (hevents : s'.events = s.events)
    (hids : s'.ids = s.ids) (hrecords : s'.records = (publishedOf event).toList ++ s.records)
    (hhook : hookOf event = none) (hremoved : removedOf event = none)
    (hclaim : ∀ name id answer, event ≠ ⟨.claim name id, answer⟩)
    (hadmits : Admits event.1 event.2) : Steps s s' event where
  ids := Nat.le_of_eq hids.symm
  registered name hook h := by
    rw [hhook] at h
    cases h
  find name id := by
    simp [hhook, hremoved, hevents]
  removed name id h := by
    rw [hremoved] at h
    cases h
  claimed name id answer h := absurd h (hclaim name id answer)
  records := hrecords
  sound h := by
    unfold Sound
    rw [hevents, hids]
    exact h
  admitted _ := hadmits

theorem sound_setHooks {s : Shared} {events : EventState} (hs : Sound s)
    (hhooks : ∀ name, events.hooks name = s.events.hooks name) {bound : Nat} (hle : s.ids ≤ bound)
    {name : String} {table : Option EventHooks}
    (htable : ∀ list, table = some list → list.Sound bound) :
    ∀ other list, (events.setHooks name table).hooks other = some list → list.Sound bound := by
  intro other list hlist
  simp only [EventState.setHooks] at hlist
  split at hlist
  · exact htable list hlist
  · rw [hhooks] at hlist
    exact (hs other list hlist).mono hle

theorem sound_setOrDrop {s : Shared} (hs : Sound s) {name : String} {list : EventHooks}
    (hlist : list.Sound s.ids) :
    ∀ other table, (s.events.setOrDrop name list).hooks other = some table → table.Sound s.ids := by
  refine sound_setHooks hs (fun _ => rfl) (Nat.le_refl _) fun table htable => ?_
  split at htable
  · cases htable
  · exact Option.some.inj htable ▸ hlist

theorem steps_claim (s : Shared) (name : String) (id : ListenerRegistrationId) :
    Steps (V := V) s { s with events := (s.events.claim name id).1 }
      ⟨.claim name id, (s.events.claim name id).2⟩ := by
  have hclaim := EventState.find_claim s.events name id
  have hanswer : (s.events.claim name id).2.2 =
      ((s.events.find name id).map Hook.once).getD false := by
    rw [hclaim.1]
  have hremoved := removedOf_claim (V := V) name id (s.events.claim name id).2
  constructor
  case ids => exact Nat.le_refl _
  case registered => exact nofun
  case find =>
    intro other id'
    have hstep := hclaim.2 other id'
    simp only [hookOf, hremoved]
    rw [hstep]
    -- a claim takes the hook out exactly if it is a once hook
    by_cases hgone : (s.events.claim name id).2.2 = true
    · simp only [hgone, if_true, true_and, Option.some.injEq, Prod.mk.injEq]
      by_cases hboth : other = name ∧ id' = id
      · simp [hboth.1, hboth.2]
      · rw [if_neg hboth, if_neg fun h => hboth ⟨h.1.symm, h.2.symm⟩]
    · simp [hgone]
  case removed =>
    intro other id' h
    rw [hremoved] at h
    refine ⟨rfl, ?_⟩
    split at h
    · rename_i hgone
      cases h
      rw [hanswer] at hgone
      cases hfind : s.events.find name id with
      | none =>
          rw [hfind] at hgone
          cases hgone
      | some hook => rfl
    · cases h
  case claimed =>
    intro other id' answer heq
    cases heq
    rw [hclaim.1]
    exact ⟨rfl, rfl⟩
  case records => rfl
  case sound =>
    intro hs
    unfold EventState.claim
    cases hlist : s.events.hooks name with
    | none => exact hs
    | some list =>
        cases hget : list.get id with
        | none =>
            simp only [hget]
            exact hs
        | some hook =>
            simp only [hget]
            split
            · exact sound_setOrDrop hs ((hs name list hlist).remove id)
            · exact hs
  case admitted => exact fun _ => trivial

theorem steps_remove (s : Shared) (name : String) (id : ListenerRegistrationId) :
    Steps (V := V) s { s with events := (s.events.remove name id).1 }
      ⟨.remove name id, (s.events.remove name id).2⟩ := by
  have hremove := EventState.find_remove s.events name id
  have hremoved : removedOf (V := V) ⟨.remove name id, (s.events.remove name id).2⟩ =
      if (s.events.find name id).isSome then some (name, id) else none := by
    rw [← hremove.1]
    exact removedOf_remove name id _
  constructor
  case ids => exact Nat.le_refl _
  case registered => exact nofun
  case find =>
    intro other id'
    have hstep := hremove.2 other id'
    have hhook : hookOf (V := V) ⟨.remove name id, (s.events.remove name id).2⟩ = none := rfl
    simp only [hhook, hremoved]
    rw [hstep]
    -- only the hook with this name and this id goes
    by_cases hboth : other = name ∧ id' = id
    · rw [if_pos hboth, hboth.1, hboth.2]
      cases hfind : s.events.find name id <;> simp
    · have hne : ¬ (name = other ∧ id = id') := fun h => hboth ⟨h.1.symm, h.2.symm⟩
      rw [if_neg hboth]
      cases hfind : s.events.find name id <;> simp [hne]
  case removed =>
    intro other id' h
    rw [hremoved] at h
    refine ⟨rfl, ?_⟩
    split at h
    · rename_i hsome
      cases h
      exact hsome
    · cases h
  case claimed => exact nofun
  case records => rfl
  case sound =>
    intro hs
    unfold EventState.remove
    cases hlist : s.events.hooks name with
    | none => exact hs
    | some list =>
        cases hget : list.get id with
        | none =>
            simp only [hget]
            exact hs
        | some hook =>
            simp only [hget]
            exact sound_setOrDrop hs ((hs name list hlist).remove id)
  case admitted => exact fun _ => trivial

theorem steps_preflight (s : Shared) (E : Event) (routing : Routing)
    (operation : EventOperation) :
    Steps (V := V) s { s with events := (s.events.preflight E routing operation).1 }
      ⟨.preflight E routing operation, (s.events.preflight E routing operation).2⟩ := by
  constructor
  case ids => exact Nat.le_refl _
  case registered => exact nofun
  case find =>
    intro name id
    exact EventState.find_preflight s.events E routing operation name id
  case removed => exact nofun
  case claimed => exact nofun
  case records => rfl
  case sound =>
    intro hs name list hlist
    simp only [EventState.preflight_hooks] at hlist
    split at hlist
    · rcases Option.map_eq_some_iff.mp hlist with ⟨old, hold, rfl⟩
      exact (hs name old hold).compact
    · exact hs name list hlist
  case admitted => exact fun hs => admits_preflight hs E routing operation

theorem steps_pushGated (s : Shared) (owner : FiberId) (E : Event) (scope : List ScopeNode)
    (kind : HookKind) (options : ListenerOptions) :
    Steps (V := V) s (s.pushGated owner E scope kind options).1
      ⟨.pushGated owner E scope kind options, (s.pushGated owner E scope kind options).2⟩ := by
  unfold Shared.pushGated
  simp only
  split
  · cases hadd : s.events.addReserved E (Hook.new scope kind options s.ids) with
    | none => exact .of_same rfl rfl rfl rfl rfl (by rintro _ _ _ ⟨⟩) trivial
    | some events =>
        have hfind := EventState.find_addReserved hadd
        refine ⟨Nat.le_succ _, ?_, hfind, by rintro _ _ ⟨⟩, by rintro _ _ _ ⟨⟩, rfl, ?_, fun _ => trivial⟩
        · rintro name hook ⟨⟩
          exact ⟨rfl, Nat.lt_succ_self _⟩
        · intro hs
          simp only [EventState.addReserved, Option.map_eq_some_iff] at hadd
          rcases hadd with ⟨bound, hbound, rfl⟩
          have hhooks := EventState.hooks_bindLocked hbound
          refine sound_setHooks hs (congrFun hhooks) (Nat.le_succ _) ?_
          rintro list ⟨⟩
          refine EventHooks.Sound.add ?_ rfl
          rw [hhooks]
          cases hlist : s.events.hooks E.NAME with
          | none => exact .empty _
          | some list => exact hs E.NAME list hlist
  · exact .of_same rfl rfl rfl rfl rfl (by rintro _ _ _ ⟨⟩) trivial

theorem steps_of_exec {choice : Choice V} {op : Op V} {s s' : Shared} {r : op.Ret}
    (h : exec choice op s = some (s', r)) : Steps s s' ⟨op, r⟩ := by
  cases op with
  | preflight E routing operation =>
      cases h
      exact steps_preflight s E routing operation
  | claim event id =>
      cases h
      exact steps_claim s event id
  | remove event id =>
      cases h
      exact steps_remove s event id
  | pushGated owner E scope kind options =>
      have hpush : s.pushGated owner E scope kind options = (s', r) := Option.some.inj h
      have hsteps := steps_pushGated (V := V) s owner E scope kind options
      rw [hpush] at hsteps
      exact hsteps
  | publish record =>
      cases h
      exact .of_same rfl rfl rfl rfl rfl nofun trivial
  | unreachable => cases h
  | call | ended | moved | resumed | tail | tailEnded | discard | removeDisposable | tokens
  | deliver | reported | setGate =>
      cases h
      exact .of_same rfl rfl rfl rfl rfl nofun trivial

/-! ## The ledger -/

structure Ledger (s : Record V) : Prop where
  sound : Sound s.state
  below : ∀ row ∈ registrations s.history, row.2.id < s.state.ids
  fresh : ((registrations s.history).map fun row => row.2.id).Nodup
  /-- The store holds what was registered and not removed. -/
  find : ∀ name id hook, s.state.events.find name id = some hook ↔
    hook.id = id ∧ Live s.history name hook
  once : (removals s.history).Nodup
  known : ∀ row ∈ removals s.history, ∃ hook, (row.1, hook) ∈ registrations s.history ∧
    hook.id = row.2
  /-- A claim succeeds on what is registered and not removed before it. -/
  claimed : ∀ later p name id answer earlier,
    s.history = later ++ (p, ⟨.claim name id, answer⟩) :: earlier →
      (answer.1 = true ↔ ∃ hook, hook.id = id ∧ Live earlier name hook) ∧
        ∀ hook, hook.id = id → Live earlier name hook → answer.2 = hook.once
  records : s.state.records = s.history.filterMap fun row => publishedOf row.2
  admitted : ∀ row ∈ s.history, Admits row.2.1 row.2.2

namespace Ledger

theorem init : Ledger ({ state := {} } : Record V) where
  sound name list h := by cases h
  below row h := by cases h
  fresh := List.Pairwise.nil
  find name id hook := by
    constructor
    · intro h
      cases h
    · intro h
      cases h.2.1
  once := List.Pairwise.nil
  known row h := by cases h
  claimed later p name id answer earlier h := by cases later <;> cases h
  records := rfl
  admitted row h := by cases h

variable {s : Record V}

/-- Nothing that the ledger mentions moves. -/
theorem same (h : Ledger s) {s' : Record V} (hhistory : s'.history = s.history)
    (hevents : s'.state.events = s.state.events) (hids : s'.state.ids = s.state.ids)
    (hrecords : s'.state.records = s.state.records) : Ledger s' where
  sound := by
    unfold Sound
    rw [hevents, hids]
    exact h.sound
  below := by
    rw [hhistory, hids]
    exact h.below
  fresh := by
    rw [hhistory]
    exact h.fresh
  find := by
    rw [hhistory, hevents]
    exact h.find
  once := by
    rw [hhistory]
    exact h.once
  known := by
    rw [hhistory]
    exact h.known
  claimed := by
    rw [hhistory]
    exact h.claimed
  records := by
    rw [hhistory, hrecords]
    exact h.records
  admitted := by
    rw [hhistory]
    exact h.admitted

theorem registrations_cons (row : Party × Performed V) (history : History V) :
    registrations (row :: history) = (hookOf row.2).toList ++ registrations history := by
  unfold registrations
  rw [List.filterMap_cons]
  cases hookOf row.2 <;> rfl

theorem removals_cons (row : Party × Performed V) (history : History V) :
    removals (row :: history) = (removedOf row.2).toList ++ removals history := by
  unfold removals
  rw [List.filterMap_cons]
  cases removedOf row.2 <;> rfl

/-- Two registrations never share an identity. -/
theorem hook_unique (h : Ledger s) {name name' : String} {hook hook' : Hook}
    (hmem : (name, hook) ∈ registrations s.history)
    (hmem' : (name', hook') ∈ registrations s.history) (hid : hook.id = hook'.id) :
    name = name' ∧ hook = hook' := by
  have heq := List.inj_on_of_nodup_map h.fresh hmem hmem' hid
  cases heq
  exact ⟨rfl, rfl⟩

theorem record (h : Ledger s) {p : Party} {state : Shared} {event : Performed V}
    (hstep : Steps s.state state event) : Ledger ((s.move state).record p event) := by
  have hhistory : ((s.move state).record p event).history = (p, event) :: s.history := rfl
  constructor
  case sound => exact hstep.sound h.sound
  case records =>
    rw [hhistory, List.filterMap_cons]
    change state.records = _
    rw [hstep.records, h.records]
    cases publishedOf event <;> rfl
  case admitted =>
    intro row hrow
    rcases List.mem_cons.mp hrow with rfl | hold
    · exact hstep.admitted h.sound
    · exact h.admitted row hold
  case below =>
    intro row hrow
    rw [hhistory, registrations_cons] at hrow
    rcases List.mem_append.mp hrow with hnew | hold
    · rcases row with ⟨name, hook⟩
      -- a new registration takes the identity that the counter hands out
      have hregistered := hstep.registered name hook (by simpa using hnew)
      change hook.id < state.ids
      rw [hregistered.1]
      exact hregistered.2
    · exact Nat.lt_of_lt_of_le (h.below row hold) hstep.ids
  case fresh =>
    rw [hhistory, registrations_cons]
    cases hhook : hookOf event with
    | none => exact h.fresh
    | some row =>
        rcases row with ⟨name, hook⟩
        refine List.nodup_cons.mpr ⟨fun hmem => ?_, h.fresh⟩
        rcases List.mem_map.mp hmem with ⟨row, hrow, heq⟩
        have hlt := h.below row hrow
        simp only [(hstep.registered name hook hhook).1] at heq
        rw [heq] at hlt
        exact Nat.lt_irrefl _ hlt
  case once =>
    rw [hhistory, removals_cons]
    cases hremoved : removedOf event with
    | none => exact h.once
    | some row =>
        rcases row with ⟨name, id⟩
        -- what is removed was in the store, so it had not been removed before
        refine List.nodup_cons.mpr ⟨fun hmem => ?_, h.once⟩
        have hsome := (hstep.removed name id hremoved).2
        rcases Option.isSome_iff_exists.mp hsome with ⟨hook, hfind⟩
        rcases (h.find name id hook).mp hfind with ⟨rfl, -, hnot⟩
        exact hnot hmem
  case known =>
    intro row hrow
    rw [hhistory, registrations_cons]
    rw [hhistory, removals_cons] at hrow
    rcases List.mem_append.mp hrow with hnew | hold
    · rcases row with ⟨name, id⟩
      have hsome := (hstep.removed name id (by simpa using hnew)).2
      rcases Option.isSome_iff_exists.mp hsome with ⟨hook, hfind⟩
      have hlive := (h.find name id hook).mp hfind
      exact ⟨hook, List.mem_append_right _ hlive.2.1, hlive.1⟩
    · rcases h.known row hold with ⟨hook, hmem, heq⟩
      exact ⟨hook, List.mem_append_right _ hmem, heq⟩
  case claimed =>
    intro later q name id answer earlier hsplit
    rw [hhistory] at hsplit
    cases later with
    | nil =>
        cases hsplit
        -- the newest event is the claim itself, answered from the store before it
        have hanswer := hstep.claimed name id answer rfl
        constructor
        · rw [hanswer.1, Option.isSome_iff_exists]
          simp only [h.find]
        · rintro hook hid hlive
          rw [hanswer.2, (h.find name id hook).mpr ⟨hid, hlive⟩]
          rfl
    | cons row later =>
        rw [List.cons_append, List.cons.injEq] at hsplit
        exact h.claimed later q name id answer earlier hsplit.2
  case find =>
    intro name id hook
    have hfind := hstep.find name id
    change state.events.find name id = some hook ↔ _
    rw [hfind]
    unfold Live
    rw [hhistory, registrations_cons, removals_cons]
    cases hhook : hookOf event with
    | some row =>
        rcases row with ⟨event', hook'⟩
        -- one event registers or removes, never both
        have hnone : removedOf event = none := by
          cases hremoved : removedOf event with
          | none => rfl
          | some row =>
              have hno := (hstep.removed row.1 row.2 hremoved).1
              rw [hhook] at hno
              cases hno
        have hfresh := (hstep.registered event' hook' hhook).1
        simp only [hnone, Option.toList_none, Option.toList_some, List.nil_append,
          List.singleton_append, List.mem_cons, Prod.mk.injEq]
        by_cases hboth : name = event' ∧ id = hook'.id
        · rw [if_pos hboth, Option.some.injEq]
          constructor
          · rintro rfl
            refine ⟨hboth.2.symm, .inl ⟨hboth.1, rfl⟩, fun hmem => ?_⟩
            -- nothing was removed under an identity that did not exist
            rcases h.known _ hmem with ⟨other, hother, heq⟩
            have hlt := h.below _ hother
            simp only [heq, hfresh] at hlt
            exact Nat.lt_irrefl _ hlt
          · rintro ⟨hid, (⟨-, rfl⟩ | hold), -⟩
            · rfl
            · have hlt := h.below _ hold
              simp only [hid, hboth.2, hfresh] at hlt
              exact absurd hlt (Nat.lt_irrefl _)
        · rw [if_neg hboth, h.find]
          constructor
          · rintro ⟨hid, hmem, hnot⟩
            exact ⟨hid, .inr hmem, hnot⟩
          · rintro ⟨hid, (⟨hname, rfl⟩ | hold), hnot⟩
            · exact absurd ⟨hname, hid.symm⟩ hboth
            · exact ⟨hid, hold, hnot⟩
    | none =>
        simp only [Option.toList_none, List.nil_append]
        by_cases hgone : removedOf event = some (name, id)
        · rw [if_pos hgone, hgone]
          simp only [Option.toList_some, List.singleton_append, List.mem_cons, Prod.mk.injEq,
            not_or]
          constructor
          · exact nofun
          · rintro ⟨hid, -, hnot, -⟩
            exact absurd hid (by simpa using hnot)
        · rw [if_neg hgone, h.find]
          unfold Live
          constructor
          · rintro ⟨hid, hmem, hnot⟩
            refine ⟨hid, hmem, fun hin => ?_⟩
            rcases List.mem_append.mp hin with hnew | hold
            · apply hgone
              rw [hid] at hnew
              simpa using hnew
            · exact hnot hold
          · rintro ⟨hid, hmem, hnot⟩
            exact ⟨hid, hmem, fun hin => hnot (List.mem_append_right _ hin)⟩

/-- Entering a routine leaves the store alone. -/
theorem enter_kept {p : Party} {routine : Routine V} {s s' : Shared}
    (h : (machine V).enter p routine s = some s') :
    s'.events = s.events ∧ s'.ids = s.ids ∧ s'.records = s.records := by
  cases routine with
  | removeRegistration registration =>
      simp only [machine, Option.ite_none_right_eq_some, Option.some.injEq] at h
      rw [← h.2]
      exact ⟨rfl, rfl, rfl⟩
  | emit | emitParallel | query | waterfall | registerListener | drainDisposables | setGate =>
      simp only [machine, Option.some.injEq] at h
      rw [h]
      exact ⟨rfl, rfl, rfl⟩

theorem of_reachable {ok : Machine.Condition (Record V) (Op V) (Choice V)}
    {cfg : Config (Record V) (Op V) Op.Ret (Answer V)}
    (h : (machine V).recorded.Reachable ok cfg) : Ledger cfg.shared := by
  refine Machine.recorded_invariant (I := Ledger) init ?_ ?_ ?_ ?_ h
  · exact fun hs hexec => hs.record (steps_of_exec hexec)
  · exact fun hs => hs.same rfl rfl rfl rfl
  · intro s p routine s' hs henter
    have hkept := enter_kept henter
    exact hs.same rfl hkept.1 hkept.2.1 hkept.2.2
  · intro s p s' next hs hdrop
    simp only [machine, Option.some.injEq, Prod.mk.injEq] at hdrop
    rcases hdrop with ⟨rfl, rfl⟩
    exact hs.same rfl rfl rfl rfl

end Ledger

end Events
end CordisCore
