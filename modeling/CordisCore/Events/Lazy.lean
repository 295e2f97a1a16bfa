import CordisCore.Events.Effective

/-!
# Lazy deletion — the tables refine plain ordered lists

A removal takes a hook out of the map and leaves its identity in the order; the
order is compacted before an insertion and before a dispatch, when enough of it
is stale.  Seen through its iteration, a table is an ordinary list from which
removals delete at once.
-/

namespace CordisCore
namespace Events

/-! ## Stale identities -/

namespace EventHooks

/-- `order.len() - entries.len()`. -/
def stale (list : EventHooks) : Nat :=
  list.order.length - list.entries.length

/-- Few identities are stale. -/
def Dense (list : EventHooks) : Prop :=
  list.stale < max 32 list.entries.length

namespace Tidy

variable {list : EventHooks}

/-- What survives a compaction are the identities of the entries. -/
theorem live_order (h : Tidy list) :
    (list.order.filter fun id => (list.get id).isSome).length = list.entries.length := by
  have hsub : (list.order.filter fun id => (list.get id).isSome) ⊆ list.entries.map Hook.id := by
    intro id hid
    rcases Option.isSome_iff_exists.mp (List.mem_filter.mp hid).2 with ⟨hook, hget⟩
    have hmem : hook ∈ list.entries := List.mem_of_find?_eq_some hget
    exact id_of_get hget ▸ List.mem_map_of_mem hmem
  have hsup : list.entries.map Hook.id ⊆ list.order.filter fun id => (list.get id).isSome := by
    intro id hid
    rcases List.mem_map.mp hid with ⟨hook, hhook, rfl⟩
    refine List.mem_filter.mpr ⟨h.placed hook hhook, ?_⟩
    rw [get_of_mem h.keyed hhook]
    rfl
  have hle := (List.Nodup.subperm (h.once.filter _) hsub).length_le
  have hge := (List.Nodup.subperm h.keyed hsup).length_le
  rw [List.length_map] at hle hge
  exact Nat.le_antisymm hle hge

theorem dense_compact (h : Tidy list) : list.compactIfSparse.Dense := by
  unfold Dense stale compactIfSparse
  simp only
  split
  · rename_i hfew
    rcases hfew with hfew | hfew
    · exact Nat.lt_of_lt_of_le hfew (Nat.le_max_left _ _)
    · exact Nat.lt_of_lt_of_le hfew (Nat.le_max_right _ _)
  · rw [h.live_order, Nat.sub_self]
    exact Nat.lt_of_lt_of_le (by decide) (Nat.le_max_left _ _)

/-- An insertion adds one identity and one entry. -/
theorem dense_add (h : Tidy list) {hook : Hook} (hfresh : hook.id ∉ list.order) :
    (list.add hook).Dense := by
  have hdense := h.dense_compact
  have horder : (list.add hook).order.length = list.compactIfSparse.order.length + 1 := by
    simp only [EventHooks.add]
    split <;> simp
  have hkeep : ∀ other ∈ list.compactIfSparse.entries, (other.id != hook.id) = true := by
    intro other hother
    rw [bne_iff_ne]
    intro heq
    exact hfresh (mem_order_compact (heq ▸ h.compact.placed other hother))
  have hentries : (list.add hook).entries.length = list.compactIfSparse.entries.length + 1 := by
    simp only [EventHooks.add, insert, List.length_cons, List.filter_eq_self.mpr hkeep]
  unfold Dense stale at hdense ⊢
  rw [horder, hentries]
  omega

/-- What a lookup finds is what a search of the effective order finds. -/
theorem get_eq_find (h : Tidy list) (id : ListenerRegistrationId) :
    list.get id = list.iter.find? fun hook => hook.id == id := by
  cases hget : list.get id with
  | none =>
      symm
      rw [List.find?_eq_none]
      intro hook hhook heq
      rw [beq_iff_eq] at heq
      have hfound := (mem_iter.mp hhook).2
      rw [heq, hget] at hfound
      cases hfound
  | some hook =>
      have hid := id_of_get hget
      subst hid
      have hmem : hook ∈ list.iter :=
        mem_iter.mpr ⟨h.placed hook (List.mem_of_find?_eq_some hget), hget⟩
      cases hfind : list.iter.find? fun other => other.id == hook.id with
      | none => exact absurd (List.find?_eq_none.mp hfind hook hmem) (by simp)
      | some other =>
          have hid : other.id = hook.id := by simpa using List.find?_some hfind
          have hother := (mem_iter.mp (List.mem_of_find?_eq_some hfind)).2
          rw [hid, hget] at hother
          exact hother

end Tidy

end EventHooks

/-! ## Histories -/

/-- One access to the tables. -/
inductive Action where
  | add (E : Event) (hook : Hook)
  | remove (name : String) (id : ListenerRegistrationId)
  | claim (name : String) (id : ListenerRegistrationId)
  | preflight (E : Event) (routing : Routing) (operation : EventOperation)
  /-- A compaction on its own. -/
  | compact (name : String)

/-- The identity that the action brings in. -/
def Action.added : Action → Option ListenerRegistrationId
  | add _ hook => some hook.id
  | _ => none

/-- What the caller is told. -/
inductive Reply where
  | added (accepted : Bool)
  | removed (found : Bool)
  | claimed (claimed unregistered : Bool)
  | selected (hooks : Except DispatchError (List HookSnap))
  | compacted

namespace EventState

def perform (s : EventState) : Action → EventState × Reply
  | .add E hook =>
      match s.addReserved E hook with
      | some s' => (s', .added true)
      | none => (s, .added false)
  | .remove name id => ((s.remove name id).1, .removed (s.remove name id).2)
  | .claim name id => ((s.claim name id).1, .claimed (s.claim name id).2.1 (s.claim name id).2.2)
  | .preflight E routing operation =>
      ((s.preflight E routing operation).1, .selected (s.preflight E routing operation).2)
  | .compact name =>
      (s.setHooks name ((s.hooks name).map EventHooks.compactIfSparse), .compacted)

/-- The state and the replies after these actions. -/
def after (s : EventState) : List Action → EventState × List Reply
  | [] => (s, [])
  | action :: rest =>
      let out := s.perform action
      ((out.1.after rest).1, out.2 :: (out.1.after rest).2)

end EventState

/-! ## Plain lists -/

/-- The registered hooks of each event as an ordinary list. -/
structure Listed where
  contracts : String → Option EventContract := fun _ => none
  hooks : String → List Hook := fun _ => []

namespace Listed

def bind (l : Listed) (E : Event) : Option Listed :=
  match l.contracts E.NAME with
  | some bound => if bound = E.contract then some l else none
  | none =>
      some { l with contracts := fun other =>
        if other = E.NAME then some E.contract else l.contracts other }

def setHooks (l : Listed) (name : String) (hooks : List Hook) : Listed :=
  { l with hooks := fun other => if other = name then hooks else l.hooks other }

/-- Delete at once. -/
def delete (l : Listed) (name : String) (id : ListenerRegistrationId) : Listed :=
  l.setHooks name ((l.hooks name).filter fun hook => hook.id != id)

def find (l : Listed) (name : String) (id : ListenerRegistrationId) : Option Hook :=
  (l.hooks name).find? fun hook => hook.id == id

def select (l : Listed) (E : Event) (routing : Routing) (operation : EventOperation) :
    Except DispatchError (List HookSnap) :=
  let selected := (l.hooks E.NAME).filter (EventState.eligible routing)
  match (selected.map fun hook => hook.kind.role).find? fun role =>
      !EventState.compatible operation role with
  | some role => .error (.incompatibleRole operation role)
  | none => .ok (selected.map Hook.snap)

def perform (l : Listed) : Action → Listed × Reply
  | .add E hook =>
      match l.bind E with
      | some l' =>
          (l'.setHooks E.NAME
            (if hook.prepend then hook :: l.hooks E.NAME else l.hooks E.NAME ++ [hook]), .added true)
      | none => (l, .added false)
  | .remove name id =>
      match l.find name id with
      | some _ => (l.delete name id, .removed true)
      | none => (l, .removed false)
  | .claim name id =>
      match l.find name id with
      | some hook => if hook.once then (l.delete name id, .claimed true true)
          else (l, .claimed true false)
      | none => (l, .claimed false false)
  | .preflight E routing operation =>
      match l.bind E with
      | some l' => (l', .selected (l.select E routing operation))
      | none => (l, .selected (.error (.eventContractMismatch E.NAME)))
  | .compact _ => (l, .compacted)

def after (l : Listed) : List Action → Listed × List Reply
  | [] => (l, [])
  | action :: rest =>
      let out := l.perform action
      ((out.1.after rest).1, out.2 :: (out.1.after rest).2)

end Listed

/-! ## Refinement -/

/-- The tables and the lists agree, and the orders name only what was brought in. -/
structure Refines (used : List ListenerRegistrationId) (s : EventState) (l : Listed) : Prop where
  contracts : s.contracts = l.contracts
  hooks : ∀ name, s.effective name = l.hooks name
  tidy : ∀ {name list}, s.hooks name = some list → list.Tidy
  known : ∀ {name list}, s.hooks name = some list → ∀ id ∈ list.order, id ∈ used

namespace Refines

variable {used : List ListenerRegistrationId} {s : EventState} {l : Listed}

theorem init : Refines [] {} {} where
  contracts := rfl
  hooks _ := rfl
  tidy := nofun
  known := nofun

theorem find (h : Refines used s l) (name : String) (id : ListenerRegistrationId) :
    s.find name id = l.find name id := by
  unfold EventState.find Listed.find
  rw [← h.hooks name]
  unfold EventState.effective
  cases hlist : s.hooks name with
  | none => rfl
  | some list => exact (h.tidy hlist).get_eq_find id

theorem bind (h : Refines used s l) (E : Event) :
    (s.bindLocked E = none ∧ l.bind E = none) ∨
      ∃ s' l', s.bindLocked E = some s' ∧ l.bind E = some l' ∧ s'.contracts = l'.contracts ∧
        l'.hooks = l.hooks := by
  unfold EventState.bindLocked Listed.bind
  rw [h.contracts]
  cases l.contracts E.NAME with
  | none => exact .inr ⟨_, _, rfl, rfl, rfl, rfl⟩
  | some bound =>
      by_cases hbound : bound = E.contract
      · exact .inr ⟨s, l, if_pos hbound, if_pos hbound, h.contracts, rfl⟩
      · exact .inl ⟨if_neg hbound, if_neg hbound⟩

/-- Tables that are kept, shrunk or compacted stay as they have to be. -/
theorem of_tables {s' : EventState} {l' : Listed} (h : Refines used s l)
    (contracts : s'.contracts = l'.contracts) (hooks : ∀ name, s'.effective name = l'.hooks name)
    (tables : ∀ {name list'}, s'.hooks name = some list' → ∃ list, s.hooks name = some list ∧
      (list.Tidy → list'.Tidy) ∧ ∀ id ∈ list'.order, id ∈ list.order) : Refines used s' l' where
  contracts := contracts
  hooks := hooks
  tidy hlist := by
    rcases tables hlist with ⟨list, hold, htidy, -⟩
    exact htidy (h.tidy hold)
  known hlist id hid := by
    rcases tables hlist with ⟨list, hold, -, horder⟩
    exact h.known hold id (horder id hid)

/-- The table without one entry, or no table when that was the last. -/
theorem tables_setOrDrop {name : String} {list : EventHooks} (hlist : s.hooks name = some list)
    (id : ListenerRegistrationId) {other : String} {list' : EventHooks}
    (h : (s.setOrDrop name (list.remove id)).hooks other = some list') :
    ∃ old, s.hooks other = some old ∧ (old.Tidy → list'.Tidy) ∧
      ∀ id ∈ list'.order, id ∈ old.order := by
  simp only [EventState.setOrDrop, EventState.setHooks] at h
  split at h
  · rename_i hother
    split at h
    · cases h
    · cases h
      exact ⟨list, hother ▸ hlist, fun htidy => htidy.remove id, fun _ hid => hid⟩
  · exact ⟨list', h, fun htidy => htidy, fun _ hid => hid⟩

theorem delete (h : Refines used s l) {name : String} {list : EventHooks}
    (hlist : s.hooks name = some list) (id : ListenerRegistrationId) :
    Refines used (s.setOrDrop name (list.remove id)) (l.delete name id) := by
  refine h.of_tables h.contracts (fun other => ?_) (tables_setOrDrop hlist id)
  rw [EventState.effective_setOrDrop]
  simp only [Listed.delete, Listed.setHooks]
  split
  · rw [EventHooks.iter_remove, ← h.hooks name, EventState.effective, hlist]
    rfl
  · exact h.hooks other

theorem add (h : Refines used s l) {E : Event} {hook : Hook} (hfresh : hook.id ∉ used) :
    Refines (hook.id :: used) (s.perform (.add E hook)).1 (l.perform (.add E hook)).1 ∧
      (s.perform (.add E hook)).2 = (l.perform (.add E hook)).2 := by
  have hnew : ∀ list, s.hooks E.NAME = some list → hook.id ∉ list.order :=
    fun list hlist hmem => hfresh (h.known hlist hook.id hmem)
  rcases h.bind E with ⟨hrefused, hrefused'⟩ | ⟨s', l', hbound, hbound', hcontracts, hkept⟩
  · have hnone : s.addReserved E hook = none := by
      unfold EventState.addReserved
      rw [hrefused]
      rfl
    simp only [EventState.perform, Listed.perform, hnone, hrefused', and_true]
    exact ⟨h.contracts, h.hooks, h.tidy, fun hlist id hid => .tail _ (h.known hlist id hid)⟩
  · have hold := EventState.hooks_bindLocked hbound
    have hadd : s.addReserved E hook =
        some (s'.setHooks E.NAME (some (((s'.hooks E.NAME).getD {}).add hook))) := by
      unfold EventState.addReserved
      rw [hbound]
      rfl
    have heffective := EventState.effective_addFresh hnew hadd
    simp only [EventState.perform, Listed.perform, hadd, hbound', and_true]
    refine ⟨hcontracts, fun name => ?_, fun {name list} hlist => ?_, fun {name list} hlist => ?_⟩
    · rw [heffective name]
      simp only [Listed.setHooks, hkept]
      by_cases hname : name = E.NAME
      · subst hname
        rw [if_pos rfl, if_pos rfl, h.hooks]
      · rw [if_neg hname, if_neg hname, h.hooks]
    all_goals
      simp only [EventState.setHooks, hold] at hlist
      split at hlist
      case isFalse => first
        | exact h.tidy hlist
        | exact fun id hid => .tail _ (h.known hlist id hid)
      cases hlist
    -- the table of this event, which may be a new one
    · cases htable : s.hooks E.NAME with
      | none => exact EventHooks.Tidy.empty.add List.not_mem_nil
      | some old => exact (h.tidy htable).add (hnew old htable)
    · intro id hid
      rcases (EventHooks.mem_order_add _ hook id).mp hid with rfl | hkeep
      · exact .head _
      · cases htable : s.hooks E.NAME with
        | none =>
            rw [htable] at hkeep
            cases EventHooks.mem_order_compact hkeep
        | some old =>
            rw [htable] at hkeep
            exact .tail _ (h.known htable id (EventHooks.mem_order_compact hkeep))

theorem remove (h : Refines used s l) (name : String) (id : ListenerRegistrationId) :
    Refines used (s.perform (.remove name id)).1 (l.perform (.remove name id)).1 ∧
      (s.perform (.remove name id)).2 = (l.perform (.remove name id)).2 := by
  have hfind := h.find name id
  simp only [EventState.perform, Listed.perform, ← hfind, EventState.remove, EventState.find]
  cases hlist : s.hooks name with
  | none => exact ⟨h, rfl⟩
  | some list =>
      simp only [Option.bind_some]
      cases hget : list.get id with
      | none => exact ⟨h, rfl⟩
      | some hook => exact ⟨h.delete hlist id, rfl⟩

theorem claim (h : Refines used s l) (name : String) (id : ListenerRegistrationId) :
    Refines used (s.perform (.claim name id)).1 (l.perform (.claim name id)).1 ∧
      (s.perform (.claim name id)).2 = (l.perform (.claim name id)).2 := by
  have hfind := h.find name id
  simp only [EventState.perform, Listed.perform, ← hfind, EventState.claim, EventState.find]
  cases hlist : s.hooks name with
  | none => exact ⟨h, rfl⟩
  | some list =>
      simp only [Option.bind_some]
      cases hget : list.get id with
      | none => exact ⟨h, rfl⟩
      | some hook =>
          cases honce : hook.once with
          | false => simpa [honce] using h
          | true =>
              simp only [honce, if_true, and_true]
              exact h.delete hlist id

/-- Compacting one table is not noticed. -/
theorem compact (h : Refines used s l) {s' : EventState} {l' : Listed} (name : String)
    (contracts : s'.contracts = l'.contracts) (hkept : l'.hooks = l.hooks)
    (hooks : s'.hooks = fun other =>
      if other = name then (s.hooks other).map EventHooks.compactIfSparse else s.hooks other) :
    Refines used s' l' := by
  refine h.of_tables contracts (fun other => ?_) fun {other list'} hlist => ?_
  · rw [hkept, ← h.hooks other]
    unfold EventState.effective
    rw [hooks]
    simp only
    split
    · cases s.hooks other with
      | none => rfl
      | some list => exact EventHooks.iter_compact list
    · rfl
  · rw [hooks] at hlist
    simp only at hlist
    split at hlist
    · rcases Option.map_eq_some_iff.mp hlist with ⟨list, hold, rfl⟩
      exact ⟨list, hold, fun htidy => htidy.compact, fun _ hid => EventHooks.mem_order_compact hid⟩
    · exact ⟨list', hlist, fun htidy => htidy, fun _ hid => hid⟩

theorem preflight (h : Refines used s l) (E : Event) (routing : Routing)
    (operation : EventOperation) :
    Refines used (s.perform (.preflight E routing operation)).1
        (l.perform (.preflight E routing operation)).1 ∧
      (s.perform (.preflight E routing operation)).2 =
        (l.perform (.preflight E routing operation)).2 := by
  have hhooks := EventState.preflight_hooks s E routing operation
  rcases h.bind E with ⟨hrefused, hrefused'⟩ | ⟨s', l', hbound, hbound', hcontracts, hkept⟩
  · simp only [EventState.perform, Listed.perform, EventState.preflight, hrefused, hrefused',
      and_true]
    exact h
  · have hanswer : (s.preflight E routing operation).1.contracts = s'.contracts ∧
        (s.preflight E routing operation).2 = l.select E routing operation := by
      have hold := EventState.hooks_bindLocked hbound
      have hlisted := h.hooks E.NAME
      unfold EventState.effective at hlisted
      unfold EventState.preflight Listed.select
      simp only [hbound, hold, ← hlisted]
      cases hlist : s.hooks E.NAME with
      | none => exact ⟨rfl, rfl⟩
      | some list =>
          simp only [EventHooks.iter_compact, Option.map_some, Option.getD_some]
          cases List.find? (fun role => !EventState.compatible operation role)
            ((list.iter.filter (EventState.eligible routing)).map fun hook => hook.kind.role) with
          | none => exact ⟨rfl, rfl⟩
          | some role => exact ⟨rfl, rfl⟩
    simp only [EventState.perform, Listed.perform, hbound', hanswer.2, and_true]
    refine h.compact E.NAME (hanswer.1.trans hcontracts) hkept ?_
    simpa [hbound] using hhooks

/-- One action is answered alike, and the refinement goes on. -/
theorem perform (h : Refines used s l) (action : Action)
    (hfresh : ∀ id, action.added = some id → id ∉ used) :
    Refines (action.added.toList ++ used) (s.perform action).1 (l.perform action).1 ∧
      (s.perform action).2 = (l.perform action).2 := by
  cases action with
  | add E hook => exact h.add (hfresh hook.id rfl)
  | remove name id => exact h.remove name id
  | claim name id => exact h.claim name id
  | preflight E routing operation => exact h.preflight E routing operation
  | compact name => exact ⟨h.compact name h.contracts rfl (by
      funext other
      simp only [EventState.perform, EventState.setHooks]
      split
      · rename_i hother
        rw [hother]
      · rfl), rfl⟩

/-- A whole history is answered alike. -/
theorem after (h : Refines used s l) (actions : List Action)
    (hfresh : (actions.filterMap Action.added ++ used).Nodup) :
    ∃ used', Refines used' (s.after actions).1 (l.after actions).1 ∧
      (s.after actions).2 = (l.after actions).2 ∧
      ∀ id ∈ used', id ∈ actions.filterMap Action.added ∨ id ∈ used := by
  induction actions generalizing used s l with
  | nil => exact ⟨used, h, rfl, fun _ hid => .inr hid⟩
  | cons action rest ih =>
      have hsplit : (action :: rest).filterMap Action.added =
          action.added.toList ++ rest.filterMap Action.added := by
        rw [List.filterMap_cons]
        cases action.added <;> rfl
      rw [hsplit] at hfresh ⊢
      have hnew : ∀ id, action.added = some id → id ∉ used := by
        intro id hid hmem
        rw [hid] at hfresh
        exact (List.nodup_cons.mp hfresh).1 (List.mem_append_right _ hmem)
      have hstep := h.perform action hnew
      have hperm : (rest.filterMap Action.added ++ (action.added.toList ++ used)).Nodup := by
        refine (List.Perm.nodup_iff ?_).mp hfresh
        rw [List.append_assoc, ← List.append_assoc (rest.filterMap _), ← List.append_assoc]
        exact List.perm_append_comm.append_right used
      rcases ih hstep.1 hperm with ⟨used', hrefines, hreplies, hused⟩
      refine ⟨used', hrefines, ?_, fun id hid => ?_⟩
      · simp only [EventState.after, Listed.after, hstep.2, hreplies]
      · rcases hused id hid with hrest | hold
        · exact .inl (List.mem_append_right _ hrest)
        · rcases List.mem_append.mp hold with hadded | hold
          · exact .inl (List.mem_append_left _ hadded)
          · exact .inr hold

end Refines

namespace EventState

theorem after_append (s : EventState) (first second : List Action) :
    s.after (first ++ second) =
      (((s.after first).1.after second).1, (s.after first).2 ++ ((s.after first).1.after second).2) := by
  induction first generalizing s with
  | nil => rfl
  | cons action first ih => simp only [List.cons_append, after, ih]

end EventState

/-- The event whose table the action gets to for an insertion or a dispatch. -/
def Action.visits (s : EventState) : Action → Option Event
  | add E _ | preflight E _ _ => if (s.bindLocked E).isSome then some E else none
  | _ => none

/-- What a table is after a history, in terms of plain lists. -/
structure Lazily (actions : List Action) (s : EventState × List Reply)
    (l : Listed × List Reply) : Prop where
  replies : s.2 = l.2
  /-- Iterating a table yields the plain list. -/
  order : ∀ name, s.1.effective name = l.1.hooks name
  /-- The keys are a subset of the order, without duplicates. -/
  keys : ∀ {name list}, s.1.hooks name = some list → list.Tidy
  no_underflow : ∀ {name list}, s.1.hooks name = some list →
    list.entries.length ≤ list.order.length
  compaction : ∀ {name list}, s.1.hooks name = some list →
    list.compactIfSparse.iter = list.iter ∧ list.compactIfSparse.get = list.get
  /-- After an insertion or a dispatch few identities are stale. -/
  dense : ∀ {before last E list}, actions = before ++ [last] →
    last.visits (EventState.after {} before).1 = some E → s.1.hooks E.NAME = some list → list.Dense

/-- An accepted insertion and a dispatch leave a dense table behind. -/
theorem dense_of_visit {used : List ListenerRegistrationId} {s : EventState} {l : Listed}
    (h : Refines used s l) {action : Action} (hfresh : ∀ id, action.added = some id → id ∉ used)
    {E : Event} (hvisit : action.visits s = some E) {list : EventHooks}
    (hlist : (s.perform action).1.hooks E.NAME = some list) : list.Dense := by
  cases action with
  | add E' hook =>
      simp only [Action.visits, Option.ite_none_right_eq_some, Option.some.injEq] at hvisit
      rcases hvisit with ⟨hsome, rfl⟩
      rcases Option.isSome_iff_exists.mp hsome with ⟨s', hbound⟩
      simp only [EventState.perform, EventState.addReserved, hbound, Option.map_some,
        EventState.setHooks, if_true, Option.some.injEq, EventState.hooks_bindLocked hbound] at hlist
      subst hlist
      cases htable : s.hooks E'.NAME with
      | none => exact EventHooks.Tidy.empty.dense_add List.not_mem_nil
      | some old =>
          exact (h.tidy htable).dense_add fun hmem => hfresh _ rfl (h.known htable _ hmem)
  | preflight E' routing operation =>
      simp only [Action.visits, Option.ite_none_right_eq_some, Option.some.injEq] at hvisit
      rcases hvisit with ⟨hsome, rfl⟩
      have hhooks := EventState.preflight_hooks s E' routing operation
      simp only [EventState.perform, hhooks, hsome, and_true, if_true] at hlist
      rcases Option.map_eq_some_iff.mp hlist with ⟨old, hold, rfl⟩
      exact (h.tidy hold).dense_compact
  | remove | claim | compact => cases hvisit

/-- Every history of the tables is that of plain lists with eager deletion. -/
theorem tables_refine_lists (actions : List Action)
    (hfresh : (actions.filterMap Action.added).Nodup) :
    Lazily actions (EventState.after {} actions) (Listed.after {} actions) := by
  have hstart : (actions.filterMap Action.added ++ []).Nodup := by simpa using hfresh
  rcases Refines.init.after actions hstart with ⟨used, hrefines, hreplies, -⟩
  refine ⟨hreplies, hrefines.hooks, hrefines.tidy, fun hlist => (hrefines.tidy hlist).entries_le_order,
    fun {_ list} _ => ⟨EventHooks.iter_compact list, funext (EventHooks.get_compact list)⟩, ?_⟩
  intro before last E list hsplit hvisit hlist
  subst hsplit
  rw [List.filterMap_append] at hfresh
  have hbefore : (before.filterMap Action.added ++ []).Nodup := by
    simpa using (List.nodup_append.mp hfresh).1
  rcases Refines.init.after before hbefore with ⟨old, hold, -, hused⟩
  have hnew : ∀ id, last.added = some id → id ∉ old := by
    intro id hid hmem
    have hearlier : id ∈ before.filterMap Action.added := by simpa using hused id hmem
    exact (List.nodup_append.mp hfresh).2.2 id hearlier id (by simp [hid]) rfl
  rw [EventState.after_append] at hlist
  exact dense_of_visit hold hnew hvisit hlist

/-- One hook in front, one behind that is claimed, a third after a removal. -/
def mixedHistory : List Action :=
  let tick : Event := { NAME := "tick", contract := ⟨0, 0⟩ }
  [.add tick (Hook.new [] (.plain .observer) { prepend := true } 7),
    .add tick (Hook.new [] (.plain .responder) { once := true } 3),
    .claim "tick" 3, .remove "tick" 7, .add tick (Hook.new [] .around {} 5), .compact "tick"]

theorem tables_refine_lists_mixed : (mixedHistory.filterMap Action.added).Nodup ∧
    Lazily mixedHistory (EventState.after {} mixedHistory) (Listed.after {} mixedHistory) :=
  ⟨by decide, tables_refine_lists mixedHistory (by decide)⟩

end Events
end CordisCore
