import CordisCore.Context.Axes
import CordisCore.Events.Failure
import Mathlib.Data.List.Basic
import Mathlib.Data.List.Perm.Subperm

/-!
# Event store — contracts and listener tables

The hooks of one event are a map from identities and an order that may still
name identities that are gone.  What a dispatch sees is the effective order: the
order without them.
-/

namespace CordisCore
namespace Events

open Axes (ScopeNode)

/-! ## Vocabulary -/

inductive ListenerRole where
  | observer
  | responder
  | mapper
  | around
  deriving DecidableEq

inductive EventOperation where
  | emit
  | emitParallel
  | query
  | waterfall
  deriving DecidableEq

structure ListenerOptions where
  prepend : Bool := false
  global : Bool := false
  once : Bool := false
  deriving DecidableEq

/-- The `TypeId`s of one contract. -/
structure EventContract where
  args : Nat
  output : Nat
  deriving DecidableEq

/-- An implementation of `Event`. -/
structure Event where
  NAME : String
  contract : EventContract
  deriving DecidableEq

/-- A public Scope: the Runtime it belongs to and its chain. -/
structure Scope where
  membership : Nat
  layer : List ScopeNode
  deriving DecidableEq

inductive Routing where
  | unscoped
  | scoped (scope : Scope)
  deriving DecidableEq

inductive DispatchError where
  | eventContractMismatch (event : String)
  | foreignScope
  | incompatibleRole (operation : EventOperation) (role : ListenerRole)
  | invocation (failure : InvocationFailure)
  | parallel (failures : List InvocationFailure)
  deriving DecidableEq

/-! ## Hooks -/

/-- The callback itself is known by the identity of its hook. -/
inductive HookKind where
  | plain (role : ListenerRole)
  | around
  deriving DecidableEq

def HookKind.role : HookKind → ListenerRole
  | plain role => role
  | around => .around

structure Hook where
  id : ListenerRegistrationId
  prepend : Bool
  global : Bool
  scope : List ScopeNode
  once : Bool
  options : ListenerOptions
  kind : HookKind
  deriving DecidableEq

structure HookSnap where
  id : ListenerRegistrationId
  scope : List ScopeNode
  options : ListenerOptions
  kind : HookKind
  deriving DecidableEq

namespace Hook

/-- `Hook::new` on a Context with this Scope chain. -/
def new (scope : List ScopeNode) (kind : HookKind) (options : ListenerOptions)
    (id : ListenerRegistrationId) : Hook where
  id := id
  prepend := options.prepend
  global := options.global
  scope := scope
  once := options.once
  options := options
  kind := kind

def snap (hook : Hook) : HookSnap where
  id := hook.id
  scope := hook.scope
  options := hook.options
  kind := hook.kind

end Hook

/-! ## The table of one event -/

structure EventHooks where
  order : List ListenerRegistrationId := []
  /-- The map, as its entries. -/
  entries : List Hook := []

namespace EventHooks

def get (list : EventHooks) (id : ListenerRegistrationId) : Option Hook :=
  list.entries.find? fun hook => hook.id == id

/-- `iter`: the effective order. -/
def iter (list : EventHooks) : List Hook :=
  list.order.filterMap list.get

def compactIfSparse (list : EventHooks) : EventHooks :=
  let stale := list.order.length - list.entries.length
  if stale < 32 ∨ stale < list.entries.length then list
  else { list with order := list.order.filter fun id => (list.get id).isSome }

/-- `HashMap::insert`. -/
def insert (entries : List Hook) (hook : Hook) : List Hook :=
  hook :: entries.filter fun other => other.id != hook.id

def add (list : EventHooks) (hook : Hook) : EventHooks :=
  let list := list.compactIfSparse
  { entries := insert list.entries hook
    order := if hook.prepend then hook.id :: list.order else list.order ++ [hook.id] }

/-- The table without the entry; the caller knows whether it was there. -/
def remove (list : EventHooks) (id : ListenerRegistrationId) : EventHooks :=
  { list with entries := list.entries.filter fun other => other.id != id }

def isEmpty (list : EventHooks) : Bool :=
  list.entries.isEmpty

/-! ### Lookups -/

theorem id_of_get {list : EventHooks} {id : ListenerRegistrationId} {hook : Hook}
    (h : list.get id = some hook) : hook.id = id := by
  have hfound := List.find?_some h
  exact beq_iff_eq.mp hfound

theorem get_remove (list : EventHooks) (id other : ListenerRegistrationId) :
    (list.remove id).get other = if other = id then none else list.get other := by
  unfold get remove
  rw [List.find?_filter]
  split
  · rename_i heq
    rw [List.find?_eq_none]
    intro hook _
    simp [heq]
  · rename_i hne
    congr 1
    funext hook
    by_cases hid : hook.id = other
    · simp [hid, hne]
    · simp [hid]

theorem get_compact (list : EventHooks) (id : ListenerRegistrationId) :
    list.compactIfSparse.get id = list.get id := by
  unfold compactIfSparse
  simp only
  split <;> rfl

theorem get_add (list : EventHooks) (hook : Hook) (id : ListenerRegistrationId) :
    (list.add hook).get id = if id = hook.id then some hook else list.get id := by
  have hremoved := get_remove list.compactIfSparse hook.id id
  have hkept := get_compact list id
  simp only [get, remove] at hremoved hkept
  simp only [add, get, insert, List.find?_cons]
  by_cases heq : hook.id = id
  · simp [heq]
  · have hne : ¬ id = hook.id := fun h => heq h.symm
    rw [beq_eq_false_iff_ne.mpr heq]
    simp only [hremoved, hne, if_false]
    exact hkept

theorem isEmpty_iff (list : EventHooks) : list.isEmpty = true ↔ ∀ id, list.get id = none := by
  unfold isEmpty get
  constructor
  · intro h id
    rw [List.isEmpty_iff.mp h]
    rfl
  · intro h
    cases hentries : list.entries with
    | nil => rfl
    | cons hook entries =>
        have hnone := h hook.id
        rw [hentries, List.find?_cons] at hnone
        simp at hnone

/-! ### The effective order -/

theorem mem_order_compact {list : EventHooks} {id : ListenerRegistrationId}
    (h : id ∈ list.compactIfSparse.order) : id ∈ list.order := by
  unfold compactIfSparse at h
  simp only at h
  split at h
  · exact h
  · exact (List.mem_filter.mp h).1

theorem mem_order_add (list : EventHooks) (hook : Hook) (id : ListenerRegistrationId) :
    id ∈ (list.add hook).order ↔ id = hook.id ∨ id ∈ list.compactIfSparse.order := by
  simp only [add]
  split <;> simp [or_comm]

theorem iter_compact (list : EventHooks) : list.compactIfSparse.iter = list.iter := by
  have hget : list.compactIfSparse.get = list.get := funext (get_compact list)
  unfold iter
  rw [hget]
  unfold compactIfSparse
  simp only
  split
  · rfl
  · rw [List.filterMap_filter]
    apply List.filterMap_congr
    intro id _
    cases list.get id <;> simp

theorem mem_iter {list : EventHooks} {hook : Hook} :
    hook ∈ list.iter ↔ hook.id ∈ list.order ∧ list.get hook.id = some hook := by
  unfold iter
  rw [List.mem_filterMap]
  constructor
  · rintro ⟨id, hid, hget⟩
    have heq := id_of_get hget
    subst heq
    exact ⟨hid, hget⟩
  · rintro ⟨hid, hget⟩
    exact ⟨hook.id, hid, hget⟩

theorem iter_remove (list : EventHooks) (id : ListenerRegistrationId) :
    (list.remove id).iter = list.iter.filter fun hook => hook.id != id := by
  unfold iter
  rw [List.filter_filterMap]
  apply List.filterMap_congr
  intro other _
  rw [get_remove]
  cases hget : list.get other with
  | none => simp
  | some hook =>
      have heq := id_of_get hget
      subst heq
      by_cases hid : hook.id = id <;> simp [Option.filter, hid]

/-- A fresh identity goes to the end that its option names. -/
theorem iter_add {list : EventHooks} {hook : Hook} (hfresh : hook.id ∉ list.order) :
    (list.add hook).iter =
      if hook.prepend then hook :: list.iter else list.iter ++ [hook] := by
  have hself : (list.add hook).get hook.id = some hook := by
    rw [get_add, if_pos rfl]
  have hrest : ∀ order : List ListenerRegistrationId, hook.id ∉ order →
      order.filterMap (list.add hook).get = order.filterMap list.get := by
    intro order hnot
    apply List.filterMap_congr
    intro id hid
    rw [get_add, if_neg]
    rintro rfl
    exact hnot hid
  have hsparse : hook.id ∉ list.compactIfSparse.order :=
    fun hmem => hfresh (mem_order_compact hmem)
  have hkept : list.compactIfSparse.order.filterMap list.get = list.iter := by
    have hget : list.compactIfSparse.get = list.get := funext (get_compact list)
    have hiter := iter_compact list
    unfold iter at hiter
    rw [hget] at hiter
    exact hiter
  have horder : (list.add hook).order =
      if hook.prepend then hook.id :: list.compactIfSparse.order
      else list.compactIfSparse.order ++ [hook.id] := rfl
  rw [iter, horder]
  split
  · rw [List.filterMap_cons, hself, hrest _ hsparse, hkept]
  · rw [List.filterMap_append, hrest _ hsparse, hkept, List.filterMap_cons, hself]
    rfl

/-- Every identity has one place in the order, and every entry has its place. -/
structure Tidy (list : EventHooks) : Prop where
  once : list.order.Nodup
  keyed : (list.entries.map Hook.id).Nodup
  placed : ∀ hook ∈ list.entries, hook.id ∈ list.order

/-- What every table keeps: identities below `bound`, each once, and every entry has a place. -/
structure Sound (bound : Nat) (list : EventHooks) : Prop extends Tidy list where
  below : ∀ id ∈ list.order, id < bound

theorem get_of_mem {list : EventHooks} (h : (list.entries.map Hook.id).Nodup) {hook : Hook}
    (hmem : hook ∈ list.entries) : list.get hook.id = some hook := by
  unfold get
  generalize list.entries = entries at h hmem
  induction entries with
  | nil => cases hmem
  | cons first entries ih =>
      rw [List.map_cons, List.nodup_cons] at h
      rw [List.find?_cons]
      rcases List.mem_cons.mp hmem with rfl | hrest
      · simp
      · have hne : first.id ≠ hook.id :=
          fun heq => h.1 (heq ▸ List.mem_map_of_mem hrest)
        rw [beq_eq_false_iff_ne.mpr hne]
        exact ih h.2 hrest

namespace Tidy

theorem empty : Tidy {} where
  once := .nil
  keyed := .nil
  placed := nofun

variable {list : EventHooks}

/-- The subtraction of `compact_if_sparse` does not underflow. -/
theorem entries_le_order (h : Tidy list) : list.entries.length ≤ list.order.length := by
  have hsub : list.entries.map Hook.id ⊆ list.order := by
    intro id hid
    rcases List.mem_map.mp hid with ⟨hook, hhook, rfl⟩
    exact h.placed hook hhook
  have hle := (List.Nodup.subperm h.keyed hsub).length_le
  rwa [List.length_map] at hle

theorem compact (h : Tidy list) : Tidy list.compactIfSparse := by
  unfold compactIfSparse
  simp only
  split
  · exact h
  · refine ⟨h.once.filter _, h.keyed, ?_⟩
    intro hook hhook
    refine List.mem_filter.mpr ⟨h.placed hook hhook, ?_⟩
    rw [get_of_mem h.keyed hhook]
    rfl

theorem remove (h : Tidy list) (id : ListenerRegistrationId) : Tidy (list.remove id) where
  once := h.once
  keyed := h.keyed.sublist (List.filter_sublist.map _)
  placed hook hhook := h.placed hook (List.mem_filter.mp hhook).1

/-- A fresh identity gets a place of its own. -/
theorem add (h : Tidy list) {hook : Hook} (hfresh : hook.id ∉ list.order) :
    Tidy (list.add hook) := by
  have hsparse := h.compact
  have hnot : hook.id ∉ list.compactIfSparse.order :=
    fun hmem => hfresh (mem_order_compact hmem)
  constructor
  case once =>
    simp only [EventHooks.add]
    split
    · exact List.nodup_cons.mpr ⟨hnot, hsparse.once⟩
    · refine List.nodup_append.mpr ⟨hsparse.once, List.pairwise_singleton _ _, ?_⟩
      rintro id hid other hother rfl
      exact hnot (List.mem_singleton.mp hother ▸ hid)
  case keyed =>
    refine List.nodup_cons.mpr ⟨?_, (hsparse.remove hook.id).keyed⟩
    intro hmem
    rcases List.mem_map.mp hmem with ⟨other, hother, heq⟩
    have hfiltered := (List.mem_filter.mp hother).2
    simp [heq] at hfiltered
  case placed =>
    intro other hother
    rw [mem_order_add]
    rcases List.mem_cons.mp hother with rfl | hold
    · exact .inl rfl
    · exact .inr (hsparse.placed other (List.mem_filter.mp hold).1)

end Tidy

namespace Sound

theorem empty (bound : Nat) : Sound bound {} where
  toTidy := .empty
  below := nofun

variable {bound : Nat} {list : EventHooks}

theorem mono (h : Sound bound list) {bound' : Nat} (hle : bound ≤ bound') : Sound bound' list :=
  ⟨h.toTidy, fun id hid => Nat.lt_of_lt_of_le (h.below id hid) hle⟩

theorem compact (h : Sound bound list) : Sound bound list.compactIfSparse :=
  ⟨h.toTidy.compact, fun id hid => h.below id (mem_order_compact hid)⟩

theorem remove (h : Sound bound list) (id : ListenerRegistrationId) :
    Sound bound (list.remove id) :=
  ⟨h.toTidy.remove id, h.below⟩

theorem fresh (h : Sound bound list) {hook : Hook} (hfresh : hook.id = bound) :
    hook.id ∉ list.order := by
  intro hmem
  have hlt := h.below _ hmem
  rw [hfresh] at hlt
  exact Nat.lt_irrefl _ hlt

theorem add (h : Sound bound list) {hook : Hook} (hfresh : hook.id = bound) :
    Sound (bound + 1) (list.add hook) := by
  refine ⟨h.toTidy.add (h.fresh hfresh), fun id hid => ?_⟩
  rcases (mem_order_add list hook id).mp hid with rfl | hold
  · rw [hfresh]
    exact Nat.lt_succ_self _
  · exact Nat.lt_succ_of_lt (h.below id (mem_order_compact hold))

end Sound

end EventHooks

/-! ## The store -/

structure EventState where
  contracts : String → Option EventContract := fun _ => none
  hooks : String → Option EventHooks := fun _ => none

namespace EventState

def setHooks (state : EventState) (name : String) (list : Option EventHooks) : EventState :=
  { state with hooks := fun other => if other = name then list else state.hooks other }

/-- `bind_locked`; `none` where the name is bound to another contract. -/
def bindLocked (state : EventState) (E : Event) : Option EventState :=
  match state.contracts E.NAME with
  | some bound => if bound = E.contract then some state else none
  | none =>
      some { state with contracts := fun other =>
        if other = E.NAME then some E.contract else state.contracts other }

/-- `add_reserved`; `none` is an `EventContractMismatch`. -/
def addReserved (state : EventState) (E : Event) (hook : Hook) : Option EventState :=
  (state.bindLocked E).map fun state =>
    state.setHooks E.NAME (some (((state.hooks E.NAME).getD {}).add hook))

/-- A table without entries is dropped. -/
def setOrDrop (state : EventState) (name : String) (list : EventHooks) : EventState :=
  state.setHooks name (if list.isEmpty then none else some list)

def remove (state : EventState) (name : String) (id : ListenerRegistrationId) :
    EventState × Bool :=
  match state.hooks name with
  | none => (state, false)
  | some list =>
      match list.get id with
      | none => (state, false)
      | some _ => (state.setOrDrop name (list.remove id), true)

/-- `claim`: whether the hook was claimed, and whether that unregistered it. -/
def claim (state : EventState) (name : String) (id : ListenerRegistrationId) :
    EventState × Bool × Bool :=
  match state.hooks name with
  | none => (state, false, false)
  | some list =>
      match list.get id with
      | none => (state, false, false)
      | some hook =>
          if hook.once then (state.setOrDrop name (list.remove id), true, true)
          else (state, true, false)

/-- The routing test of `preflight`. -/
def eligible (routing : Routing) (hook : Hook) : Bool :=
  match routing with
  | .unscoped => true
  | .scoped scope => hook.global || Axes.eligible hook.scope scope.layer

/-- The role test of `preflight`. -/
def compatible (operation : EventOperation) (role : ListenerRole) : Bool :=
  match operation with
  | .emit | .emitParallel | .query =>
      match role with
      | .observer | .responder => true
      | _ => false
  | .waterfall =>
      match role with
      | .mapper | .around => true
      | _ => false

def preflight (state : EventState) (E : Event) (routing : Routing) (operation : EventOperation) :
    EventState × Except DispatchError (List HookSnap) :=
  match state.bindLocked E with
  | none => (state, .error (.eventContractMismatch E.NAME))
  | some state =>
      match state.hooks E.NAME with
      | none => (state, .ok [])
      | some list =>
          -- the lazy copy is compacted before it is walked
          let list := list.compactIfSparse
          let state := state.setHooks E.NAME (some list)
          let selected := list.iter.filter (eligible routing)
          match (selected.map fun hook => hook.kind.role).find? fun role =>
              !compatible operation role with
          -- one role that does not fit refuses the whole dispatch, before any claim
          | some role => (state, .error (.incompatibleRole operation role))
          | none => (state, .ok (selected.map Hook.snap))

/-! ### What is registered -/

/-- The registered hook with this identity. -/
def find (state : EventState) (name : String) (id : ListenerRegistrationId) : Option Hook :=
  (state.hooks name).bind fun list => list.get id

/-- The registered hooks of an event, in effective order. -/
def effective (state : EventState) (name : String) : List Hook :=
  ((state.hooks name).map EventHooks.iter).getD []

theorem hooks_bindLocked {state state' : EventState} {E : Event}
    (h : state.bindLocked E = some state') : state'.hooks = state.hooks := by
  unfold bindLocked at h
  split at h
  · split at h
    · cases h
      rfl
    · cases h
  · cases h
    rfl

theorem find_setOrDrop (state : EventState) (name other : String) (list : EventHooks)
    (id : ListenerRegistrationId) : (state.setOrDrop name list).find other id =
      if other = name then list.get id else state.find other id := by
  unfold find setOrDrop setHooks
  simp only
  by_cases hother : other = name
  · rw [if_pos hother, if_pos hother]
    split
    · rename_i hempty
      exact ((EventHooks.isEmpty_iff list).mp hempty id).symm
    · rfl
  · rw [if_neg hother, if_neg hother]

theorem find_addReserved {state state' : EventState} {E : Event} {hook : Hook}
    (h : state.addReserved E hook = some state') (name : String) (id : ListenerRegistrationId) :
    state'.find name id =
      if name = E.NAME ∧ id = hook.id then some hook else state.find name id := by
  simp only [addReserved, Option.map_eq_some_iff] at h
  rcases h with ⟨bound, hbound, rfl⟩
  have hhooks := hooks_bindLocked hbound
  simp only [find, setHooks, hhooks]
  by_cases hname : name = E.NAME
  · subst hname
    simp only [if_true, true_and, Option.bind_some, EventHooks.get_add]
    split
    · rfl
    · cases hlist : state.hooks E.NAME with
      | none => rfl
      | some list => rfl
  · simp [hname]

theorem find_remove (state : EventState) (name : String) (id : ListenerRegistrationId) :
    (state.remove name id).2 = (state.find name id).isSome ∧
      ∀ other id', (state.remove name id).1.find other id' =
        if other = name ∧ id' = id then none else state.find other id' := by
  unfold remove
  cases hlist : state.hooks name with
  | none =>
      simp only [find, hlist, Option.bind_none, Option.isSome_none, true_and]
      intro other id'
      split
      · rename_i hboth
        rw [hboth.1, hlist]
        rfl
      · rfl
  | some list =>
      cases hget : list.get id with
      | none =>
          simp only [find, hlist, Option.bind_some, hget, Option.isSome_none, true_and]
          intro other id'
          split
          · rename_i hboth
            rw [hboth.1, hboth.2, hlist]
            exact hget
          · rfl
      | some hook =>
          simp only [hget, find_setOrDrop]
          refine ⟨by simp [find, hlist, hget], fun other id' => ?_⟩
          by_cases hother : other = name
          · subst hother
            simp [EventHooks.get_remove, find, hlist]
          · simp [hother]

theorem find_claim (state : EventState) (name : String) (id : ListenerRegistrationId) :
    (state.claim name id).2 =
        ((state.find name id).isSome, ((state.find name id).map Hook.once).getD false) ∧
      ∀ other id', (state.claim name id).1.find other id' =
        if (state.claim name id).2.2 ∧ other = name ∧ id' = id then none
        else state.find other id' := by
  unfold claim
  cases hlist : state.hooks name with
  | none => simp [find, hlist]
  | some list =>
      cases hget : list.get id with
      | none => simp [find, hlist, hget]
      | some hook =>
          cases honce : hook.once with
          | false => simp [find, hlist, hget, honce]
          | true =>
              simp only [hget, honce, if_true, find_setOrDrop, true_and]
              refine ⟨by simp [find, hlist, hget, honce], fun other id' => ?_⟩
              by_cases hother : other = name
              · subst hother
                simp [EventHooks.get_remove, find, hlist]
              · simp [hother]

theorem preflight_hooks (state : EventState) (E : Event) (routing : Routing)
    (operation : EventOperation) : (state.preflight E routing operation).1.hooks = fun name =>
      if name = E.NAME ∧ (state.bindLocked E).isSome then
        (state.hooks name).map EventHooks.compactIfSparse
      else state.hooks name := by
  unfold preflight
  cases hbound : state.bindLocked E with
  | none => simp
  | some bound =>
      have hhooks := hooks_bindLocked hbound
      simp only [hhooks, Option.isSome_some, and_true]
      cases hlist : state.hooks E.NAME with
      | none =>
          funext name
          simp only [hhooks]
          split
          · rename_i hname
            rw [hname, hlist]
            rfl
          · rfl
      | some list =>
          have hset : (bound.setHooks E.NAME (some list.compactIfSparse)).hooks = fun name =>
              if name = E.NAME then (state.hooks name).map EventHooks.compactIfSparse
              else state.hooks name := by
            funext name
            simp only [setHooks, hhooks]
            split
            · rename_i hname
              rw [hname, hlist]
              rfl
            · rfl
          simp only
          split <;> exact hset

theorem find_preflight (state : EventState) (E : Event) (routing : Routing)
    (operation : EventOperation) (name : String) (id : ListenerRegistrationId) :
    (state.preflight E routing operation).1.find name id = state.find name id := by
  unfold find
  rw [preflight_hooks]
  simp only
  split
  · cases state.hooks name with
    | none => rfl
    | some list => exact EventHooks.get_compact list id
  · rfl

theorem effective_preflight (state : EventState) (E : Event) (routing : Routing)
    (operation : EventOperation) (name : String) :
    (state.preflight E routing operation).1.effective name = state.effective name := by
  unfold effective
  rw [preflight_hooks]
  simp only
  split
  · cases state.hooks name with
    | none => rfl
    | some list => exact EventHooks.iter_compact list
  · rfl

end EventState

end Events
end CordisCore
