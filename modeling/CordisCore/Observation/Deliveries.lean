import CordisCore.Observation.Hub

/-!
# Deliveries — one for every observer of every publication
-/

namespace CordisCore
namespace Observation

open Interleaving Fanout

variable {ρ : Type} {s s' : ObservationHub ρ}

/-! ## Observers -/

/-- What an event does to the registered observers. -/
def Event.change? : Event ρ → Option (Change RegisteredObserver)
  | inserted observer => some (.inserted observer)
  | removed id found => some (.removed id found)
  | _ => none

def history (trace : List (Event ρ)) : List (Change RegisteredObserver) :=
  trace.filterMap Event.change?

/-- Every publication cloned exactly what was registered. -/
def Cloned : List (Event ρ) → Prop
  | [] => True
  | .published _ _ observers _ :: earlier =>
      observers.Perm (present (history earlier)) ∧ Cloned earlier
  | _ :: earlier => Cloned earlier

theorem Cloned.earlier {later earlier : List (Event ρ)} (h : Cloned (later ++ earlier)) :
    Cloned earlier := by
  induction later with
  | nil => exact h
  | cons e later ih =>
      cases e with
      | published n record observers current => exact ih h.2
      | _ => exact ih h

/-- The registered observers are what their history leaves, and an identity that is waiting for
the gate is still to be inserted, once. -/
structure ObservationHub.Stocked (s : ObservationHub ρ) : Prop where
  observers : s.observers.Matches (history s.trace)
  bounded : ∀ o ∈ s.pending, o.key ≤ s.observers.sequence
  fresh : ∀ o ∈ s.pending, o.key ∉ keys (insertions (history s.trace))
  distinct : (keys s.pending).Nodup
  cloned : Cloned s.trace
  reachable : s.unreachable = false

namespace ObservationHub.Stocked

/-- The observers and the registrations are the same. -/
theorem congr (h : s.Stocked) (hobservers : s'.observers = s.observers)
    (hhistory : history s'.trace = history s.trace) (hpending : s'.pending = s.pending)
    (hcloned : Cloned s'.trace) (hreachable : s'.unreachable = s.unreachable) : s'.Stocked := by
  refine ⟨?_, ?_, ?_, ?_, hcloned, hreachable.trans h.reachable⟩
  · rw [hobservers, hhistory]
    exact h.observers
  · rw [hobservers, hpending]
    exact h.bounded
  · rw [hhistory, hpending]
    exact h.fresh
  · rw [hpending]
    exact h.distinct

theorem withdraw (h : s.Stocked) {pending : List (Occurrence RegisteredObserver)}
    (hsub : pending.Sublist s.pending) :
    ObservationHub.Stocked { s with pending := pending } :=
  ⟨h.observers, fun o ho => h.bounded o (hsub.subset ho), fun o ho => h.fresh o (hsub.subset ho),
    h.distinct.sublist (hsub.map _), h.cloned, h.reachable⟩

theorem register (h : s.Stocked) (observer : RegisteredObserver) : (s.register observer).Stocked := by
  unfold ObservationHub.register
  split
  · refine ⟨h.observers.reserve _ (Nat.le_succ _), fun o ho => ?_, fun o ho => ?_, ?_, h.cloned,
      h.reachable⟩
    · rcases List.mem_cons.mp ho with rfl | ho
      · exact Nat.le_refl _
      · exact Nat.le_succ_of_le (h.bounded o ho)
    · rcases List.mem_cons.mp ho with rfl | ho
      · exact fun hin => Nat.not_succ_le_self _ (h.observers.bounded _ hin)
      · exact h.fresh o ho
    · refine List.nodup_cons.mpr ⟨fun hin => ?_, h.distinct⟩
      rcases mem_keys.mp hin with ⟨o, ho, hkey⟩
      have hbounded := h.bounded o ho
      rw [hkey] at hbounded
      exact Nat.not_succ_le_self _ hbounded
  · exact h

/-- An identity that reaches the gate is vacant. -/
theorem vacant (h : s.Stocked) {o : Occurrence RegisteredObserver} (ho : o ∈ s.pending) :
    o.key ∉ keys s.observers.occurrences := by
  rw [h.observers.occurrences]
  exact fun hin => h.fresh o ho (((present_sublist _).map _).subset hin)

theorem insert (h : s.Stocked) {o : Occurrence RegisteredObserver} (ho : o ∈ s.pending) :
    (s.insert o).Stocked := by
  unfold ObservationHub.insert
  rw [if_neg (h.vacant ho)]
  have hsub : (s.pending.erase o).Sublist s.pending := List.erase_sublist
  have hdistinct := ((List.perm_cons_erase ho).map Occurrence.key).nodup_iff.mp h.distinct
  refine ⟨h.observers.insert (h.fresh o ho) (h.bounded o ho),
    fun other hother => h.bounded other (hsub.subset hother), fun other hother hin => ?_,
    h.distinct.sublist (hsub.map _), h.cloned, h.reachable⟩
  have hin : other.key ∈ keys (insertions (history s.trace) ++ [o]) := hin
  simp only [keys, List.map_append, List.mem_append, List.map_cons, List.map_nil,
    List.mem_singleton] at hin
  rcases hin with hin | heq
  · exact h.fresh other (hsub.subset hother) hin
  · exact (List.nodup_cons.mp hdistinct).1 (List.mem_map.mpr ⟨other, hother, heq⟩)

theorem remove (h : s.Stocked) (id : Nat) : (s.remove id).Stocked :=
  ⟨h.observers.remove id, h.bounded, h.fresh, h.distinct, h.cloned, h.reachable⟩

theorem publish (h : s.Stocked) (record : ρ) {observers : List (Occurrence RegisteredObserver)}
    (current : Bool) (hperm : observers.Perm s.observers.occurrences) :
    (s.publish record observers current).Stocked := by
  have hcloned : Cloned (.published s.publications record observers current :: s.trace) :=
    ⟨h.observers.occurrences ▸ hperm, h.cloned⟩
  unfold ObservationHub.publish
  split
  · exact h.congr rfl rfl rfl hcloned rfl
  · split
    · exact h.congr rfl rfl rfl hcloned rfl
    · exact h.congr rfl rfl rfl hcloned rfl

end ObservationHub.Stocked

variable [DecidableEq ρ] {ok : ObservationHub ρ → Action ρ → Prop}

theorem stocked (h : observation.Reachable ok s) : s.Stocked := by
  refine h.invariant (I := ObservationHub.Stocked) ?_ fun {s a s'} _ ih _ hstep => ?_
  · exact ⟨Registry.matches_empty, fun _ ho => absurd ho List.not_mem_nil,
      fun _ ho => absurd ho List.not_mem_nil, List.nodup_nil, trivial, rfl⟩
  cases a with
  | register observer =>
      cases hstep
      exact ih.register observer
  | insert o =>
      simp only [observation] at hstep
      split at hstep
      · rename_i ho
        cases hstep
        exact ih.insert ho
      · cases hstep
  | refuse o =>
      simp only [observation] at hstep
      split at hstep
      · cases hstep
        exact ih.withdraw List.erase_sublist
      · cases hstep
  | cleanup id =>
      simp only [observation] at hstep
      split at hstep
      · cases hstep
        have hsame : ObservationHub.Stocked { s with cleanups := s.cleanups.erase id } :=
          ih.congr rfl rfl rfl ih.cloned rfl
        exact hsame.remove id
      · cases hstep
  | publish record observers current =>
      simp only [observation] at hstep
      split at hstep
      · rename_i hperm
        cases hstep
        exact ih.publish record current (List.isPerm_iff.mp hperm)
      · cases hstep
  | spawn delivery =>
      simp only [observation] at hstep
      split at hstep
      · cases hstep
        exact ih.congr rfl rfl rfl ih.cloned rfl
      · cases hstep
  | finish delivery outcome =>
      simp only [observation] at hstep
      split at hstep
      · cases hstep
        exact ih.congr rfl rfl rfl ih.cloned rfl
      · cases hstep
  | abandon delivery =>
      simp only [observation] at hstep
      split at hstep
      · cases hstep
        exact ih.congr rfl rfl rfl ih.cloned rfl
      · cases hstep

/-! ## Deliveries -/

/-- A publication and an observer of it. -/
structure DeliveryId where
  publication : Nat
  observer : Nat
  deriving DecidableEq

def Delivery.id (delivery : Delivery ρ) : DeliveryId :=
  ⟨delivery.publication, delivery.observer.key⟩

/-- The delivery that is over. -/
def Event.concluded? : Event ρ → Option (Delivery ρ)
  | ended delivery _ => some delivery
  | abandoned delivery => some delivery
  | _ => none

/-- The deliveries that are over, the latest first. -/
def concluded (trace : List (Event ρ)) : List (Delivery ρ) :=
  trace.filterMap Event.concluded?

/-- The line that the end of a delivery leaves on stderr. -/
def Event.line? : Event ρ → Option String
  | ended _ outcome => outcome.report
  | _ => none

/-- Some publication has a task for this observer. -/
def Issued (trace : List (Event ρ)) (id : DeliveryId) : Prop :=
  ∃ record observers, .published id.publication record observers true ∈ trace ∧
    id.observer ∈ keys observers

/-- A delivery tells an observer of its publication what was published. -/
def Told (trace : List (Event ρ)) (delivery : Delivery ρ) : Prop :=
  ∃ observers, .published delivery.publication delivery.record observers true ∈ trace ∧
    delivery.observer ∈ observers

omit [DecidableEq ρ] in
theorem Told.mono {trace trace' : List (Event ρ)} {delivery : Delivery ρ} (h : Told trace delivery)
    (hsub : trace ⊆ trace') : Told trace' delivery := by
  rcases h with ⟨observers, hmem, hin⟩
  exact ⟨observers, hsub hmem, hin⟩

/-- Every delivery is in one place, tells what was published, and leaves its line. -/
structure ObservationHub.Delivered (s : ObservationHub ρ) : Prop where
  /-- A publication owes every observer it cloned one delivery: it is still running, once, or over,
  once. -/
  accounted : Accounted (Issued s.trace) (fun _ : Unit => (s.spawning ++ s.tasks).map Delivery.id)
    ((concluded s.trace).map Delivery.id)
  told : ∀ delivery ∈ s.spawning ++ s.tasks ++ concluded s.trace, Told s.trace delivery
  /-- Failures and panics are what stderr shows, in order. -/
  stderr : s.stderr = s.trace.filterMap Event.line?
  bounded : ∀ n record observers current, .published n record observers current ∈ s.trace →
    n < s.publications

namespace ObservationHub.Delivered

omit [DecidableEq ρ]

/-- Events that concern no delivery, while every delivery stays where it is. -/
theorem aside (h : s.Delivered) (events : List (Event ρ)) (htrace : s'.trace = events ++ s.trace)
    (hover : ∀ e ∈ events, e.concluded? = none ∧ e.line? = none)
    (hpublished : ∀ n record observers current, .published n record observers current ∉ events)
    (hspawning : s'.spawning = s.spawning) (htasks : s'.tasks = s.tasks)
    (hstderr : s'.stderr = s.stderr) (hpublications : s'.publications = s.publications) :
    s'.Delivered := by
  have hsame : concluded s'.trace = concluded s.trace := by
    have hnil : concluded events = [] := List.filterMap_eq_nil_iff.mpr fun e he => (hover e he).1
    rw [htrace, concluded, List.filterMap_append]
    exact congrArg (· ++ concluded s.trace) hnil
  have hold : ∀ n record observers current, .published n record observers current ∈ s'.trace →
      .published n record observers current ∈ s.trace := fun n record observers current hmem =>
    (List.mem_append.mp (htrace ▸ hmem)).resolve_left (hpublished n record observers current)
  have hsub : s.trace ⊆ s'.trace := htrace ▸ List.subset_append_right _ _
  refine ⟨?_, fun delivery hmem => ?_, ?_, fun n record observers current hmem => ?_⟩
  · rw [hspawning, htasks, hsame]
    refine h.accounted.congr fun id => ⟨?_, ?_⟩
    · rintro ⟨record, observers, hmem, hin⟩
      exact ⟨record, observers, hold _ _ _ _ hmem, hin⟩
    · rintro ⟨record, observers, hmem, hin⟩
      exact ⟨record, observers, hsub hmem, hin⟩
  · rw [hspawning, htasks, hsame] at hmem
    exact (h.told delivery hmem).mono hsub
  · have hnil : events.filterMap Event.line? = [] :=
      List.filterMap_eq_nil_iff.mpr fun e he => (hover e he).2
    rw [hstderr, htrace, List.filterMap_append, hnil, List.nil_append]
    exact h.stderr
  · rw [hpublications]
    exact h.bounded n record observers current (hold n record observers current hmem)

/-- A publication with nobody to tell, or without a runtime. -/
theorem untold (h : s.Delivered) (record : ρ) {observers : List (Occurrence RegisteredObserver)}
    {current : Bool} (hnobody : current = true → observers = []) :
    ObservationHub.Delivered ({ s with publications := s.publications + 1 }.emit
      (.published s.publications record observers current)) := by
  refine ⟨h.accounted.congr fun id => ⟨?_, ?_⟩, fun delivery hmem =>
    (h.told delivery hmem).mono (List.subset_cons_self ..), h.stderr,
    fun n record' observers' current' hmem => ?_⟩
  · rintro ⟨record', observers', hmem, hin⟩
    rcases List.mem_cons.mp hmem with heq | hmem
    · rcases id with ⟨publication, key⟩
      cases heq
      rw [hnobody rfl] at hin
      exact absurd hin List.not_mem_nil
    · exact ⟨record', observers', hmem, hin⟩
  · rintro ⟨record', observers', hmem, hin⟩
    exact ⟨record', observers', List.mem_cons_of_mem _ hmem, hin⟩
  · rcases List.mem_cons.mp hmem with heq | hmem
    · cases heq
      exact Nat.lt_succ_self _
    · exact Nat.lt_succ_of_lt (h.bounded n record' observers' current' hmem)

/-- A publication with observers on a runtime owes each of them one delivery. -/
theorem owed (h : s.Delivered) (record : ρ) {observers : List (Occurrence RegisteredObserver)}
    (hnodup : (keys observers).Nodup) :
    ObservationHub.Delivered ({ s with
      publications := s.publications + 1
      spawning := observers.map (Delivery.mk s.publications · record) ++ s.spawning }.emit
      (.published s.publications record observers true)) := by
  let ids := (keys observers).map (DeliveryId.mk s.publications)
  have hids : (observers.map (Delivery.mk s.publications · record)).map Delivery.id = ids := by
    simp [ids, keys, Delivery.id]
  have hfresh : ∀ id ∈ ids, ¬ Issued s.trace id := by
    rintro id hid ⟨record', observers', hmem, -⟩
    rcases List.mem_map.mp hid with ⟨key, -, rfl⟩
    exact Nat.lt_irrefl _ (h.bounded _ _ _ _ hmem)
  have hissued : ∀ id, Issued (.published s.publications record observers true :: s.trace) id ↔
      id ∈ ids ∨ Issued s.trace id := by
    intro id
    refine ⟨?_, ?_⟩
    · rintro ⟨record', observers', hmem, hin⟩
      rcases List.mem_cons.mp hmem with heq | hmem
      · rcases id with ⟨publication, key⟩
        cases heq
        exact .inl (List.mem_map.mpr ⟨key, hin, rfl⟩)
      · exact .inr ⟨record', observers', hmem, hin⟩
    · rintro (hid | ⟨record', observers', hmem, hin⟩)
      · rcases List.mem_map.mp hid with ⟨key, hkey, rfl⟩
        exact ⟨record, observers, List.mem_cons_self, hkey⟩
      · exact ⟨record', observers', List.mem_cons_of_mem _ hmem, hin⟩
  have hnodup' : ids.Nodup := hnodup.map fun key key' heq => by
    cases heq
    rfl
  refine ⟨?_, fun delivery hmem => ?_, h.stderr, fun n record' observers' current' hmem => ?_⟩
  · refine (h.accounted.issue () ids hnodup' hfresh hissued).perm fun _ => ?_
    rw [Function.update_self, ← hids]
    simp only [emit, List.append_assoc, List.map_append]
    exact List.Perm.refl _
  · simp only [emit, List.append_assoc, List.mem_append] at hmem
    rcases hmem with hmem | hmem
    · rcases List.mem_map.mp hmem with ⟨observer, hobserver, rfl⟩
      exact ⟨observers, List.mem_cons_self, hobserver⟩
    · refine (h.told delivery ?_).mono (List.subset_cons_self ..)
      rw [List.append_assoc, List.mem_append, List.mem_append]
      exact hmem
  · rcases List.mem_cons.mp hmem with heq | hmem
    · cases heq
      exact Nat.lt_succ_self _
    · exact Nat.lt_succ_of_lt (h.bounded n record' observers' current' hmem)

theorem publish (h : s.Delivered) (record : ρ) {observers : List (Occurrence RegisteredObserver)}
    (current : Bool) (hnodup : (keys observers).Nodup) :
    (s.publish record observers current).Delivered := by
  unfold ObservationHub.publish
  split
  · rename_i hempty
    exact h.untold record fun _ => List.isEmpty_iff.mp hempty
  · split
    · rename_i hcurrent
      cases hcurrent
      exact h.owed record hnodup
    · rename_i hcurrent
      exact h.untold record fun heq => absurd heq hcurrent

variable [DecidableEq ρ]

theorem spawn (h : s.Delivered) {delivery : Delivery ρ} (hmem : delivery ∈ s.spawning) :
    ObservationHub.Delivered { s with
      spawning := s.spawning.erase delivery
      tasks := delivery :: s.tasks } := by
  have hperm : (s.spawning.erase delivery ++ delivery :: s.tasks).Perm (s.spawning ++ s.tasks) :=
    List.perm_middle.trans ((List.perm_cons_erase hmem).symm.append_right s.tasks)
  refine ⟨h.accounted.perm fun _ => hperm.map _, fun other hother => h.told other ?_, h.stderr,
    h.bounded⟩
  exact (hperm.append_right _).mem_iff.mp hother

/-- A delivery is over. -/
theorem conclude (h : s.Delivered) {delivery : Delivery ρ} (event : Event ρ)
    (hmem : delivery ∈ s.tasks) (hover : event.concluded? = some delivery)
    (hpublished : ∀ n record observers current, event ≠ .published n record observers current) :
    ObservationHub.Delivered ({ s with
      tasks := s.tasks.erase delivery
      stderr := event.line?.toList ++ s.stderr }.emit event) := by
  have hcons : concluded (event :: s.trace) = delivery :: concluded s.trace :=
    List.filterMap_cons_some hover
  have hheld : ((s.spawning ++ s.tasks).map Delivery.id).Perm
      (delivery.id :: (s.spawning ++ s.tasks.erase delivery).map Delivery.id) :=
    (((List.perm_cons_erase hmem).append_left s.spawning).trans List.perm_middle).map _
  refine ⟨?_, fun other hother => ?_, ?_, fun n record observers current hin => ?_⟩
  · simp only [emit, hcons, List.map_cons]
    refine ((h.accounted.close () hheld).perm fun _ => ?_).congr fun id => ⟨?_, ?_⟩
    · rw [Function.update_self]
    · rintro ⟨record, observers, hin, hkey⟩
      rcases List.mem_cons.mp hin with heq | hin
      · exact absurd heq.symm (hpublished _ _ _ _)
      · exact ⟨record, observers, hin, hkey⟩
    · rintro ⟨record, observers, hin, hkey⟩
      exact ⟨record, observers, List.mem_cons_of_mem _ hin, hkey⟩
  · refine (h.told other ?_).mono (List.subset_cons_self ..)
    simp only [emit, hcons, List.mem_append, List.mem_cons] at hother ⊢
    rcases hother with (hother | hother) | rfl | hother
    · exact .inl (.inl hother)
    · exact .inl (.inr (List.mem_of_mem_erase hother))
    · exact .inl (.inr hmem)
    · exact .inr hother
  · simp only [emit, h.stderr]
    cases hline : event.line? with
    | none => rw [List.filterMap_cons_none hline, Option.toList_none, List.nil_append]
    | some line => rw [List.filterMap_cons_some hline, Option.toList_some, List.singleton_append]
  · rcases List.mem_cons.mp hin with heq | hin
    · exact absurd heq.symm (hpublished _ _ _ _)
    · exact h.bounded n record observers current hin

end ObservationHub.Delivered

omit [DecidableEq ρ] in
theorem delivered_insert (h : s.Delivered) (o : Occurrence RegisteredObserver) :
    (s.insert o).Delivered := by
  unfold ObservationHub.insert
  split
  · exact h.aside [] rfl (fun e he => absurd he List.not_mem_nil)
      (fun _ _ _ _ => List.not_mem_nil) rfl rfl rfl rfl
  · exact h.aside [.inserted o] rfl
      (fun e he => List.mem_singleton.mp he ▸ ⟨rfl, rfl⟩)
      (fun _ _ _ _ he => absurd (List.mem_singleton.mp he) (by simp)) rfl rfl rfl rfl

theorem delivered (h : observation.Reachable ok s) : s.Delivered := by
  refine h.invariant (I := ObservationHub.Delivered) ?_ fun {s a s'} hreach ih _ hstep => ?_
  · refine ⟨Accounted.empty.congr fun id => ⟨?_, False.elim⟩,
      fun _ hd => absurd hd List.not_mem_nil, rfl, fun _ _ _ _ hp => absurd hp List.not_mem_nil⟩
    rintro ⟨record, observers, hmem, -⟩
    cases hmem
  cases a with
  | register observer =>
      cases hstep
      unfold ObservationHub.register
      split
      · exact ih.aside [] rfl (fun e he => absurd he List.not_mem_nil)
          (fun _ _ _ _ => List.not_mem_nil) rfl rfl rfl rfl
      · exact ih
  | insert o =>
      simp only [observation] at hstep
      split at hstep
      · cases hstep
        exact delivered_insert ih o
      · cases hstep
  | refuse o =>
      simp only [observation] at hstep
      split at hstep
      · cases hstep
        exact ih.aside [] rfl (fun e he => absurd he List.not_mem_nil)
          (fun _ _ _ _ => List.not_mem_nil) rfl rfl rfl rfl
      · cases hstep
  | cleanup id =>
      simp only [observation] at hstep
      split at hstep
      · cases hstep
        exact ih.aside [.removed id _] rfl
          (fun e he => List.mem_singleton.mp he ▸ ⟨rfl, rfl⟩)
          (fun _ _ _ _ he => absurd (List.mem_singleton.mp he) (by simp)) rfl rfl rfl rfl
      · cases hstep
  | publish record observers current =>
      simp only [observation] at hstep
      split at hstep
      · rename_i hperm
        cases hstep
        -- the observers that are told were registered at this instant, each under its own id
        have hstore := (stocked hreach).observers
        have hnodup := hstore.exact.nodup_present
        rw [← hstore.occurrences] at hnodup
        exact ih.publish record current
          (((List.isPerm_iff.mp hperm).map Occurrence.key).nodup_iff.mpr hnodup)
      · cases hstep
  | spawn delivery =>
      simp only [observation] at hstep
      split at hstep
      · rename_i hmem
        cases hstep
        exact ih.spawn hmem
      · cases hstep
  | finish delivery outcome =>
      simp only [observation] at hstep
      split at hstep
      · rename_i hmem
        cases hstep
        exact ih.conclude (.ended delivery outcome) hmem rfl fun _ _ _ _ => by simp
      · cases hstep
  | abandon delivery =>
      simp only [observation] at hstep
      split at hstep
      · rename_i hmem
        cases hstep
        exact ih.conclude (.abandoned delivery) hmem rfl fun _ _ _ _ => by simp
      · cases hstep

/-- Every publication of a run reaches everyone who was registered at its instant, and only them. -/
structure ObservationHub.Observed (s : ObservationHub ρ) : Prop extends s.Delivered where
  /-- A publication clones who was registered: inserted, and not found by a cleanup since. -/
  cloned : ∀ n record observers current later earlier,
    s.trace = later ++ .published n record observers current :: earlier →
    (keys observers).Nodup ∧ ∀ o, o ∈ observers ↔
      .inserted o ∈ earlier ∧ .removed o.key true ∉ earlier
  /-- An identity is inserted at most once, so the occupied branch is never taken. -/
  reachable : s.unreachable = false

omit [DecidableEq ρ] in
theorem mem_history {trace : List (Event ρ)} {o : Occurrence RegisteredObserver} :
    .inserted o ∈ history trace ↔ .inserted o ∈ trace := by
  simp only [history, List.mem_filterMap]
  refine ⟨fun ⟨e, he, hchange⟩ => ?_, fun hmem => ⟨_, hmem, rfl⟩⟩
  cases e <;> cases hchange
  exact he

omit [DecidableEq ρ] in
theorem removed_mem_history {trace : List (Event ρ)} {id : Nat} {found : Bool} :
    .removed id found ∈ history trace ↔ .removed id found ∈ trace := by
  simp only [history, List.mem_filterMap]
  refine ⟨fun ⟨e, he, hchange⟩ => ?_, fun hmem => ⟨_, hmem, rfl⟩⟩
  cases e <;> cases hchange
  exact he

/-- However registrations, cleanups, publications and observers interleave. -/
theorem observed_of_reachable (h : observation.Reachable Automaton.anyRun s) : s.Observed where
  toDelivered := delivered h
  cloned n record observers current later earlier htrace := by
    have hstocked := stocked h
    have hexact := hstocked.observers.exact
    have hcloned := hstocked.cloned
    rw [htrace] at hexact hcloned
    have hperm := hcloned.earlier.1
    rw [history, List.filterMap_append] at hexact
    have hearlier : Exact (history earlier) := hexact.before
    refine ⟨((hperm.map Occurrence.key).nodup_iff).mpr hearlier.nodup_present, fun o => ?_⟩
    rw [hperm.mem_iff, hearlier.mem_present, mem_history, removed_mem_history]
  reachable := (stocked h).reachable

/-- Two observers, one of which goes before its second delivery and fails its first. -/
def withdrawn : List (Action String) :=
  let first : Occurrence RegisteredObserver := ⟨1, ⟨4, 0⟩⟩
  let second : Occurrence RegisteredObserver := ⟨2, ⟨5, 0⟩⟩
  [.register ⟨4, 0⟩, .insert first, .register ⟨5, 0⟩, .insert second,
    .publish "active" [second, first] true, .spawn ⟨0, second, "active"⟩,
    .finish ⟨0, second, "active"⟩ (.panicked "boom"), .cleanup 1,
    .publish "disposed" [second] true, .spawn ⟨0, first, "active"⟩,
    .finish ⟨0, first, "active"⟩ (.failed "late")]

theorem withdrawn_enabled :
    (observation.run (fun _ _ => true) withdrawn observation.init).isSome = true := by
  decide +kernel

theorem observed_withdrawn :
    (observation.after (fun _ _ => true) withdrawn withdrawn_enabled).Observed :=
  observed_of_reachable (Automaton.reachable_after (fun _ _ _ => trivial) withdrawn _)

end Observation
end CordisCore
