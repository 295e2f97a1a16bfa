import CordisCore.Logger.Ledger

/-!
# Stores — exporter occurrences and the buffers behind them
-/

namespace CordisCore
namespace Logger

open Interleaving Fanout

variable {s s' : Logging} {t : ThreadId} {turn : Turn} {ok : Logging → Action → Prop}

/-! ## Occurrences -/

/-- What an event does to the store of this service. -/
def Event.change? (service : Service) : Event → Option (Change Exporter)
  | store other change => if other = service then some change else none
  | snapshot _ other _ _ occurrences => if other = service then some (.snapshot occurrences) else none
  | _ => none

def history (service : Service) (trace : List Event) : List (Change Exporter) :=
  trace.filterMap (Event.change? service)

theorem history_cons_none {service : Service} {e : Event} {trace : List Event}
    (h : e.change? service = none) : history service (e :: trace) = history service trace :=
  List.filterMap_cons_none h

theorem history_cons_some {service : Service} {e : Event} {trace : List Event}
    {change : Change Exporter} (h : e.change? service = some change) :
    history service (e :: trace) = change :: history service trace :=
  List.filterMap_cons_some h

theorem change?_store (service : Service) (change : Change Exporter) :
    (Event.store service change).change? service = some change :=
  if_pos rfl

theorem change?_store_ne {service other : Service} (h : other ≠ service)
    (change : Change Exporter) : (Event.store other change).change? service = none :=
  if_neg h

theorem change?_snapshot (service : Service) (record : LogRecord) (within : List Service)
    (occurrences : List (Occurrence Exporter)) :
    (Event.snapshot t service record within occurrences).change? service =
      some (.snapshot occurrences) :=
  if_pos rfl

theorem change?_snapshot_ne {service other : Service} (h : other ≠ service) (record : LogRecord)
    (within : List Service) (occurrences : List (Occurrence Exporter)) :
    (Event.snapshot t other record within occurrences).change? service = none :=
  if_neg h

theorem history_append (service : Service) (later earlier : List Event) :
    history service (later ++ earlier) = history service later ++ history service earlier :=
  List.filterMap_append

/-- Every store is what its history leaves, and a reserved key is still to be inserted, once. -/
structure Logging.Stocked (s : Logging) : Prop where
  stores : ∀ service, (s.services service).exporters.Matches (history service s.trace)
  bounded : ∀ r ∈ s.pending, r.occurrence.key ≤ (s.services r.service).exporters.sequence
  fresh : ∀ r ∈ s.pending,
    r.occurrence.key ∉ keys (insertions (history r.service s.trace))
  distinct : (s.pending.map fun r => (r.service, r.occurrence.key)).Nodup

namespace Logging.Stocked

/-- The stores, their histories and the reservations are the same. -/
theorem congr (h : s.Stocked)
    (hstores : ∀ service, (s'.services service).exporters = (s.services service).exporters)
    (hhistory : ∀ service, history service s'.trace = history service s.trace)
    (hpending : s'.pending = s.pending) : s'.Stocked := by
  refine ⟨fun service => ?_, fun r hr => ?_, fun r hr => ?_, ?_⟩
  · rw [hstores, hhistory]
    exact h.stores service
  · rw [hstores]
    exact h.bounded r (hpending ▸ hr)
  · rw [hhistory]
    exact h.fresh r (hpending ▸ hr)
  · rw [hpending]
    exact h.distinct

/-- One store changes as its history does, and only a reserved key is inserted. -/
theorem change (h : s.Stocked) (service : Service) {value : LoggerService}
    {change : Change Exporter}
    (hservices : s'.services = Function.update s.services service value)
    (htrace : s'.trace = .store service change :: s.trace)
    (hmatches : value.exporters.Matches (change :: history service s.trace))
    (hsequence : value.exporters.sequence = (s.services service).exporters.sequence)
    (hpending : s'.pending.Sublist s.pending)
    (hfresh : ∀ r ∈ s'.pending, r.service = service →
      r.occurrence.key ∉ keys (insertions (change :: history service s.trace))) : s'.Stocked := by
  refine ⟨fun other => ?_, fun r hr => ?_, fun r hr => ?_, h.distinct.sublist (hpending.map _)⟩
  · rw [hservices, htrace]
    by_cases hother : other = service
    · subst hother
      rw [Function.update_self, history_cons_some (change?_store ..)]
      exact hmatches
    · rw [Function.update_of_ne hother, history_cons_none (change?_store_ne (Ne.symm hother) _)]
      exact h.stores other
  · rw [hservices]
    by_cases hservice : r.service = service
    · rw [hservice, Function.update_self, hsequence]
      exact hservice ▸ h.bounded r (hpending.subset hr)
    · rw [Function.update_of_ne hservice]
      exact h.bounded r (hpending.subset hr)
  · rw [htrace]
    by_cases hservice : r.service = service
    · rw [hservice, history_cons_some (change?_store ..)]
      exact hfresh r hr hservice
    · rw [history_cons_none (change?_store_ne (Ne.symm hservice) _)]
      exact h.fresh r (hpending.subset hr)

theorem removeExporter (h : s.Stocked) (service : Service) (key : Nat) :
    (s.removeExporter service key).Stocked :=
  h.change service rfl rfl ((h.stores service).remove key) rfl (List.Sublist.refl _)
    fun r hr hservice => hservice ▸ h.fresh r hr

theorem reserveExporter (h : s.Stocked) (service : Service) (exporter : Exporter) :
    (s.reserveExporter service exporter).Stocked := by
  cases hkey : checkedSuccessor (s.services service).exporters.sequence with
  | none =>
      simp only [Logging.reserveExporter, hkey]
      exact h
  | some key =>
      simp only [Logging.reserveExporter, hkey]
      cases checkedSuccessor_eq hkey
      refine ⟨fun other => ?_, fun r hr => ?_, fun r hr => ?_, ?_⟩
      · by_cases hother : other = service
        · subst hother
          simp only [Logging.setService, Function.update_self]
          exact (h.stores other).reserve _ (Nat.le_succ _)
        · simp only [Logging.setService, Function.update_of_ne hother]
          exact h.stores other
      · rcases List.mem_cons.mp hr with rfl | hr
        · simp [Logging.setService]
        · by_cases hservice : r.service = service
          · simp only [Logging.setService, hservice, Function.update_self]
            exact Nat.le_succ_of_le (hservice ▸ h.bounded r hr)
          · simp only [Logging.setService, Function.update_of_ne hservice]
            exact h.bounded r hr
      · rcases List.mem_cons.mp hr with rfl | hr
        · exact fun hin => Nat.not_succ_le_self _ ((h.stores service).bounded _ hin)
        · exact h.fresh r hr
      · refine List.nodup_cons.mpr ⟨fun hin => ?_, h.distinct⟩
        rcases List.mem_map.mp hin with ⟨r, hr, heq⟩
        rcases Prod.mk.injEq .. ▸ heq with ⟨hservice, hkey⟩
        have hbounded := h.bounded r hr
        rw [hservice, hkey] at hbounded
        exact Nat.not_succ_le_self _ hbounded

theorem withdraw (h : s.Stocked) {pending : List Reservation} (hsub : pending.Sublist s.pending) :
    Logging.Stocked { s with pending := pending } :=
  ⟨h.stores, fun r hr => h.bounded r (hsub.subset hr), fun r hr => h.fresh r (hsub.subset hr),
    h.distinct.sublist (hsub.map _)⟩

/-- The reservation that is inserted was the only one of its key. -/
theorem insertReserved (h : s.Stocked) {r : Reservation} (hr : r ∈ s.pending) :
    (s.insertReserved r).Stocked := by
  refine h.change r.service rfl rfl
    ((h.stores r.service).insert (h.fresh r hr) (h.bounded r hr)) rfl List.erase_sublist
    fun other hother hservice hin => ?_
  have hperm := (List.perm_cons_erase hr).map fun r => (r.service, r.occurrence.key)
  have hdistinct := hperm.nodup_iff.mp h.distinct
  simp only [insertions, keys, List.map_append, List.mem_append, List.map_cons, List.map_nil,
    List.mem_singleton] at hin
  rcases hin with hin | heq
  · exact h.fresh other (List.mem_of_mem_erase hother) (hservice ▸ hin)
  · refine (List.nodup_cons.mp hdistinct).1 (List.mem_map.mpr ⟨other, hother, ?_⟩)
    rw [hservice, heq]

end Logging.Stocked

theorem snapshot_of_agrees {occurrences : List (Occurrence Exporter)} {service : Service}
    {record : LogRecord} {below : List Frame} {callbacks : List Service}
    (hthread : s.threads t = ⟨.ready service record :: below, callbacks⟩)
    (hagrees : s.agrees t (.snapshot occurrences) = true) :
    (s.services service).exporters.occurrences = occurrences := by
  simp only [Logging.agrees, hthread] at hagrees
  exact of_decide_eq_true hagrees

/-- A turn says nothing about stores, unless it takes a snapshot. -/
theorem Thread.turn_stores {thread : Thread} {out : Outcome} (h : thread.turn t turn = some out) :
    (∀ service, history service out.events = []) ∨
      ∃ service record below callbacks occurrences within,
        thread = ⟨.ready service record :: below, callbacks⟩ ∧ turn = .snapshot occurrences ∧
          out.events = [.snapshot t service record within occurrences] := by
  rcases thread with ⟨frames, callbacks⟩
  cases frames with
  | nil => cases turn <;> cases h
  | cons frame below =>
      cases frame with
      | ready service record =>
          cases turn with
          | snapshot occurrences =>
              cases h
              exact .inr ⟨service, record, below, callbacks, occurrences, _, rfl, rfl, rfl⟩
          | _ => cases h
      | rendering service sequence timestamp channel level =>
          cases Thread.turn_moves h <;> exact .inl fun _ => rfl
      | dispatching d => cases Thread.turn_moves h <;> exact .inl fun _ => rfl

theorem Takes.history_received {out : Outcome} (h : Takes t turn s s' out) (service : Service) :
    history service s'.trace = history service out.events ++ history service s.trace := by
  rcases h.trace with ⟨received, htrace, hreceived⟩
  have hnil : history service received = [] :=
    List.filterMap_eq_nil_iff.mpr fun e he => by
      rcases hreceived e he with ⟨id, record, rfl⟩
      rfl
  rw [htrace, history_append, history_append, hnil, List.nil_append]

theorem Logging.Stocked.takes {out : Outcome} (h : s.Stocked) (htakes : Takes t turn s s' out) :
    s'.Stocked := by
  rcases Thread.turn_stores htakes.turns with
    hnil | ⟨service, record, below, callbacks, occurrences, within, hthread, rfl, hevents⟩
  · refine h.congr (fun service => ?_) (fun service => ?_) htakes.pending
    · rw [htakes.services]
    · rw [htakes.history_received, hnil, List.nil_append]
  · have hsnapshot := snapshot_of_agrees hthread htakes.agrees
    have hself : history service s'.trace = .snapshot occurrences :: history service s.trace := by
      rw [htakes.history_received, hevents, history_cons_some (change?_snapshot ..)]
      rfl
    have hother : ∀ other, service ≠ other → history other s'.trace = history other s.trace := by
      intro other hne
      rw [htakes.history_received, hevents, history_cons_none (change?_snapshot_ne hne ..)]
      rfl
    refine ⟨fun other => ?_, fun r hr => ?_, fun r hr => ?_, htakes.pending ▸ h.distinct⟩
    · rw [htakes.services]
      by_cases heq : service = other
      · subst heq
        rw [hself, ← hsnapshot]
        exact (h.stores service).snapshot
      · rw [hother other heq]
        exact h.stores other
    · rw [htakes.services]
      exact h.bounded r (htakes.pending ▸ hr)
    · have hfresh := h.fresh r (htakes.pending ▸ hr)
      by_cases heq : service = r.service
      · subst heq
        rw [hself]
        exact hfresh
      · rw [hother _ heq]
        exact hfresh

theorem stocked (h : logging.Reachable ok s) : s.Stocked := by
  refine h.invariant (I := Logging.Stocked) ?_ fun {s a s'} _ ih _ hstep => ?_
  · refine ⟨fun _ => Registry.matches_empty, ?_, ?_, List.nodup_nil⟩ <;>
      exact fun _ hr => absurd hr List.not_mem_nil
  cases a with
  | log t logger level timestamp =>
      simp only [logging] at hstep
      split at hstep
      · cases hstep
        rcases log_cases (s := s) (t := t) logger level timestamp with hsame | ⟨frame, hlogs⟩
        · rw [hsame]
          exact ih
        -- only the sequence number of the service moves
        · refine ih.congr (fun service => ?_) (fun service => ?_) hlogs.pending
          · rw [hlogs.services]
            by_cases hservice : service = logger.service
            · subst hservice
              rw [Function.update_self]
            · rw [Function.update_of_ne hservice]
          · rw [hlogs.trace]
            exact history_cons_none rfl
      · cases hstep
  | take t turn =>
      rcases take_cases hstep with ⟨out, htakes⟩
      exact ih.takes htakes
  | newBuffer capacity minLevel =>
      simp only [logging] at hstep
      split at hstep
      · cases hstep
        exact ih.congr (fun _ => rfl) (fun _ => rfl) rfl
      · cases hstep
        exact ih
  | clear id =>
      cases hstep
      exact ih.congr (fun _ => rfl) (fun _ => history_cons_none rfl) rfl
  | forward id record =>
      simp only [logging] at hstep
      split at hstep
      · cases hstep
        exact ih.congr (fun _ => rfl) (fun _ => history_cons_none rfl) rfl
      · cases hstep
  | reserve service exporter =>
      simp only [logging] at hstep
      split at hstep
      · split at hstep
        · cases hstep
          exact ih.reserveExporter service _
        · cases hstep
      · cases hstep
        exact ih.reserveExporter service _
  | publish r =>
      simp only [logging] at hstep
      split at hstep
      · rename_i hr
        cases hstep
        exact ih.insertReserved hr
      · cases hstep
  | refuse r =>
      simp only [logging] at hstep
      split at hstep
      · cases hstep
        -- a refused reservation is never published, and its key is not issued again
        exact ih.withdraw List.erase_sublist
      · cases hstep
  | remove service key =>
      simp only [logging] at hstep
      split at hstep
      · cases hstep
        -- a registration removes once: it is spent before its store is touched
        have hsame : Logging.Stocked { s with controls := s.controls.erase (service, key) } :=
          ih.congr (fun _ => rfl) (fun _ => rfl) rfl
        exact hsame.removeExporter service key
      · cases hstep
  | cleanup service key =>
      simp only [logging] at hstep
      split at hstep
      · cases hstep
        have hsame : Logging.Stocked { s with cleanups := s.cleanups.erase (service, key) } :=
          ih.congr (fun _ => rfl) (fun _ => rfl) rfl
        exact hsame.removeExporter service key
      · cases hstep

theorem mem_history {service : Service} {change : Change Exporter} {trace : List Event}
    (h : ∀ occurrences, change ≠ .snapshot occurrences) :
    change ∈ history service trace ↔ .store service change ∈ trace := by
  simp only [history, List.mem_filterMap]
  refine ⟨fun ⟨e, he, hchange⟩ => ?_, fun hmem => ⟨_, hmem, change?_store ..⟩⟩
  cases e with
  | store other change' =>
      simp only [Event.change?, Option.ite_none_right_eq_some, Option.some.injEq] at hchange
      rcases hchange with ⟨rfl, rfl⟩
      exact he
  | snapshot t other record within occurrences =>
      simp only [Event.change?, Option.ite_none_right_eq_some, Option.some.injEq] at hchange
      exact absurd hchange.2.symm (h occurrences)
  | _ => cases hchange

/-- Every store is its exact occurrences. -/
structure Logging.Stored (s : Logging) : Prop where
  /-- A store holds what its history leaves. -/
  present : ∀ service,
    (s.services service).exporters.occurrences = Fanout.present (history service s.trace)
  /-- A snapshot is what was inserted and not found by a removal since, each occurrence once and in
  the order of insertion. -/
  snapshots : ∀ t service record within occurrences later earlier,
    s.trace = later ++ .snapshot t service record within occurrences :: earlier →
    (keys occurrences).Nodup ∧ occurrences.Sublist (insertions (history service earlier)) ∧
      ∀ o, o ∈ occurrences ↔ .store service (.inserted o) ∈ earlier ∧
        .store service (.removed o.key true) ∉ earlier
  /-- The control and the cleanup of an occurrence do not both find it. -/
  removals : ∀ service key later earlier,
    s.trace = later ++ .store service (.removed key true) :: earlier →
    .store service (.removed key true) ∉ later

/-- Whatever order registrations, removals and dispatches take. -/
theorem stored_of_reachable (h : logging.Reachable Automaton.anyRun s) : s.Stored where
  present service := ((stocked h).stores service).occurrences
  snapshots t service record within occurrences later earlier htrace := by
    have hexact := ((stocked h).stores service).exact
    rw [htrace, history_append, history_cons_some (change?_snapshot ..)] at hexact
    have hsnapshot := hexact.before.snapshot_eq
    have hearlier := hexact.before.tail
    rw [hsnapshot]
    refine ⟨hearlier.nodup_present, present_sublist _, fun o => ?_⟩
    rw [hearlier.mem_present, mem_history (by simp), mem_history (by simp)]
  removals service key later earlier htrace hmem := by
    have hexact := ((stocked h).stores service).exact
    rw [htrace, history_append, history_cons_some (change?_store ..)] at hexact
    exact hexact.found_once ((mem_history (by simp)).mpr hmem)

theorem stored_selfRemoval :
    (logging.after (fun _ _ => true) selfRemoval selfRemoval_enabled).Stored :=
  stored_of_reachable reachable_selfRemoval

end Logger
end CordisCore
