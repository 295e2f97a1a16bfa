import CordisCore.Logger.Delivery

/-!
# Ledger — records, stores and buffers over every interleaving
-/

namespace CordisCore
namespace Logger

open Interleaving Fanout

variable {s s' : Logging} {t : ThreadId} {turn : Turn}

/-! ## Steps -/

/-- Changes of a store, and what user code does to a buffer. -/
def Event.Aside : Event → Prop
  | store _ (.inserted _) | store _ (.removed _ _) | forwarded _ _ | cleared _ => True
  | _ => False

/-- Nothing happens to any record. -/
structure Quiet (s s' : Logging) : Prop where
  threads : s'.threads = s.threads
  sequences : ∀ service, (s'.services service).sequence = (s.services service).sequence
  trace : ∃ events, s'.trace = events ++ s.trace ∧ ∀ e ∈ events, e.Aside

/-- A thread takes one turn. -/
structure Takes (t : ThreadId) (turn : Turn) (s s' : Logging) (out : Outcome) : Prop where
  agrees : s.agrees t turn = true
  turns : (s.threads t).turn t turn = some out
  threads : s'.threads = Function.update s.threads t out.thread
  services : s'.services = s.services
  pending : s'.pending = s.pending
  buffers : s'.buffers = (s.receive t turn).buffers
  receives : s'.trace = out.events ++ (s.receive t turn).trace
  trace : ∃ received, s'.trace = out.events ++ (received ++ s.trace) ∧
    ∀ e ∈ received, ∃ id record, e = .received id record

/-- A record is assigned. -/
structure Logs (t : ThreadId) (logger : Channel) (s s' : Logging) (frame : Frame) : Prop where
  opens : ∃ timestamp level, frame = .rendering logger.service
    ((s.services logger.service).sequence + 1) timestamp logger.name level
  threads : s'.threads = Function.update s.threads t
    { s.threads t with frames := frame :: (s.threads t).frames }
  services : s'.services = Function.update s.services logger.service
    { s.services logger.service with sequence := (s.services logger.service).sequence + 1 }
  pending : s'.pending = s.pending
  buffers : s'.buffers = s.buffers
  trace : s'.trace =
    .assigned t logger.service ((s.services logger.service).sequence + 1) :: s.trace

theorem checkedSuccessor_eq {value next : Nat} (h : checkedSuccessor value = some next) :
    next = value + 1 := by
  unfold checkedSuccessor at h
  split at h
  · exact (Option.some.inj h).symm
  · cases h

theorem log_cases (logger : Channel) (level : Level) (timestamp : Nat) :
    s.log t logger level timestamp = s ∨
      ∃ frame, Logs t logger s (s.log t logger level timestamp) frame := by
  unfold Logging.log
  cases hsequence : checkedSuccessor (s.services logger.service).sequence with
  | none => exact .inl rfl
  | some sequence =>
      cases checkedSuccessor_eq hsequence
      exact .inr ⟨_, ⟨_, _, rfl⟩, rfl, rfl, rfl, rfl, rfl⟩

/-- Only a buffer that exports changes anything besides its thread. -/
theorem receive_cases (s : Logging) (t : ThreadId) (turn : Turn) :
    s.receive t turn = s ∨ ∃ id record, turn = .exported ∧
      s.exporter? t = some (.buffer id, record) ∧
      s.receive t turn =
        { s with buffers := s.buffers.modify id fun b => b.exportRecord record }.emit
          [.received id record] := by
  cases turn with
  | exported =>
      simp only [Logging.receive]
      split
      · rename_i id record hexporter
        exact .inr ⟨id, record, trivial, hexporter, rfl⟩
      · exact .inl rfl
  | _ => exact .inl rfl

theorem take_cases (h : s.take t turn = some s') : ∃ out, Takes t turn s s' out := by
  unfold Logging.take at h
  split at h
  · rename_i hagrees
    rcases Option.map_eq_some_iff.mp h with ⟨out, hturn, rfl⟩
    refine ⟨out, hagrees, hturn, rfl, ?_, ?_, rfl, rfl, ?_⟩
    · rcases receive_cases s t turn with hsame | ⟨id, record, -, -, hreceived⟩
      · rw [hsame]
        rfl
      · rw [hreceived]
        rfl
    · rcases receive_cases s t turn with hsame | ⟨id, record, -, -, hreceived⟩
      · rw [hsame]
        rfl
      · rw [hreceived]
        rfl
    · rcases receive_cases s t turn with hsame | ⟨id, record, -, -, hreceived⟩
      · rw [hsame]
        exact ⟨[], rfl, fun e he => absurd he List.not_mem_nil⟩
      · rw [hreceived]
        exact ⟨[.received id record], rfl, fun e he => ⟨id, record, List.mem_singleton.mp he⟩⟩
  · cases h

namespace Quiet

theorem refl (s : Logging) : Quiet s s :=
  ⟨rfl, fun _ => rfl, [], rfl, fun _ he => absurd he List.not_mem_nil⟩

theorem sequence_setService {service : Service} {value : LoggerService}
    (hsequence : value.sequence = (s.services service).sequence) (other : Service) :
    ((s.setService service value).services other).sequence = (s.services other).sequence := by
  by_cases hother : other = service
  · subst hother
    exact (congrArg LoggerService.sequence (Function.update_self ..)).trans hsequence
  · exact congrArg LoggerService.sequence (Function.update_of_ne hother ..)

/-- A change of one service apart from its records. -/
theorem of_service (service : Service) (value : LoggerService) (event : Event)
    (hthreads : s'.threads = s.threads)
    (hservices : s'.services = Function.update s.services service value)
    (hsequence : value.sequence = (s.services service).sequence)
    (htrace : s'.trace = event :: s.trace) (haside : event.Aside) : Quiet s s' := by
  refine ⟨hthreads, fun other => ?_, [event], htrace, fun e he => ?_⟩
  · rw [hservices]
    exact sequence_setService hsequence other
  · rw [List.mem_singleton.mp he]
    exact haside

theorem removeExporter (s : Logging) (service : Service) (key : Nat) :
    Quiet s (s.removeExporter service key) :=
  .of_service service { s.services service with
    exporters := ((s.services service).exporters.remove key).1 } _ rfl rfl rfl rfl trivial

theorem reserveExporter (s : Logging) (service : Service) (exporter : Exporter) :
    Quiet s (s.reserveExporter service exporter) := by
  cases hkey : checkedSuccessor (s.services service).exporters.sequence with
  | none =>
      simp only [Logging.reserveExporter, hkey]
      exact refl s
  | some key =>
      simp only [Logging.reserveExporter, hkey]
      exact ⟨rfl, sequence_setService rfl, [], rfl, fun e he => absurd he List.not_mem_nil⟩

end Quiet

/-- A record is assigned, a thread takes a turn, or nothing happens to any record. -/
theorem step_cases {a : Action} (h : logging.step s a = some s') :
    (∃ t logger frame, Logs t logger s s' frame) ∨ (∃ t turn out, Takes t turn s s' out) ∨
      Quiet s s' := by
  cases a with
  | log t logger level timestamp =>
      simp only [logging] at h
      split at h
      · cases h
        -- a service whose counter has run out assigns nothing
        rcases log_cases (s := s) (t := t) logger level timestamp with hsame | ⟨frame, hlogs⟩
        · rw [hsame]
          exact .inr (.inr (.refl s))
        · exact .inl ⟨t, logger, frame, hlogs⟩
      · cases h
  | take t turn => exact .inr (.inl ⟨t, turn, take_cases h⟩)
  | newBuffer capacity minLevel =>
      refine .inr (.inr ?_)
      simp only [logging] at h
      split at h
      · cases h
        exact ⟨rfl, fun _ => rfl, [], rfl, fun e he => absurd he List.not_mem_nil⟩
      · cases h
        exact .refl s
  | clear id =>
      cases h
      exact .inr (.inr ⟨rfl, fun _ => rfl, [.cleared id], rfl, fun e he =>
        List.mem_singleton.mp he ▸ trivial⟩)
  | forward id record =>
      refine .inr (.inr ?_)
      simp only [logging] at h
      split at h
      · cases h
        exact ⟨rfl, fun _ => rfl, [.forwarded id record], rfl, fun e he =>
          List.mem_singleton.mp he ▸ trivial⟩
      · cases h
  | reserve service exporter =>
      refine .inr (.inr ?_)
      simp only [logging] at h
      split at h
      · split at h
        · cases h
          exact .reserveExporter s _ _
        · cases h
      · cases h
        exact .reserveExporter s _ _
  | publish r =>
      refine .inr (.inr ?_)
      simp only [logging] at h
      split at h
      · cases h
        exact .of_service r.service { s.services r.service with
          exporters := (s.services r.service).exporters.insert r.occurrence } _ rfl rfl rfl rfl trivial
      · cases h
  | refuse r =>
      refine .inr (.inr ?_)
      simp only [logging] at h
      split at h
      · cases h
        exact ⟨rfl, fun _ => rfl, [], rfl, fun e he => absurd he List.not_mem_nil⟩
      · cases h
  | remove service key =>
      refine .inr (.inr ?_)
      simp only [logging] at h
      split at h
      · cases h
        have hquiet := Quiet.removeExporter { s with controls := s.controls.erase (service, key) } service key
        exact ⟨hquiet.threads, hquiet.sequences, hquiet.trace⟩
      · cases h
  | cleanup service key =>
      refine .inr (.inr ?_)
      simp only [logging] at h
      split at h
      · cases h
        have hquiet := Quiet.removeExporter { s with cleanups := s.cleanups.erase (service, key) } service key
        exact ⟨hquiet.threads, hquiet.sequences, hquiet.trace⟩
      · cases h

/-! ## Threads -/

variable {ok : Logging → Action → Prop}

theorem forall_update {P : Thread → Prop} {threads : ThreadId → Thread} {thread : Thread}
    (h : ∀ u, P (threads u)) (hthread : P thread) (u : ThreadId) :
    P (Function.update threads t thread u) := by
  by_cases hu : u = t
  · subst hu
    rwa [Function.update_self]
  · rw [Function.update_of_ne hu]
    exact h u

theorem threads_sound (h : logging.Reachable ok s) : ∀ t, (s.threads t).Sound := by
  refine h.invariant (I := fun s => ∀ t, (s.threads t).Sound) (fun _ => .idle)
    fun {s a s'} _ ih _ hstep => ?_
  rcases step_cases hstep with ⟨t, logger, frame, hlogs⟩ | ⟨t, turn, out, htakes⟩ | hquiet
  · rw [hlogs.threads]
    rcases hlogs.opens with ⟨timestamp, level, rfl⟩
    refine forall_update ih ((ih t).push trivial (fun service hservice => ?_) (ih t).callbacks)
    cases hservice
  · rw [htakes.threads]
    exact forall_update ih ((ih t).moves (Thread.turn_moves htakes.turns))
  · rw [hquiet.threads]
    exact ih

/-! ## Records -/

structure RecordId where
  service : Service
  sequence : Nat
  deriving DecidableEq

def Frame.id : Frame → RecordId
  | rendering service sequence .. => ⟨service, sequence⟩
  | ready service record => ⟨service, record.sequence⟩
  | dispatching d => ⟨d.service, d.record.sequence⟩

/-- The records that a thread is busy with, innermost first. -/
def Thread.ids (thread : Thread) : List RecordId :=
  thread.frames.map Frame.id

/-- The record whose way ends here. -/
def Event.fate? : Event → Option RecordId
  | lost _ service sequence => some ⟨service, sequence⟩
  | suppressed _ service record _ => some ⟨service, record.sequence⟩
  | completed _ service record _ => some ⟨service, record.sequence⟩
  | _ => none

/-- The records that are done with, the latest first. -/
def fates (trace : List Event) : List RecordId :=
  trace.filterMap Event.fate?

/-- The sequence number was assigned by the service. -/
def Logging.Assigned (s : Logging) (id : RecordId) : Prop :=
  0 < id.sequence ∧ id.sequence ≤ (s.services id.service).sequence

@[simp] theorem fates_append (later earlier : List Event) :
    fates (later ++ earlier) = fates later ++ fates earlier :=
  List.filterMap_append

theorem fates_eq_nil {events : List Event} (h : ∀ e ∈ events, e.fate? = none) :
    fates events = [] :=
  List.filterMap_eq_nil_iff.mpr h

theorem Event.Aside.fate? {e : Event} (h : e.Aside) : e.fate? = none := by
  cases e <;> first | rfl | exact absurd h id

/-- A turn keeps the records of its thread, or ends the way of the innermost. -/
theorem Moves.ids {thread : Thread} {out : Outcome} (h : Moves t thread out) :
    out.thread.ids = thread.ids ∧ fates out.events = [] ∨
      ∃ id, thread.ids = id :: out.thread.ids ∧ fates out.events = [id] := by
  cases h with
  | suppress lines inside => exact .inr ⟨_, rfl, rfl⟩
  | lose => exact .inr ⟨_, rfl, rfl⟩
  | complete phase rest => exact .inr ⟨_, rfl, rfl⟩
  | _ => exact .inl ⟨rfl, rfl⟩

theorem ids_update (threads : ThreadId → Thread) (thread : Thread) :
    (fun u => (Function.update threads t thread u).ids) =
      Function.update (fun u => (threads u).ids) t thread.ids := by
  funext u
  by_cases hu : u = t
  · subst hu
    simp
  · simp [hu]

theorem Takes.fates {out : Outcome} (h : Takes t turn s s' out) :
    fates s'.trace = fates out.events ++ fates s.trace := by
  rcases h.trace with ⟨received, htrace, hreceived⟩
  have hnil : Logger.fates received = [] := fates_eq_nil fun e he => by
    rcases hreceived e he with ⟨id, record, rfl⟩
    rfl
  rw [htrace, fates_append, fates_append, hnil, List.nil_append]

/-- Every assigned record is on one thread, once, or its way ended, once. -/
theorem accounted (h : logging.Reachable ok s) :
    Accounted s.Assigned (fun t => (s.threads t).ids) (fates s.trace) := by
  refine h.invariant
    (I := fun s => Accounted s.Assigned (fun t => (s.threads t).ids) (fates s.trace))
    ?_ fun {s a s'} _ ih _ hstep => ?_
  · refine Accounted.empty.congr fun id => ⟨fun hid => ?_, False.elim⟩
    exact absurd (hid.1.trans_le hid.2) (Nat.lt_irrefl 0)
  · rcases step_cases hstep with ⟨t, logger, frame, hlogs⟩ | ⟨t, turn, out, htakes⟩ | hquiet
    · rcases hlogs.opens with ⟨timestamp, level, hframe⟩
      have hheld : (fun u => (s'.threads u).ids) =
          Function.update (fun u => (s.threads u).ids) t
            (⟨logger.service, (s.services logger.service).sequence + 1⟩ :: (s.threads t).ids) := by
        rw [hlogs.threads, ids_update, hframe]
        rfl
      have hfates : fates s'.trace = fates s.trace := by
        rw [hlogs.trace]
        rfl
      rw [hheld, hfates]
      refine ih.issue t [⟨logger.service, (s.services logger.service).sequence + 1⟩]
        (List.nodup_singleton _) (fun id hid hassigned => ?_) fun id => ?_
      · rw [List.mem_singleton.mp hid] at hassigned
        exact absurd hassigned.2 (Nat.not_succ_le_self _)
      · simp only [Logging.Assigned, hlogs.services, List.mem_singleton]
        rcases id with ⟨service, sequence⟩
        by_cases hservice : service = logger.service
        · subst hservice
          simp only [Function.update_self, RecordId.mk.injEq, true_and]
          omega
        · simp [hservice]
    · have hassigned : ∀ id, s'.Assigned id ↔ s.Assigned id := fun id => by
        rw [Logging.Assigned, htakes.services]
        rfl
      have hheld : (fun u => (s'.threads u).ids) =
          Function.update (fun u => (s.threads u).ids) t out.thread.ids := by
        rw [htakes.threads, ids_update]
      refine Accounted.congr ?_ hassigned
      rw [hheld, htakes.fates]
      rcases (Thread.turn_moves htakes.turns).ids with ⟨hsame, hnone⟩ | ⟨id, htop, hone⟩
      · rw [hsame, hnone, Function.update_eq_self_iff.mpr rfl]
        exact ih
      · rw [hone]
        exact ih.close t (htop ▸ List.Perm.refl _)
    · refine (?_ : Accounted s.Assigned _ _).congr fun id => ?_
      · rcases hquiet.trace with ⟨events, htrace, haside⟩
        rw [hquiet.threads, htrace, fates_append, fates_eq_nil fun e he => (haside e he).fate?]
        exact ih
      · rw [Logging.Assigned, hquiet.sequences]
        rfl

/-! ## What the trace tells -/

/-- What a record of the trace says about the run before it. -/
def Event.Sound (trace : List Event) : Event → Prop
  | suppressed _ service _ within => service ∈ within
  | snapshot _ service _ within _ => service ∉ within
  | completed t service record attempts => ∃ within,
      .snapshot t service record within (attempts.map Attempt.occurrence) ∈ trace ∧
        ∀ a ∈ attempts, a.Lawful record
  | _ => True

theorem Event.Sound.mono {trace trace' : List Event} {e : Event} (h : e.Sound trace)
    (hsub : trace ⊆ trace') : e.Sound trace' := by
  cases e with
  | completed t service record attempts =>
      rcases h with ⟨within, hsnapshot, hlawful⟩
      exact ⟨within, hsub hsnapshot, hlawful⟩
  | _ => exact h

/-- Every dispatch goes through a snapshot that was taken for its record. -/
def Thread.Snapped (t : ThreadId) (trace : List Event) (thread : Thread) : Prop :=
  ∀ d, .dispatching d ∈ thread.frames →
    ∃ within, .snapshot t d.service d.record within d.snapshot ∈ trace

theorem Thread.Snapped.mono {trace trace' : List Event} {thread : Thread}
    (h : thread.Snapped t trace) (hsub : trace ⊆ trace') : thread.Snapped t trace' := by
  intro d hd
  rcases h d hd with ⟨within, hsnapshot⟩
  exact ⟨within, hsub hsnapshot⟩

theorem Thread.Snapped.below {trace : List Event} {frame : Frame} {below : List Frame}
    {callbacks callbacks' : List Service} (h : Thread.Snapped t trace ⟨frame :: below, callbacks⟩) :
    Thread.Snapped t trace ⟨below, callbacks'⟩ :=
  fun d hd => h d (List.mem_cons_of_mem _ hd)

/-- A dispatch that goes on keeps its record and its snapshot. -/
theorem Thread.Snapped.goes_on {trace : List Event} {d d' : Dispatch} {below : List Frame}
    {callbacks callbacks' : List Service}
    (h : Thread.Snapped t trace ⟨.dispatching d :: below, callbacks⟩)
    (hservice : d'.service = d.service) (hrecord : d'.record = d.record)
    (hsnapshot : d'.snapshot = d.snapshot) :
    Thread.Snapped t trace ⟨.dispatching d' :: below, callbacks'⟩ := by
  intro e he
  rcases List.mem_cons.mp he with he | he
  · cases he
    rw [hservice, hrecord, hsnapshot]
    exact h d List.mem_cons_self
  · exact h e (List.mem_cons_of_mem _ he)

theorem Moves.snapped {thread : Thread} {out : Outcome} {trace : List Event} (h : Moves t thread out)
    (hsound : thread.Sound) (hsnapped : thread.Snapped t trace) :
    out.thread.Snapped t (out.events ++ trace) ∧ ∀ e ∈ out.events, e.Sound (out.events ++ trace) := by
  cases h with
  | suppress lines inside =>
      refine ⟨hsnapped.below.mono (List.subset_cons_self ..), fun e he => ?_⟩
      cases List.mem_singleton.mp he
      have hcallbacks : _ = List.filterMap Frame.callback? _ := (hsound.pop rfl).callbacks
      exact hcallbacks ▸ inside
  | pass outside =>
      refine ⟨fun d hd => ?_, fun e he => absurd he List.not_mem_nil⟩
      rcases List.mem_cons.mp hd with hd | hd
      · cases hd
      · exact hsnapped d (List.mem_cons_of_mem _ hd)
  | lose =>
      refine ⟨hsnapped.below.mono (List.subset_cons_self ..), fun e he => ?_⟩
      cases List.mem_singleton.mp he
      trivial
  | snapshot occurrences =>
      refine ⟨fun d hd => ?_, fun e he => ?_⟩
      · rcases List.mem_cons.mp hd with hd | hd
        · cases hd
          exact ⟨_, List.mem_cons_self⟩
        · rcases hsnapped d (List.mem_cons_of_mem _ hd) with ⟨within, hmem⟩
          exact ⟨within, List.mem_cons_of_mem _ hmem⟩
      · cases List.mem_singleton.mp he
        exact hsound.outside rfl
  | @complete d below callbacks phase rest =>
      refine ⟨hsnapped.below.mono (List.subset_cons_self ..), fun e he => ?_⟩
      cases List.mem_singleton.mp he
      have hd : d.Sound := hsound.top
      rcases hsnapped d List.mem_cons_self with ⟨within, hmem⟩
      have hsnapshot := hd.snapshot
      rw [phase, rest] at hsnapshot
      simp only [Phase.current, List.append_nil] at hsnapshot
      exact ⟨within, List.mem_cons_of_mem _ (hsnapshot ▸ hmem), hd.attempts⟩
  | enter phase head =>
      exact ⟨hsnapped.goes_on rfl rfl rfl, fun e he => absurd he List.not_mem_nil⟩
  | answer phase same sound =>
      exact ⟨hsnapped.goes_on rfl rfl rfl, fun e he => absurd he List.not_mem_nil⟩
  | leave lines phase same sound =>
      exact ⟨hsnapped.goes_on rfl rfl rfl, fun e he => absurd he List.not_mem_nil⟩
  | drop lines phase =>
      exact ⟨hsnapped.goes_on rfl rfl rfl, fun e he => absurd he List.not_mem_nil⟩

theorem Event.Aside.sound {e : Event} (h : e.Aside) (trace : List Event) : e.Sound trace := by
  cases e <;> first | exact absurd h id | trivial

/-- Every record of the trace is sound, and every dispatch has its snapshot there. -/
structure Logging.Told (s : Logging) : Prop where
  threads : ∀ t, (s.threads t).Snapped t s.trace
  events : ∀ e ∈ s.trace, e.Sound s.trace

/-- Events that are sound in the new trace extend a sound trace. -/
theorem Logging.Told.extend (events : List Event) (h : s.Told) (htrace : s'.trace = events ++ s.trace)
    (hevents : ∀ e ∈ events, e.Sound s'.trace) : ∀ e ∈ s'.trace, e.Sound s'.trace := by
  intro e he
  rcases List.mem_append.mp (htrace ▸ he) with he | he
  · exact hevents e he
  · exact (h.events e he).mono (htrace ▸ List.subset_append_right _ _)

theorem told (h : logging.Reachable ok s) : s.Told := by
  refine h.invariant ⟨fun _ _ hd => absurd hd List.not_mem_nil, fun _ he => absurd he List.not_mem_nil⟩
    fun {s a s'} hreach ih _ hstep => ?_
  rcases step_cases hstep with ⟨t, logger, frame, hlogs⟩ | ⟨t, turn, out, htakes⟩ | hquiet
  · have hsub : s.trace ⊆ s'.trace := hlogs.trace ▸ List.subset_cons_self ..
    refine ⟨fun u => ?_, ih.extend [_] hlogs.trace fun e he => ?_⟩
    · rw [hlogs.threads]
      by_cases hu : u = t
      · subst hu
        rw [Function.update_self]
        intro d hd
        rcases hlogs.opens with ⟨timestamp, level, rfl⟩
        rcases List.mem_cons.mp hd with hd | hd
        · cases hd
        · exact (ih.threads u).mono hsub d hd
      · rw [Function.update_of_ne hu]
        exact (ih.threads u).mono hsub
    · cases List.mem_singleton.mp he
      trivial
  · rcases htakes.trace with ⟨received, htrace, hreceived⟩
    have hsub : s.trace ⊆ received ++ s.trace := List.subset_append_right _ _
    rcases (Thread.turn_moves htakes.turns).snapped (threads_sound hreach t)
      ((ih.threads t).mono hsub) with ⟨hsnapped, hsound⟩
    rw [← htrace] at hsnapped hsound
    refine ⟨fun u => ?_, ih.extend _ ((htrace.trans (List.append_assoc ..).symm)) fun e he => ?_⟩
    · rw [htakes.threads]
      by_cases hu : u = t
      · subst hu
        rwa [Function.update_self]
      · rw [Function.update_of_ne hu]
        exact (ih.threads u).mono (htrace ▸ List.Subset.trans hsub (List.subset_append_right _ _))
    · rcases List.mem_append.mp he with he | he
      · exact hsound e he
      · rcases hreceived e he with ⟨id, record, rfl⟩
        trivial
  · rcases hquiet.trace with ⟨events, htrace, haside⟩
    refine ⟨fun u => ?_, ih.extend events htrace fun e he => (haside e he).sound _⟩
    rw [hquiet.threads]
    exact (ih.threads u).mono (htrace ▸ List.subset_append_right _ _)

/-! ## Delivery -/

/-- Every record has one place, and every dispatch goes through its own snapshot. -/
structure Logging.Delivered (s : Logging) : Prop where
  /-- An assigned sequence number is on one thread, once, or its way ended, once. -/
  accounted : Accounted s.Assigned (fun t => (s.threads t).ids) (fates s.trace)
  /-- A dispatch has attempted an initial part of its snapshot, in order. -/
  dispatches : ∀ t d, .dispatching d ∈ (s.threads t).frames → d.Sound
  /-- A completed dispatch attempted exactly the snapshot that was taken for its record. -/
  completed : ∀ t service record attempts, .completed t service record attempts ∈ s.trace →
    ∃ within, .snapshot t service record within (attempts.map Attempt.occurrence) ∈ s.trace ∧
      ∀ a ∈ attempts, a.Lawful record

/-- Suppression is what the callback stack says it is. -/
structure Logging.Guarded (s : Logging) : Prop where
  /-- The stack is the callbacks that the calls of the thread are in, each service once. -/
  stack : ∀ t, (s.threads t).callbacks = (s.threads t).within ∧ (s.threads t).callbacks.Nodup
  /-- The guard of a callback pops its own service. -/
  pops : ∀ t d c a below, (s.threads t).frames = .dispatching d :: below → d.phase = .calling c a →
    (s.threads t).callbacks.head? = some d.service
  suppressed : ∀ t service record within, .suppressed t service record within ∈ s.trace →
    service ∈ within
  dispatched : ∀ t service record within occurrences,
    .snapshot t service record within occurrences ∈ s.trace → service ∉ within

/-- An exporter that logs from its callback, removes itself and panics, before a buffer. -/
def selfRemoval : List Action :=
  let noisy : Occurrence Exporter := ⟨1, .custom 7⟩
  let quiet : Occurrence Exporter := ⟨2, .buffer 0⟩
  [.newBuffer 1 .info, .reserve 0 (.custom 7), .publish ⟨0, noisy⟩, .reserve 0 (.buffer 0),
    .publish ⟨0, quiet⟩, .log 0 ⟨"app", 0⟩ .warn 5, .take 0 (.render "late"),
    .take 0 (.snapshot [noisy, quiet]), .take 0 .next, .take 0 (.minLevel none),
    .take 0 (.defaultLevel .info), .log 0 ⟨"app", 0⟩ .error 6, .take 0 (.render "again"),
    .remove 0 1, .take 0 (.panic "boom"), .take 0 (.dropped none), .take 0 .next,
    .take 0 (.minLevel none), .take 0 (.defaultLevel .info), .take 0 .exported,
    .take 0 (.dropped none), .take 0 .next]

theorem selfRemoval_enabled :
    (logging.run (fun _ _ => true) selfRemoval logging.init).isSome = true := by
  decide +kernel

theorem reachable_selfRemoval :
    logging.Reachable Automaton.anyRun (logging.after (fun _ _ => true) selfRemoval selfRemoval_enabled) :=
  Automaton.reachable_after (fun _ _ _ => trivial) selfRemoval _

/-- Whatever callbacks, renderings and destructors do. -/
theorem delivered_of_reachable (h : logging.Reachable Automaton.anyRun s) : s.Delivered where
  accounted := accounted h
  dispatches t d hd := (threads_sound h t).frames (.dispatching d) hd
  completed _ _ _ _ hmem := (told h).events _ hmem

theorem delivered_selfRemoval :
    (logging.after (fun _ _ => true) selfRemoval selfRemoval_enabled).Delivered :=
  delivered_of_reachable reachable_selfRemoval

/-- A record is suppressed where its own thread is inside a callback of its service, and it is
dispatched only where it is not. -/
theorem guarded_of_reachable (h : logging.Reachable Automaton.anyRun s) : s.Guarded where
  stack t := ⟨(threads_sound h t).callbacks, (threads_sound h t).nodup⟩
  pops t d c a below hframes hphase := by
    have hsound := threads_sound h t
    rcases hthread : s.threads t with ⟨frames, callbacks⟩
    rw [hthread] at hsound hframes
    cases hframes
    exact hsound.popped hphase
  suppressed _ _ _ _ hmem := (told h).events _ hmem
  dispatched _ _ _ _ _ hmem := (told h).events _ hmem

theorem guarded_selfRemoval :
    (logging.after (fun _ _ => true) selfRemoval selfRemoval_enabled).Guarded :=
  guarded_of_reachable reachable_selfRemoval

end Logger
end CordisCore
