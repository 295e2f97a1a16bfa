import CordisCore.Logger.Stores

/-!
# Buffers — what a bounded exporter retains
-/

namespace CordisCore
namespace Logger

open Interleaving Fanout

variable {s s' : Logging} {t : ThreadId} {turn : Turn} {out : Outcome} {d : Dispatch}
  {below : List Frame} {callbacks : List Service} {ok : Logging → Action → Prop}

/-! ## Receipts -/

/-- The records that a buffer received since it was cleared, oldest first, whoever called it. -/
def receipts (id : BufferId) : List Event → List LogRecord
  | [] => []
  | .received other record :: earlier | .forwarded other record :: earlier =>
      if other = id then receipts id earlier ++ [record] else receipts id earlier
  | .cleared other :: earlier => if other = id then [] else receipts id earlier
  | _ :: earlier => receipts id earlier

/-- One more receipt: the latest `capacity` of them stay. -/
theorem BufferExporter.exportRecord_rtake {b : BufferExporter} {received : List LogRecord}
    (h : b.buffer = received.rtake b.capacity) (record : LogRecord) :
    (b.exportRecord record).buffer = (received ++ [record]).rtake b.capacity := by
  have hnonzero := b.nonzero
  simp only [BufferExporter.exportRecord]
  rw [h]
  by_cases hfull : b.capacity ≤ received.length
  · have hlength : (received.rtake b.capacity).length = b.capacity := by
      rw [List.rtake, List.length_drop]
      omega
    have hdrop : received.length + 1 - b.capacity = received.length - b.capacity + 1 := by omega
    rw [if_pos hlength, List.rtake, List.rtake, List.tail_drop, List.length_append,
      List.length_singleton, hdrop, List.drop_append_of_le_length (by omega)]
  · have hshort : received.length - b.capacity = 0 := by omega
    have hshort' : received.length + 1 - b.capacity = 0 := by omega
    have hlength : (received.rtake b.capacity).length ≠ b.capacity := by
      rw [List.rtake, List.length_drop]
      omega
    rw [if_neg hlength, List.rtake, List.rtake, List.length_append, List.length_singleton, hshort,
      hshort', List.drop_zero, List.drop_zero]

/-- The buffer took the record. -/
inductive Event.Takes (id : BufferId) (record : LogRecord) : Event → Prop where
  | received : Takes id record (.received id record)
  | forwarded : Takes id record (.forwarded id record)

theorem receipts_eq_nil {id : BufferId} {trace : List Event}
    (h : ∀ e ∈ trace, ∀ record, ¬ e.Takes id record) : receipts id trace = [] := by
  induction trace with
  | nil => rfl
  | cons e earlier ih =>
      have hearlier := ih fun e he => h e (List.mem_cons_of_mem _ he)
      have hhead := h e List.mem_cons_self
      cases e with
      | received other record =>
          have hother : other ≠ id := fun heq => hhead record (heq ▸ .received)
          simp only [receipts, if_neg hother]
          exact hearlier
      | forwarded other record =>
          have hother : other ≠ id := fun heq => hhead record (heq ▸ .forwarded)
          simp only [receipts, if_neg hother]
          exact hearlier
      | cleared other =>
          simp only [receipts]
          split
          · rfl
          · exact hearlier
      | _ => exact hearlier

/-- Nothing is received or cleared. -/
theorem receipts_append {id : BufferId} {events trace : List Event}
    (h : ∀ e ∈ events, ∀ trace, receipts id (e :: trace) = receipts id trace) :
    receipts id (events ++ trace) = receipts id trace := by
  induction events with
  | nil => rfl
  | cons e events ih =>
      rw [List.cons_append, h e List.mem_cons_self]
      exact ih fun e he => h e (List.mem_cons_of_mem _ he)

/-! ## Dispatches to buffers -/

/-- The buffers are there, with their levels and sizes. -/
def Grows (buffers buffers' : List BufferExporter) : Prop :=
  ∀ (id : BufferId) (b : BufferExporter), buffers[id]? = some b →
    ∃ b' : BufferExporter, buffers'[id]? = some b' ∧ b'.minLevel = b.minLevel ∧ b'.capacity = b.capacity

theorem Grows.refl (buffers : List BufferExporter) : Grows buffers buffers :=
  fun _ b h => ⟨b, h, rfl, rfl⟩

theorem Grows.modify {change : BufferExporter → BufferExporter} (buffers : List BufferExporter)
    (id : BufferId) (hlevel : ∀ b, (change b).minLevel = b.minLevel)
    (hcapacity : ∀ b, (change b).capacity = b.capacity) :
    Grows buffers (buffers.modify id change) := by
  intro other b hb
  rw [List.getElem?_modify, hb]
  by_cases hother : id = other
  · exact ⟨change b, by simp [hother], hlevel b, hcapacity b⟩
  · exact ⟨b, by simp [hother], rfl, rfl⟩

/-- A record in a buffer passed the level of the buffer; every export to a buffer is received. -/
structure Dispatch.Kept (buffers : List BufferExporter) (trace : List Event) (d : Dispatch) :
    Prop where
  exporting : ∀ a id, d.phase = .calling .exporting a → a.occurrence.payload = .buffer id →
    ∃ b, buffers[id]? = some b ∧ b.minLevel ≤ d.record.level
  dropping : ∀ a id, d.phase = .dropping a → a.exported = true →
    a.occurrence.payload = .buffer id → .received id d.record ∈ trace
  attempts : ∀ a ∈ d.attempts, ∀ id, a.exported = true → a.occurrence.payload = .buffer id →
    .received id d.record ∈ trace

theorem Dispatch.Kept.mono {buffers buffers' : List BufferExporter} {trace trace' : List Event}
    (h : d.Kept buffers trace) (hgrows : Grows buffers buffers') (hsub : trace ⊆ trace') :
    d.Kept buffers' trace' := by
  refine ⟨fun a id hphase hpayload => ?_, fun a id hphase hexported hpayload =>
    hsub (h.dropping a id hphase hexported hpayload), fun a ha id hexported hpayload =>
    hsub (h.attempts a ha id hexported hpayload)⟩
  rcases h.exporting a id hphase hpayload with ⟨b, hb, hlevel⟩
  rcases hgrows id b hb with ⟨b', hb', hsame, -⟩
  exact ⟨b', hb', hsame ▸ hlevel⟩

/-- The exporter that is called keeps to its own methods. -/
theorem permits_of_calling {c : Callback} {a : Attempt}
    (hframes : (s.threads t).frames = .dispatching d :: below) (hphase : d.phase = .calling c a)
    (hagrees : s.agrees t turn = true) (hturn : ∀ occurrences, turn ≠ .snapshot occurrences) :
    s.permits a.occurrence.payload turn = true := by
  rcases d with ⟨service, record, snapshot, attempts, rest, phase⟩
  cases hphase
  have hexporter : s.exporter? t = some (a.occurrence.payload, record) := by
    simp only [Logging.exporter?, hframes]
  cases turn with
  | snapshot occurrences => exact absurd rfl (hturn occurrences)
  | _ => simpa [Logging.agrees, hexporter] using hagrees

section Turns

variable {buffers : List BufferExporter} {trace : List Event}

theorem Dispatch.filter_kept {a : Attempt} {level : Level} (h : d.Kept buffers trace)
    (unexported : a.exported = false) (hlevel : ∀ id, a.occurrence.payload = .buffer id →
      ∃ b, buffers[id]? = some b ∧ b.minLevel = level) :
    ∃ d', (d.filter level a below callbacks).frames = .dispatching d' :: below ∧
      d'.Kept buffers trace := by
  unfold Dispatch.filter
  split
  · rename_i hle
    refine ⟨_, rfl, fun b id hphase hpayload => ?_, fun b id hphase => ?_, h.attempts⟩
    · cases hphase
      rcases hlevel id hpayload with ⟨buffer, hbuffer, rfl⟩
      exact ⟨buffer, hbuffer, hle⟩
    · cases hphase
  · refine ⟨_, rfl, fun b id hphase => ?_, fun b id hphase hexported => ?_, h.attempts⟩
    · cases hphase
    · cases hphase
      rw [unexported] at hexported
      cases hexported

end Turns

theorem Dispatch.turn_kept {trace' : List Event} (hsound : d.Sound)
    (h : d.Kept s.buffers trace') (hframes : (s.threads t).frames = .dispatching d :: below)
    (hagrees : s.agrees t turn = true) (hturn : d.turn t below callbacks turn = some out)
    (hreceived : turn = .exported → ∀ a id, d.phase = .calling .exporting a →
      a.occurrence.payload = .buffer id → .received id d.record ∈ trace') :
    (out.thread.frames = below ∧ out.events = [.completed t d.service d.record d.attempts]) ∨
      out.events = [] ∧ ∃ d', out.thread.frames = .dispatching d' :: below ∧
        d'.Kept s.buffers trace' := by
  have hpermits : ∀ c a, d.phase = .calling c a → (∀ occurrences, turn ≠ .snapshot occurrences) →
      s.permits a.occurrence.payload turn = true := fun c a hphase hne =>
    permits_of_calling hframes hphase hagrees hne
  have hphases := hsound.phase
  cases turn with
  | next =>
      simp only [Dispatch.turn] at hturn
      split at hturn
      · cases hturn
        exact .inl ⟨rfl, rfl⟩
      · cases hturn
        refine .inr ⟨rfl, _, rfl, fun a id hphase => ?_, fun a id hphase => ?_, h.attempts⟩ <;>
          cases hphase
      · cases hturn
  | minLevel answer =>
      simp only [Dispatch.turn] at hturn
      split at hturn
      · rename_i a hphase
        rw [hphase] at hphases
        cases answer with
        | some level =>
            cases hturn
            refine .inr ⟨rfl, Dispatch.filter_kept h hphases.2.2 fun id hpayload => ?_⟩
            -- a buffer has no override
            have hnone := hpermits _ _ hphase (fun _ => by simp)
            rw [show a.occurrence.payload = .buffer id from hpayload] at hnone
            simp [Logging.permits] at hnone
        | none =>
            cases hturn
            refine .inr ⟨rfl, _, rfl, fun a id hphase => ?_, fun a id hphase => ?_, h.attempts⟩ <;>
              cases hphase
      · cases hturn
  | defaultLevel level =>
      simp only [Dispatch.turn] at hturn
      split at hturn
      · rename_i a hphase
        rw [hphase] at hphases
        cases hturn
        refine .inr ⟨rfl, Dispatch.filter_kept h hphases.2.2 fun id hpayload => ?_⟩
        have hany := hpermits _ _ hphase (fun _ => by simp)
        rw [show a.occurrence.payload = .buffer id from hpayload] at hany
        simp only [Logging.permits, Option.any_eq_true, decide_eq_true_eq] at hany
        exact hany
      · cases hturn
  | exported =>
      simp only [Dispatch.turn] at hturn
      split at hturn
      · rename_i a hphase
        cases hturn
        refine .inr ⟨rfl, _, rfl, fun b id hb => ?_, fun b id hb hexported hpayload => ?_,
          h.attempts⟩
        · cases hb
        · cases hb
          exact hreceived rfl a id hphase hpayload
      · cases hturn
  | panic diagnostic =>
      simp only [Dispatch.turn] at hturn
      split at hturn
      · rename_i c a hphase
        cases hturn
        refine .inr ⟨rfl, _, rfl, fun b id hb => ?_, fun b id hb hexported hpayload => ?_,
          h.attempts⟩
        · cases hb
        · cases hb
          -- a buffer does not panic
          have hfalse := hpermits _ _ hphase (fun _ => by simp)
          rw [hpayload] at hfalse
          cases hfalse
      · cases hturn
  | dropped panics =>
      simp only [Dispatch.turn] at hturn
      split at hturn
      · rename_i a hphase
        cases hturn
        refine .inr ⟨rfl, _, rfl, fun b id hb => ?_, fun b id hb => ?_,
          fun b hb id hexported hpayload => ?_⟩
        · cases hb
        · cases hb
        · rcases List.mem_append.mp hb with hb | hb
          · exact h.attempts b hb id hexported hpayload
          · cases List.mem_singleton.mp hb
            exact h.dropping a id hphase hexported hpayload
      · cases hturn
  | render text => cases hturn
  | unwindRender => cases hturn
  | snapshot occurrences => cases hturn

/-! ## Every run -/

/-- Every buffer retains the latest of what it took; what was dispatched to it had passed its level;
every export to a buffer was received. -/
structure Logging.Buffered (s : Logging) : Prop where
  retained : ∀ (id : BufferId) (b : BufferExporter), s.buffers[id]? = some b →
    b.buffer = (receipts id s.trace).rtake b.capacity
  levels : ∀ id record, .received id record ∈ s.trace →
    ∃ b, s.buffers[id]? = some b ∧ b.minLevel ≤ record.level
  forwarded : ∀ id record, .forwarded id record ∈ s.trace → id < s.buffers.length
  dispatches : ∀ t d, .dispatching d ∈ (s.threads t).frames → d.Kept s.buffers s.trace
  completed : ∀ t service record attempts, .completed t service record attempts ∈ s.trace →
    ∀ a ∈ attempts, ∀ id, a.exported = true → a.occurrence.payload = .buffer id →
      .received id record ∈ s.trace

/-- No buffer takes anything or is cleared. -/
def Event.Silent : Event → Prop
  | received _ _ | forwarded _ _ | cleared _ => False
  | _ => True

theorem Event.Silent.receipts {e : Event} (h : e.Silent) (id : BufferId) (trace : List Event) :
    Logger.receipts id (e :: trace) = Logger.receipts id trace := by
  cases e <;> first | rfl | exact False.elim h

namespace Logging.Buffered

/-- Silent events; completions and dispatches are looked after. -/
theorem extend (h : s.Buffered) (events : List Event) (hsilent : ∀ e ∈ events, e.Silent)
    (hbuffers : s'.buffers = s.buffers) (htrace : s'.trace = events ++ s.trace)
    (hdispatches : ∀ t d, .dispatching d ∈ (s'.threads t).frames → d.Kept s.buffers s'.trace)
    (hcompleted : ∀ t service record attempts, .completed t service record attempts ∈ events →
      ∀ a ∈ attempts, ∀ id, a.exported = true → a.occurrence.payload = .buffer id →
        .received id record ∈ s.trace) : s'.Buffered := by
  have hsub : s.trace ⊆ s'.trace := htrace ▸ List.subset_append_right _ _
  refine {
    retained := fun id b hb => ?retained
    levels := fun id record hmem => ?levels
    forwarded := fun id record hmem => ?forwarded
    dispatches := fun t d hd => ?dispatches
    completed := fun t service record attempts hmem a ha id hexported hpayload => ?completed }
  case retained =>
    rw [htrace, receipts_append fun e he trace => (hsilent e he).receipts id trace]
    exact h.retained id b (hbuffers ▸ hb)
  case levels =>
    rw [hbuffers]
    rcases List.mem_append.mp (htrace ▸ hmem) with hmem | hmem
    · exact False.elim (hsilent _ hmem)
    · exact h.levels id record hmem
  case forwarded =>
    rw [hbuffers]
    rcases List.mem_append.mp (htrace ▸ hmem) with hmem | hmem
    · exact False.elim (hsilent _ hmem)
    · exact h.forwarded id record hmem
  case dispatches =>
    rw [hbuffers]
    exact hdispatches t d hd
  case completed =>
    rcases List.mem_append.mp (htrace ▸ hmem) with hmem | hmem
    · exact hsub (hcompleted t service record attempts hmem a ha id hexported hpayload)
    · exact hsub (h.completed t service record attempts hmem a ha id hexported hpayload)

/-- Nothing is completed, and no dispatch is new. -/
theorem silent (h : s.Buffered) (events : List Event) (hsilent : ∀ e ∈ events, e.Silent)
    (hcompleted : ∀ t service record attempts, .completed t service record attempts ∉ events)
    (hbuffers : s'.buffers = s.buffers) (htrace : s'.trace = events ++ s.trace)
    (hthreads : ∀ t d, .dispatching d ∈ (s'.threads t).frames →
      .dispatching d ∈ (s.threads t).frames) : s'.Buffered :=
  h.extend events hsilent hbuffers htrace
    (fun t d hd => (h.dispatches t d (hthreads t d hd)).mono (.refl _)
      (htrace ▸ List.subset_append_right _ _))
    fun t service record attempts hmem => absurd hmem (hcompleted t service record attempts)

/-- Something happens to one buffer. -/
theorem touch (h : s.Buffered) {id : BufferId} {change : BufferExporter → BufferExporter}
    {e : Event} (hlevel : ∀ b, (change b).minLevel = b.minLevel)
    (hcapacity : ∀ b, (change b).capacity = b.capacity)
    (hretained : ∀ b, s.buffers[id]? = some b →
      (change b).buffer = (receipts id (e :: s.trace)).rtake b.capacity)
    (hothers : ∀ other, id ≠ other → receipts other (e :: s.trace) = receipts other s.trace)
    (hreceived : ∀ other record, e = .received other record →
      ∃ b, s.buffers[other]? = some b ∧ b.minLevel ≤ record.level)
    (hforwarded : ∀ other record, e = .forwarded other record → other < s.buffers.length)
    (hcompleted : ∀ t service record attempts, e ≠ .completed t service record attempts) :
    Logging.Buffered ({ s with buffers := s.buffers.modify id change }.emit [e]) := by
  have hgrows : Grows s.buffers (s.buffers.modify id change) := .modify _ id hlevel hcapacity
  refine {
    retained := fun other c hc => ?retained
    levels := fun other record hmem => ?levels
    forwarded := fun other record hmem => ?forwarded
    dispatches := fun t d hd => (h.dispatches t d hd).mono hgrows (List.subset_cons_self ..)
    completed := fun t service record attempts hmem a ha other hexported hpayload => ?completed }
  case retained =>
    simp only [Logging.emit, List.singleton_append] at hc ⊢
    by_cases hother : id = other
    · subst hother
      rw [List.getElem?_modify_eq] at hc
      rcases Option.map_eq_some_iff.mp hc with ⟨b, hb, rfl⟩
      rw [hcapacity]
      exact hretained b hb
    · rw [List.getElem?_modify_ne _ _ hother] at hc
      rw [hothers other hother]
      exact h.retained other c hc
  case levels =>
    have hold : ∃ c, s.buffers[other]? = some c ∧ c.minLevel ≤ record.level := by
      rcases List.mem_cons.mp hmem with heq | hmem
      · exact hreceived other record heq.symm
      · exact h.levels other record hmem
    rcases hold with ⟨c, hc, hle⟩
    rcases hgrows other c hc with ⟨c', hc', hsame, -⟩
    exact ⟨c', hc', hsame ▸ hle⟩
  case forwarded =>
    have hold : other < s.buffers.length := by
      rcases List.mem_cons.mp hmem with heq | hmem
      · exact hforwarded other record heq.symm
      · exact h.forwarded other record hmem
    simpa [Logging.emit] using hold
  case completed =>
    rcases List.mem_cons.mp hmem with heq | hmem
    · exact absurd heq.symm (hcompleted _ _ _ _)
    · exact List.mem_cons_of_mem _
        (h.completed t service record attempts hmem a ha other hexported hpayload)

/-- A buffer takes a record: one that passed its level, or one that user code passes on. -/
theorem exportRecord (h : s.Buffered) {id : BufferId} {record : LogRecord} {e : Event}
    (htakes : e.Takes id record)
    (hlevel : e = .received id record → ∃ b, s.buffers[id]? = some b ∧ b.minLevel ≤ record.level)
    (hthere : e = .forwarded id record → id < s.buffers.length) :
    Logging.Buffered
      ({ s with buffers := s.buffers.modify id fun b => b.exportRecord record }.emit [e]) := by
  have hreceipts : ∀ other, receipts other (e :: s.trace) =
      if id = other then receipts other s.trace ++ [record] else receipts other s.trace := by
    cases htakes <;> exact fun _ => rfl
  refine h.touch (fun _ => rfl) (fun _ => rfl) (fun b hb => ?_) (fun other hother => ?_) ?_ ?_ ?_
  · rw [hreceipts, if_pos rfl]
    exact BufferExporter.exportRecord_rtake (h.retained id b hb) record
  · rw [hreceipts, if_neg hother]
  · rintro other record' rfl
    cases htakes
    exact hlevel rfl
  · rintro other record' rfl
    cases htakes
    exact hthere rfl
  · rintro t service record' attempts rfl
    cases htakes

theorem clear (h : s.Buffered) (id : BufferId) :
    Logging.Buffered ({ s with buffers := s.buffers.modify id BufferExporter.clear }.emit
      [.cleared id]) := by
  refine h.touch (fun _ => rfl) (fun _ => rfl) (fun b _ => ?_) (fun other hother => if_neg hother)
    ?_ ?_ ?_
  · rw [receipts, if_pos rfl, List.rtake_nil]
    rfl
  · rintro _ _ ⟨⟩
  · rintro _ _ ⟨⟩
  · rintro _ _ _ _ ⟨⟩

/-- A new buffer is empty and has received nothing. -/
theorem create (h : s.Buffered) {b : BufferExporter} (hempty : b.buffer = []) :
    Logging.Buffered { s with buffers := s.buffers ++ [b] } := by
  have hgrows : Grows s.buffers (s.buffers ++ [b]) := fun id c hc =>
    ⟨c, List.getElem?_append_left (List.getElem?_eq_some_iff.mp hc).1 ▸ hc, rfl, rfl⟩
  refine ⟨fun id c hc => ?_, fun id record hmem => ?_, fun id record hmem => ?_, fun t d hd =>
    (h.dispatches t d hd).mono hgrows (List.Subset.refl _), h.completed⟩
  · rcases Nat.lt_or_ge id s.buffers.length with hlt | hge
    · exact h.retained id c (by simpa [List.getElem?_append_left hlt] using hc)
    · have hnil : receipts id s.trace = [] := by
        refine receipts_eq_nil fun e hmem record htakes => Nat.not_lt.mpr hge ?_
        cases htakes with
        | received =>
            rcases h.levels id record hmem with ⟨b, hb, -⟩
            exact (List.getElem?_eq_some_iff.mp hb).1
        | forwarded => exact h.forwarded id record hmem
      have hc : (s.buffers ++ [b])[id]? = some c := hc
      rw [List.getElem?_append_right hge] at hc
      have hcb : c = b := by
        cases hindex : id - s.buffers.length with
        | zero =>
            rw [hindex] at hc
            exact (Option.some.inj hc).symm
        | succ n =>
            rw [hindex] at hc
            cases hc
      rw [hnil, hcb, hempty, List.rtake_nil]
  · rcases h.levels id record hmem with ⟨c, hc, hle⟩
    rcases hgrows id c hc with ⟨c', hc', hsame, -⟩
    exact ⟨c', hc', hsame ▸ hle⟩
  · rw [List.length_append]
    exact Nat.lt_add_right _ (h.forwarded id record hmem)

end Logging.Buffered

/-- A turn that exports is the end of an export callback. -/
theorem Thread.turn_exported {thread : Thread} (h : thread.turn t .exported = some out) :
    ∃ d below a, thread.frames = .dispatching d :: below ∧ d.phase = .calling .exporting a := by
  rcases thread with ⟨frames, callbacks⟩
  cases frames with
  | nil => cases h
  | cons frame below =>
      cases frame with
      | rendering service sequence timestamp channel level => cases h
      | ready service record => cases h
      | dispatching d =>
          simp only [Thread.turn, Dispatch.turn] at h
          split at h
          · rename_i a hphase
            exact ⟨d, below, a, rfl, hphase⟩
          · cases h

theorem exporter?_calling {c : Callback} {a : Attempt}
    (hframes : (s.threads t).frames = .dispatching d :: below) (hphase : d.phase = .calling c a) :
    s.exporter? t = some (a.occurrence.payload, d.record) := by
  rcases d with ⟨service, record, snapshot, attempts, rest, phase⟩
  cases hphase
  simp only [Logging.exporter?, hframes]

namespace Logging.Buffered

/-- The state after a receipt, before the thread goes on. -/
theorem receive (h : s.Buffered) (hturn : (s.threads t).turn t turn = some out) :
    (s.receive t turn).Buffered := by
  rcases receive_cases s t turn with hsame | ⟨id, record, rfl, hexporter, hreceived⟩
  · rw [hsame]
    exact h
  · rcases Thread.turn_exported hturn with ⟨d, below, a, hframes, hphase⟩
    rw [exporter?_calling hframes hphase] at hexporter
    rcases Prod.mk.injEq .. ▸ Option.some.inj hexporter with ⟨hpayload, rfl⟩
    have hd := h.dispatches t d (hframes ▸ List.mem_cons_self)
    rw [hreceived]
    exact h.exportRecord .received (fun _ => hd.exporting a id hphase hpayload) (by rintro ⟨⟩)

theorem receive_grows (s : Logging) (t : ThreadId) (turn : Turn) :
    Grows s.buffers (s.receive t turn).buffers ∧ s.trace ⊆ (s.receive t turn).trace := by
  rcases receive_cases s t turn with hsame | ⟨id, record, -, -, hreceived⟩
  · rw [hsame]
    exact ⟨.refl _, List.Subset.refl _⟩
  · rw [hreceived]
    exact ⟨.modify _ id (fun _ => rfl) fun _ => rfl, List.subset_cons_self ..⟩

theorem takes (h : s.Buffered) (hsound : (s.threads t).Sound) (htakes : Takes t turn s s' out) :
    s'.Buffered := by
  have hmid := h.receive htakes.turns
  have hgrows := receive_grows s t turn
  have hbelow : ∀ u d, .dispatching d ∈ (s.threads u).frames →
      d.Kept (s.receive t turn).buffers s'.trace := fun u d hd =>
    (h.dispatches u d hd).mono hgrows.1
      (htakes.receives ▸ List.Subset.trans hgrows.2 (List.subset_append_right _ _))
  -- what is left to show is about the top of the stack
  have hrest : ∀ u d, .dispatching d ∈ (s'.threads u).frames →
      (∀ d', .dispatching d' ∈ out.thread.frames →
        d'.Kept (s.receive t turn).buffers s'.trace) →
      d.Kept (s.receive t turn).buffers s'.trace := fun u d hd hout => by
    rw [htakes.threads] at hd
    by_cases hu : u = t
    · subst hu
      rw [Function.update_self] at hd
      exact hout d hd
    · rw [Function.update_of_ne hu] at hd
      exact hbelow u d hd
  have hturns := htakes.turns
  rcases hthread : s.threads t with ⟨frames, callbacks⟩
  rw [hthread] at hturns hsound
  cases frames with
  | nil => cases turn <;> cases hturns
  | cons frame below =>
      have hmem : ∀ d, .dispatching d ∈ below → .dispatching d ∈ (s.threads t).frames :=
        fun d hd => hthread ▸ List.mem_cons_of_mem _ hd
      cases frame with
      | rendering service sequence timestamp channel level =>
          have hmoves := Thread.turn_moves hturns
          cases hmoves with
          | suppress lines inside =>
              refine hmid.extend _ ?_ htakes.buffers htakes.receives
                (fun u d hd => hrest u d hd fun d' hd' => hbelow t d' (hmem d' hd')) ?_
              · exact fun e he => List.mem_singleton.mp he ▸ trivial
              · exact fun _ _ _ _ he => absurd (List.mem_singleton.mp he) (by simp)
          | pass outside =>
              refine hmid.extend _ ?_ htakes.buffers htakes.receives
                (fun u d hd => hrest u d hd fun d' hd' => ?_) ?_
              · exact fun e he => absurd he List.not_mem_nil
              · rcases List.mem_cons.mp hd' with hd' | hd'
                · cases hd'
                · exact hbelow t d' (hmem d' hd')
              · exact fun _ _ _ _ he => absurd he List.not_mem_nil
          | lose =>
              refine hmid.extend _ ?_ htakes.buffers htakes.receives
                (fun u d hd => hrest u d hd fun d' hd' => hbelow t d' (hmem d' hd')) ?_
              · exact fun e he => List.mem_singleton.mp he ▸ trivial
              · exact fun _ _ _ _ he => absurd (List.mem_singleton.mp he) (by simp)
      | ready service record =>
          have hmoves := Thread.turn_moves hturns
          cases hmoves with
          | snapshot occurrences =>
              refine hmid.extend _ ?_ htakes.buffers htakes.receives
                (fun u d hd => hrest u d hd fun d' hd' => ?_) ?_
              · exact fun e he => List.mem_singleton.mp he ▸ trivial
              · rcases List.mem_cons.mp hd' with hd' | hd'
                · cases hd'
                  refine ⟨fun a id hphase => ?_, fun a id hphase => ?_, fun a ha => ?_⟩
                  · cases hphase
                  · cases hphase
                  · cases ha
                · exact hbelow t d' (hmem d' hd')
              · exact fun _ _ _ _ he => absurd (List.mem_singleton.mp he) (by simp)
      | dispatching d =>
          have hframes : (s.threads t).frames = .dispatching d :: below := by rw [hthread]
          have hd : d.Sound := hsound.top
          have hkept := h.dispatches t d (hframes ▸ List.mem_cons_self)
          have hreceived : turn = .exported → ∀ a id, d.phase = .calling .exporting a →
              a.occurrence.payload = .buffer id → .received id d.record ∈ s'.trace := by
            rintro rfl a id hphase hpayload
            rw [htakes.receives]
            refine List.mem_append_right _ ?_
            simp only [Logging.receive, exporter?_calling hframes hphase, hpayload]
            exact List.mem_cons_self
          have hsub : s.trace ⊆ s'.trace :=
            htakes.receives ▸ List.Subset.trans hgrows.2 (List.subset_append_right _ _)
          rcases Dispatch.turn_kept hd (hkept.mono (.refl _) hsub) hframes htakes.agrees hturns
            hreceived with ⟨hdone, hevents⟩ | ⟨hevents, d', hframe, hkept'⟩
          · refine hmid.extend _ ?_ htakes.buffers htakes.receives
              (fun u e he => hrest u e he fun e' he' => ?_) ?_
            · rw [hevents]
              exact fun e he => List.mem_singleton.mp he ▸ trivial
            · exact hbelow t e' (hmem e' (hdone ▸ he'))
            · rw [hevents]
              intro u service record attempts he a ha id hexported hpayload
              cases List.mem_singleton.mp he
              exact hgrows.2 (hkept.attempts a ha id hexported hpayload)
          · refine hmid.extend _ ?_ htakes.buffers htakes.receives
              (fun u e he => hrest u e he fun e' he' => ?_) ?_
            · rw [hevents]
              exact fun e he => absurd he List.not_mem_nil
            · rw [hframe] at he'
              rcases List.mem_cons.mp he' with he' | he'
              · cases he'
                exact hkept'.mono hgrows.1 (List.Subset.refl _)
              · exact hbelow t e' (hmem e' he')
            · rw [hevents]
              exact fun _ _ _ _ he => absurd he List.not_mem_nil

theorem congr (h : s.Buffered) (hbuffers : s'.buffers = s.buffers) (htrace : s'.trace = s.trace)
    (hthreads : s'.threads = s.threads) : s'.Buffered := by
  refine h.silent [] (fun e he => absurd he List.not_mem_nil)
    (fun _ _ _ _ => List.not_mem_nil) hbuffers htrace fun t d hd => ?_
  rwa [hthreads] at hd

/-- A store changes. -/
theorem store (h : s.Buffered) {service : Service} {change : Change Exporter}
    (hbuffers : s'.buffers = s.buffers) (htrace : s'.trace = .store service change :: s.trace)
    (hthreads : s'.threads = s.threads) : s'.Buffered := by
  refine h.silent [.store service change]
    (fun e he => List.mem_singleton.mp he ▸ trivial)
    (fun _ _ _ _ he => absurd (List.mem_singleton.mp he) (by simp)) hbuffers htrace fun t d hd => ?_
  rwa [hthreads] at hd

theorem reserveExporter (h : s.Buffered) (service : Service) (exporter : Exporter) :
    (s.reserveExporter service exporter).Buffered := by
  cases hkey : checkedSuccessor (s.services service).exporters.sequence with
  | none =>
      simp only [Logging.reserveExporter, hkey]
      exact h
  | some key =>
      simp only [Logging.reserveExporter, hkey]
      exact h.congr rfl rfl rfl

end Logging.Buffered

theorem BufferExporter.new_empty {capacity : Nat} {minLevel : Level} {b : BufferExporter}
    (h : BufferExporter.new capacity minLevel = .ok b) : b.buffer = [] := by
  unfold BufferExporter.new at h
  split at h
  · cases h
  · cases h
    rfl

theorem buffered (h : logging.Reachable ok s) : s.Buffered := by
  refine h.invariant (I := Logging.Buffered) ?_ fun {s a s'} hreach ih _ hstep => ?_
  · refine ⟨fun id b hb => ?_, fun _ _ he => absurd he List.not_mem_nil,
      fun _ _ he => absurd he List.not_mem_nil, fun _ _ hd => absurd hd List.not_mem_nil,
      fun _ _ _ _ he => absurd he List.not_mem_nil⟩
    cases hb
  cases a with
  | log t logger level timestamp =>
      simp only [logging] at hstep
      split at hstep
      · cases hstep
        rcases log_cases (s := s) (t := t) logger level timestamp with hsame | ⟨frame, hlogs⟩
        · rw [hsame]
          exact ih
        -- a call of log assigns a number and opens a frame: no buffer moves
        · refine ih.silent [.assigned t logger.service _]
            (fun e he => List.mem_singleton.mp he ▸ trivial)
            (fun _ _ _ _ he => absurd (List.mem_singleton.mp he) (by simp)) hlogs.buffers
            hlogs.trace fun u d hd => ?_
          rw [hlogs.threads] at hd
          by_cases hu : u = t
          · subst hu
            rw [Function.update_self] at hd
            rcases hlogs.opens with ⟨timestamp, level, rfl⟩
            rcases List.mem_cons.mp hd with hd | hd
            · cases hd
            · exact hd
          · rwa [Function.update_of_ne hu] at hd
      · cases hstep
  | take t turn =>
      rcases take_cases hstep with ⟨out, htakes⟩
      exact ih.takes (threads_sound hreach t) htakes
  | newBuffer capacity minLevel =>
      simp only [logging] at hstep
      split at hstep
      · rename_i b hnew
        cases hstep
        exact ih.create (BufferExporter.new_empty hnew)
      · cases hstep
        exact ih
  | clear id =>
      cases hstep
      exact ih.clear id
  | forward id record =>
      simp only [logging] at hstep
      split at hstep
      · rename_i hforward
        cases hstep
        -- a forwarded record goes through the threshold of the buffer like any other
        exact ih.exportRecord .forwarded (by rintro ⟨⟩) fun _ => hforward.1
      · cases hstep
  | reserve service exporter =>
      simp only [logging] at hstep
      split at hstep
      · split at hstep
        · cases hstep
          exact ih.reserveExporter service _
        · cases hstep
      · cases hstep
        exact ih.reserveExporter service _
  | publish r =>
      simp only [logging] at hstep
      split at hstep
      · cases hstep
        exact ih.store rfl rfl rfl
      · cases hstep
  | refuse r =>
      simp only [logging] at hstep
      split at hstep
      · cases hstep
        exact ih.congr rfl rfl rfl
      · cases hstep
  | remove service key =>
      simp only [logging] at hstep
      split at hstep
      · cases hstep
        exact ih.store rfl rfl rfl
      · cases hstep
  | cleanup service key =>
      simp only [logging] at hstep
      split at hstep
      · cases hstep
        exact ih.store rfl rfl rfl
      · cases hstep

/-- What the buffers of a state are. -/
structure Logging.Retained (s : Logging) : Prop where
  /-- The latest `capacity` of the records received since the buffer was cleared, in receipt order;
  everything that was ever dispatched to it had passed its level. -/
  buffers : ∀ (id : BufferId) (b : BufferExporter), s.buffers[id]? = some b →
    b.buffer = (receipts id s.trace).rtake b.capacity ∧
      ∀ record, .received id record ∈ s.trace → b.minLevel ≤ record.level
  /-- Every export to a buffer is a receipt. -/
  exports : ∀ t service record attempts, .completed t service record attempts ∈ s.trace →
    ∀ a ∈ attempts, ∀ id, a.exported = true → a.occurrence.payload = .buffer id →
      .received id record ∈ s.trace

theorem retained_of_reachable (h : logging.Reachable Automaton.anyRun s) : s.Retained where
  buffers id b hb := by
    refine ⟨(buffered h).retained id b hb, fun record hmem => ?_⟩
    rcases (buffered h).levels id record hmem with ⟨c, hc, hlevel⟩
    cases hb.symm.trans hc
    exact hlevel
  exports := (buffered h).completed

/-- A record goes to an exporter that lets everything pass and hands it on, then to a buffer. -/
def teed (sequence : Nat) (level : Level) (forwards : Bool) : List Action :=
  let record : LogRecord := { sequence, timestamp := 0, channel := "app", level, text := "seen" }
  [.log 0 ⟨"app", 0⟩ level 0, .take 0 (.render "seen"),
    .take 0 (.snapshot [⟨1, .custom 7⟩, ⟨2, .buffer 0⟩]), .take 0 .next,
    .take 0 (.minLevel (some .debug))] ++
    (if forwards then [.forward 0 record] else []) ++
    [.take 0 .exported, .take 0 (.dropped none), .take 0 .next, .take 0 (.minLevel none),
      .take 0 (.defaultLevel .error)] ++
    (if level = .error then [.take 0 .exported] else []) ++ [.take 0 (.dropped none), .take 0 .next]

/-- A full buffer evicts what was forwarded to it, is cleared and goes on. -/
def evictions : List Action :=
  [.newBuffer 2 .error, .reserve 0 (.custom 7), .publish ⟨0, ⟨1, .custom 7⟩⟩,
    .reserve 0 (.buffer 0), .publish ⟨0, ⟨2, .buffer 0⟩⟩] ++
    teed 1 .debug true ++ teed 2 .error false ++ teed 3 .error false ++ [.clear 0] ++
    teed 4 .error false ++ teed 5 .info true ++ teed 6 .error false

theorem evictions_enabled : (logging.run (fun _ _ => true) evictions logging.init).isSome = true := by
  decide +kernel

theorem retained_evictions :
    (logging.after (fun _ _ => true) evictions evictions_enabled).Retained ∧
      (logging.after (fun _ _ => true) evictions evictions_enabled).buffers.map
        (fun b => b.buffer.map LogRecord.sequence) = [[5, 6]] :=
  ⟨retained_of_reachable (Automaton.reachable_after (fun _ _ _ => trivial) evictions _),
    by decide +kernel⟩

end Logger
end CordisCore
