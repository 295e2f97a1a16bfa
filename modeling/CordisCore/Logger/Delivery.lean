import CordisCore.Logger.Dispatch
import CordisCore.Fanout.Tickets
import Mathlib.Data.List.DropRight

/-!
# Delivery — what becomes of every record, on every thread
-/

namespace CordisCore
namespace Logger

open Interleaving Fanout

/-! ## Attempts -/

namespace Attempt

/-- The override of the exporter, or else its default. -/
def threshold (a : Attempt) : Option Level :=
  match a.override with
  | some (some level) => some level
  | some none => a.fallback
  | none => none

/-- The default is asked only for want of an override; what reaches the threshold is exported. -/
structure Lawful (record : LogRecord) (a : Attempt) : Prop where
  asked : a.fallback ≠ none → a.override = some none
  exported : a.exported = true ↔ ∃ level, a.threshold = some level ∧ level ≤ record.level

end Attempt

/-- How far the current attempt is. -/
def Phase.Sound (record : LogRecord) : Phase → Prop
  | next => True
  | calling .minLevel a => a.override = none ∧ a.fallback = none ∧ a.exported = false
  | calling .defaultLevel a => a.override = some none ∧ a.fallback = none ∧ a.exported = false
  | calling .exporting a => a.Lawful record
  | dropping a => a.Lawful record

/-- The occurrence that is being attempted. -/
def Phase.current : Phase → List (Occurrence Exporter)
  | next => []
  | calling _ a | dropping a => [a.occurrence]

/-- A dispatch goes through its snapshot in order, one attempt each. -/
structure Dispatch.Sound (d : Dispatch) : Prop where
  snapshot : d.snapshot = d.attempts.map Attempt.occurrence ++ d.phase.current ++ d.rest
  attempts : ∀ a ∈ d.attempts, a.Lawful d.record
  phase : d.phase.Sound d.record

/-! ## Moves of one thread -/

/-- What a turn of a thread comes to. -/
inductive Moves (t : ThreadId) : Thread → Outcome → Prop where
  | suppress {service : Service} {sequence timestamp : Nat} {channel text : String} {level : Level}
      {below : List Frame} {callbacks : List Service} (lines : List String)
      (inside : service ∈ callbacks) :
      Moves t ⟨.rendering service sequence timestamp channel level :: below, callbacks⟩
        ⟨⟨below, callbacks⟩,
          [.suppressed t service { sequence, timestamp, channel, level, text }
            (below.filterMap Frame.callback?)], lines⟩
  | pass {service : Service} {sequence timestamp : Nat} {channel text : String} {level : Level}
      {below : List Frame} {callbacks : List Service} (outside : service ∉ callbacks) :
      Moves t ⟨.rendering service sequence timestamp channel level :: below, callbacks⟩
        ⟨⟨.ready service { sequence, timestamp, channel, level, text } :: below, callbacks⟩, [], []⟩
  | lose {service : Service} {sequence timestamp : Nat} {channel : String} {level : Level}
      {below : List Frame} {callbacks : List Service} :
      Moves t ⟨.rendering service sequence timestamp channel level :: below, callbacks⟩
        ⟨⟨below, callbacks⟩, [.lost t service sequence], []⟩
  | snapshot {service : Service} {record : LogRecord} {below : List Frame}
      {callbacks : List Service} (occurrences : List (Occurrence Exporter)) :
      Moves t ⟨.ready service record :: below, callbacks⟩
        ⟨⟨.dispatching { service, record, snapshot := occurrences, rest := occurrences } :: below,
            callbacks⟩,
          [.snapshot t service record (below.filterMap Frame.callback?) occurrences], []⟩
  | complete {d : Dispatch} {below : List Frame} {callbacks : List Service}
      (phase : d.phase = .next) (rest : d.rest = []) :
      Moves t ⟨.dispatching d :: below, callbacks⟩
        ⟨⟨below, callbacks⟩, [.completed t d.service d.record d.attempts], []⟩
  | enter {d : Dispatch} {below : List Frame} {callbacks : List Service}
      {occurrence : Occurrence Exporter} {rest : List (Occurrence Exporter)}
      (phase : d.phase = .next) (head : d.rest = occurrence :: rest) :
      Moves t ⟨.dispatching d :: below, callbacks⟩
        ⟨⟨.dispatching { d with rest, phase := .calling .minLevel { occurrence } } :: below,
            d.service :: callbacks⟩, [], []⟩
  | answer {d : Dispatch} {below : List Frame} {callbacks : List Service} {c c' : Callback}
      {a a' : Attempt} (phase : d.phase = .calling c a) (same : a'.occurrence = a.occurrence)
      (sound : d.phase.Sound d.record → (Phase.calling c' a').Sound d.record) :
      Moves t ⟨.dispatching d :: below, callbacks⟩
        ⟨⟨.dispatching { d with phase := .calling c' a' } :: below, callbacks⟩, [], []⟩
  | leave {d : Dispatch} {below : List Frame} {callbacks : List Service} {c : Callback}
      {a a' : Attempt} (lines : List String) (phase : d.phase = .calling c a)
      (same : a'.occurrence = a.occurrence)
      (sound : d.phase.Sound d.record → a'.Lawful d.record) :
      Moves t ⟨.dispatching d :: below, callbacks⟩
        ⟨⟨.dispatching { d with phase := .dropping a' } :: below, callbacks.tail⟩, [], lines⟩
  | drop {d : Dispatch} {below : List Frame} {callbacks : List Service} {a : Attempt}
      (lines : List String) (phase : d.phase = .dropping a) :
      Moves t ⟨.dispatching d :: below, callbacks⟩
        ⟨⟨.dispatching { d with attempts := d.attempts ++ [a], phase := .next } :: below, callbacks⟩,
          [], lines⟩

variable {t : ThreadId} {thread : Thread} {turn : Turn} {out : Outcome} {d : Dispatch}
  {below : List Frame} {callbacks : List Service}

/-- An answered threshold decides whether the record is exported. -/
theorem Dispatch.filter_moves {c : Callback} {a : Attempt} {level : Level} {a' : Attempt}
    (phase : d.phase = .calling c a) (same : a'.occurrence = a.occurrence)
    (unexported : d.phase.Sound d.record → a'.exported = false)
    (asked : d.phase.Sound d.record → a'.fallback ≠ none → a'.override = some none)
    (threshold : d.phase.Sound d.record → a'.threshold = some level) :
    Moves t ⟨.dispatching d :: below, callbacks⟩ { thread := d.filter level a' below callbacks } := by
  unfold Dispatch.filter
  split
  · rename_i hle
    refine .answer phase same fun hsound => ⟨asked hsound, fun _ => ?_, fun _ => rfl⟩
    exact ⟨level, threshold hsound, hle⟩
  · rename_i hnot
    refine .leave [] phase same fun hsound => ⟨asked hsound, fun hexported => ?_, ?_⟩
    · exact absurd hexported (by simp [unexported hsound])
    · rintro ⟨other, hother, hle⟩
      have hsame : level = other := Option.some.inj ((threshold hsound).symm.trans hother)
      exact absurd (hsame ▸ hle) hnot

theorem Dispatch.turn_moves (h : d.turn t below callbacks turn = some out) :
    Moves t ⟨.dispatching d :: below, callbacks⟩ out := by
  cases turn with
  | next =>
      simp only [Dispatch.turn] at h
      split at h
      · rename_i hphase hrest
        cases h
        exact .complete hphase hrest
      · rename_i hphase hrest
        cases h
        exact .enter hphase hrest
      · cases h
  | minLevel answer =>
      simp only [Dispatch.turn] at h
      split at h
      · rename_i a hphase
        cases answer with
        | some level =>
            cases h
            refine Dispatch.filter_moves hphase rfl ?_ ?_ ?_ <;> rw [hphase] <;> intro hsound
            · exact hsound.2.2
            · exact fun hfallback => absurd hsound.2.1 hfallback
            · rfl
        | none =>
            cases h
            refine .answer hphase rfl ?_
            rw [hphase]
            exact fun hsound => ⟨rfl, hsound.2.1, hsound.2.2⟩
      · cases h
  | defaultLevel level =>
      simp only [Dispatch.turn] at h
      split at h
      · rename_i a hphase
        cases h
        refine Dispatch.filter_moves hphase rfl ?_ ?_ ?_ <;> rw [hphase] <;> intro hsound
        · exact hsound.2.2
        · exact fun _ => hsound.1
        · simp only [Attempt.threshold, hsound.1]
      · cases h
  | exported =>
      simp only [Dispatch.turn] at h
      split at h
      · rename_i a hphase
        cases h
        refine .leave [] hphase rfl ?_
        rw [hphase]
        exact id
      · cases h
  | panic diagnostic =>
      simp only [Dispatch.turn] at h
      split at h
      · rename_i c a hphase
        cases h
        refine .leave _ hphase rfl ?_
        rw [hphase]
        -- an attempt that unwinds before its threshold is known exports nothing
        cases c with
        | minLevel =>
            rintro ⟨hoverride, hfallback, hexported⟩
            exact ⟨fun h => absurd hfallback h, by simp [Attempt.threshold, hoverride, hexported]⟩
        | defaultLevel =>
            rintro ⟨hoverride, hfallback, hexported⟩
            exact ⟨fun h => absurd hfallback h,
              by simp [Attempt.threshold, hoverride, hfallback, hexported]⟩
        | exporting => exact id
      · cases h
  | dropped panics =>
      simp only [Dispatch.turn] at h
      split at h
      · rename_i a hphase
        cases h
        exact .drop _ hphase
      · cases h
  | render text => cases h
  | unwindRender => cases h
  | snapshot occurrences => cases h

theorem Thread.turn_moves (h : thread.turn t turn = some out) : Moves t thread out := by
  rcases thread with ⟨frames, callbacks⟩
  cases frames with
  | nil => cases turn <;> cases h
  | cons frame below =>
      cases frame with
      | rendering service sequence timestamp channel level =>
          cases turn with
          | render text =>
              simp only [Thread.turn] at h
              split at h
              · rename_i hinside
                cases h
                exact .suppress _ hinside
              · rename_i houtside
                cases h
                exact .pass houtside
          | unwindRender =>
              cases h
              exact .lose
          | _ => cases h
      | ready service record =>
          cases turn with
          | snapshot occurrences =>
              cases h
              exact .snapshot occurrences
          | _ => cases h
      | dispatching d => exact Dispatch.turn_moves h

/-! ## The callback stack -/

namespace Frame

/-- The service that the callback stack admitted this call to. -/
def admitted? : Frame → Option Service
  | rendering .. => none
  | ready service _ => some service
  | dispatching d => some d.service

def Sound : Frame → Prop
  | dispatching d => d.Sound
  | _ => True

theorem callback?_calling {c : Callback} {a : Attempt} (h : d.phase = .calling c a) :
    (dispatching d).callback? = some d.service := by
  rcases d with ⟨service, record, snapshot, attempts, rest, phase⟩
  cases h
  rfl

theorem callback?_next (h : d.phase = .next) : (dispatching d).callback? = none := by
  rcases d with ⟨service, record, snapshot, attempts, rest, phase⟩
  cases h
  rfl

theorem callback?_dropping {a : Attempt} (h : d.phase = .dropping a) :
    (dispatching d).callback? = none := by
  rcases d with ⟨service, record, snapshot, attempts, rest, phase⟩
  cases h
  rfl

end Frame

/-- The stack is the callbacks that the calls are in, and no call was admitted inside its own. -/
structure Thread.Sound (thread : Thread) : Prop where
  callbacks : thread.callbacks = thread.within
  admitted : thread.frames.Pairwise fun above below =>
    ∀ service, above.admitted? = some service → below.callback? ≠ some service
  frames : ∀ frame ∈ thread.frames, frame.Sound

namespace Thread.Sound

variable {frame frame' : Frame}

theorem idle : ({} : Thread).Sound :=
  ⟨rfl, .nil, fun _ h => absurd h List.not_mem_nil⟩

theorem top (h : Thread.Sound ⟨frame :: below, callbacks⟩) : frame.Sound :=
  h.frames frame List.mem_cons_self

/-- The call on top was admitted outside its own callbacks. -/
theorem outside (h : Thread.Sound ⟨frame :: below, callbacks⟩) {service : Service}
    (hadmitted : frame.admitted? = some service) : service ∉ below.filterMap Frame.callback? := by
  intro hmem
  rcases List.mem_filterMap.mp hmem with ⟨other, hother, hcallback⟩
  exact (List.pairwise_cons.mp h.admitted).1 other hother service hadmitted hcallback

theorem pop (h : Thread.Sound ⟨frame :: below, callbacks⟩) (hnone : frame.callback? = none) :
    Thread.Sound ⟨below, callbacks⟩ := by
  refine ⟨?_, (List.pairwise_cons.mp h.admitted).2, fun other hother =>
    h.frames other (List.mem_cons_of_mem _ hother)⟩
  have hcallbacks := h.callbacks
  simp only [within, List.filterMap_cons_none hnone] at hcallbacks
  exact hcallbacks

theorem push (h : Thread.Sound ⟨below, callbacks⟩) {callbacks' : List Service} (hsound : frame.Sound)
    (hadmitted : ∀ service, frame.admitted? = some service →
      service ∉ below.filterMap Frame.callback?)
    (hcallbacks : callbacks' = (frame :: below).filterMap Frame.callback?) :
    Thread.Sound ⟨frame :: below, callbacks'⟩ := by
  refine ⟨hcallbacks, List.pairwise_cons.mpr ⟨fun other hother service hservice hcallback => ?_,
    h.admitted⟩, List.forall_mem_cons.mpr ⟨hsound, h.frames⟩⟩
  exact hadmitted service hservice (List.mem_filterMap.mpr ⟨other, hother, hcallback⟩)

/-- The call on top goes on; what lies below it stays. -/
theorem replace (h : Thread.Sound ⟨frame :: below, callbacks⟩) {callbacks' : List Service}
    (hsound : frame'.Sound)
    (hadmitted : ∀ service, frame'.admitted? = some service →
      service ∉ below.filterMap Frame.callback?)
    (hcallbacks : callbacks' = (frame' :: below).filterMap Frame.callback?) :
    Thread.Sound ⟨frame' :: below, callbacks'⟩ := by
  have hbelow : Thread.Sound ⟨below, below.filterMap Frame.callback?⟩ :=
    ⟨rfl, (List.pairwise_cons.mp h.admitted).2, fun other hother =>
      h.frames other (List.mem_cons_of_mem _ hother)⟩
  exact hbelow.push hsound hadmitted hcallbacks

/-- A dispatch that goes on keeps its service. -/
theorem goes_on (h : Thread.Sound ⟨.dispatching d :: below, callbacks⟩) {d' : Dispatch}
    {callbacks' : List Service} (hservice : d'.service = d.service) (hsound : d'.Sound)
    (hcallbacks : callbacks' = (Frame.dispatching d' :: below).filterMap Frame.callback?) :
    Thread.Sound ⟨.dispatching d' :: below, callbacks'⟩ := by
  refine h.replace hsound (fun service hadmitted => h.outside ?_) hcallbacks
  exact (congrArg some hservice.symm).trans hadmitted

theorem moves (h : thread.Sound) (hmoves : Moves t thread out) : out.thread.Sound := by
  cases hmoves with
  | suppress lines inside => exact h.pop rfl
  | pass outside =>
      -- outside the service: its guard opens a callback of its own
      have hcallbacks : _ = List.filterMap Frame.callback? _ := (h.pop rfl).callbacks
      refine h.replace trivial (fun service hservice => ?_) hcallbacks
      cases hservice
      rw [← hcallbacks]
      exact outside
  | lose => exact h.pop rfl
  | snapshot occurrences =>
      refine h.replace ⟨rfl, fun a ha => absurd ha List.not_mem_nil, trivial⟩
        (fun service hservice => ?_) (h.pop rfl).callbacks
      exact h.outside hservice
  | complete phase rest => exact h.pop (Frame.callback?_next phase)
  | enter phase head =>
      have hd : Dispatch.Sound _ := h.top
      refine h.goes_on rfl ⟨?_, hd.attempts, rfl, rfl, rfl⟩
        (congrArg _ (h.pop (Frame.callback?_next phase)).callbacks)
      have hsnapshot := hd.snapshot
      rw [phase, head] at hsnapshot
      simpa [Phase.current] using hsnapshot
  | answer phase same sound =>
      have hd : Dispatch.Sound _ := h.top
      refine h.goes_on rfl ⟨?_, hd.attempts, sound hd.phase⟩ ?_
      · have hsnapshot := hd.snapshot
        rw [phase] at hsnapshot
        simpa [Phase.current, same] using hsnapshot
      · have hcallbacks := h.callbacks
        simp only [within, List.filterMap_cons_some (Frame.callback?_calling phase)] at hcallbacks
        exact hcallbacks
  | leave lines phase same sound =>
      have hd : Dispatch.Sound _ := h.top
      refine h.goes_on rfl ⟨?_, hd.attempts, sound hd.phase⟩ ?_
      · have hsnapshot := hd.snapshot
        rw [phase] at hsnapshot
        simpa [Phase.current, same] using hsnapshot
      · have hcallbacks := h.callbacks
        simp only [within, List.filterMap_cons_some (Frame.callback?_calling phase)] at hcallbacks
        rw [hcallbacks]
        rfl
  | drop lines phase =>
      have hd : Dispatch.Sound _ := h.top
      refine h.goes_on rfl ⟨?_, fun a ha => ?_, trivial⟩
        (h.pop (Frame.callback?_dropping phase)).callbacks
      · have hsnapshot := hd.snapshot
        rw [phase] at hsnapshot
        simpa [Phase.current] using hsnapshot
      · rcases List.mem_append.mp ha with ha | ha
        · exact hd.attempts a ha
        · have hphase := hd.phase
          rw [phase] at hphase
          exact List.mem_singleton.mp ha ▸ hphase

/-- The guard of a callback pops its own service. -/
theorem popped (h : Thread.Sound ⟨.dispatching d :: below, callbacks⟩) {c : Callback} {a : Attempt}
    (hphase : d.phase = .calling c a) : callbacks.head? = some d.service := by
  have hcallbacks := h.callbacks
  simp only [within, List.filterMap_cons_some (Frame.callback?_calling hphase)] at hcallbacks
  rw [hcallbacks]
  rfl

/-- A thread is in one callback of a service at a time. -/
theorem nodup (h : thread.Sound) : thread.callbacks.Nodup := by
  rw [h.callbacks]
  refine List.pairwise_filterMap.mpr (h.admitted.imp fun {above below} hpair => ?_)
  rintro service hservice other hother rfl
  refine hpair service ?_ hother
  cases above with
  | dispatching d =>
      rcases d with ⟨service', record, snapshot, attempts, rest, phase⟩
      cases phase with
      | calling c a => exact hservice
      | next => cases hservice
      | dropping a => cases hservice
  | rendering service' sequence timestamp channel level => cases hservice
  | ready service' record => cases hservice

end Thread.Sound

end Logger
end CordisCore
