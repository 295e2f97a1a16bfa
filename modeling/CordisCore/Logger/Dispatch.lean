import CordisCore.Fanout.Occurrences
import CordisCore.Interleaving.Automaton
import CordisCore.Logger.Hyphenate
import Mathlib.Order.Basic
import Mathlib.Logic.Function.Basic

/-!
# Dispatch — records on their way to exporter occurrences

Threads log through any number of services.  The rendering of a record, the callbacks of
an exporter and its destructor are user code: it may log again on its own thread, and it
may unwind.
-/

namespace CordisCore
namespace Logger

open Interleaving Fanout

/-! ## Records -/

inductive Level where
  | debug
  | info
  | warn
  | error
  deriving DecidableEq

namespace Level

/-- Severities are ordered as they are declared. -/
def rank : Level → Nat
  | debug => 0
  | info => 1
  | warn => 2
  | error => 3

theorem rank_injective : Function.Injective rank := by
  intro l m h
  cases l <;> cases m <;> first | rfl | simp [rank] at h

instance : LinearOrder Level :=
  LinearOrder.lift' rank rank_injective

def asStr : Level → String
  | debug => "debug"
  | info => "info"
  | warn => "warn"
  | error => "error"

end Level

structure LogRecord where
  sequence : Nat
  timestamp : Nat
  channel : String
  level : Level
  text : String
  deriving DecidableEq

/-- The address of a `LoggerService`. -/
abbrev Service := Nat

/-- A `Logger`: a named channel of a service. -/
structure Channel where
  name : String
  service : Service

def loggerForFiber (service : Service) (fiberName : String) : Channel :=
  { name := hyphenate fiberName, service := service }

/-- The channel that a Fiber gets has a name in normal form. -/
theorem hyphenated_loggerForFiber (service : Service) (fiberName : String) :
    Hyphenated (loggerForFiber service fiberName).name :=
  hyphenated_hyphenate fiberName

/-! ## Exporters -/

structure BufferSizeZero where

/-- A bounded buffer of records in receipt order. -/
structure BufferExporter where
  capacity : Nat
  buffer : List LogRecord
  minLevel : Level
  nonzero : capacity ≠ 0
  bounded : buffer.length ≤ capacity

namespace BufferExporter

def new (capacity : Nat) (minLevel : Level) : Except BufferSizeZero BufferExporter :=
  if nonzero : capacity = 0 then .error {}
  else .ok { capacity, buffer := [], minLevel, nonzero, bounded := Nat.zero_le _ }

/-- The oldest record makes room. -/
def exportRecord (b : BufferExporter) (record : LogRecord) : BufferExporter :=
  { b with
    buffer := (if b.buffer.length = b.capacity then b.buffer.tail else b.buffer) ++ [record]
    bounded := by
      have hbounded := b.bounded
      have hnonzero := b.nonzero
      split
      · rw [List.length_append, List.length_tail, List.length_singleton]
        omega
      · rw [List.length_append, List.length_singleton]
        omega }

def clear (b : BufferExporter) : BufferExporter :=
  { b with buffer := [], bounded := Nat.zero_le _ }

end BufferExporter

abbrev BufferId := Nat

/-- `Arc<dyn Exporter>`. -/
inductive Exporter where
  | custom (id : Nat)
  | buffer (id : BufferId)
  deriving DecidableEq

/-- Its callbacks and its destructor are user code. -/
def Exporter.isUser : Exporter → Bool
  | custom _ => true
  | buffer _ => false

/-! ## Services -/

structure LoggerService where
  sequence : Nat := 0
  /-- `exporter_sequence` and `exporters`. -/
  exporters : Registry Exporter := {}

/-- `value.checked_add(1)` on `u64`; the caller's `expect` panics on `none`. -/
def checkedSuccessor (value : Nat) : Option Nat :=
  if value + 1 < 2 ^ 64 then some (value + 1) else none

/-! ## Calls in progress -/

inductive Callback where
  | minLevel
  | defaultLevel
  | exporting
  deriving DecidableEq

/-- What one occurrence answered to one record. -/
structure Attempt where
  occurrence : Occurrence Exporter
  /-- What `min_level` returned. -/
  override : Option (Option Level) := none
  /-- What `default_level` returned. -/
  fallback : Option Level := none
  /-- `export` was entered. -/
  exported : Bool := false

inductive Phase where
  /-- Before the next exporter of the snapshot. -/
  | next
  | calling (callback : Callback) (attempt : Attempt)
  | dropping (attempt : Attempt)

/-- The loop of `dispatch`. -/
structure Dispatch where
  service : Service
  record : LogRecord
  /-- Instrumentation: the whole snapshot, and what was attempted of it. -/
  snapshot : List (Occurrence Exporter)
  attempts : List Attempt := []
  rest : List (Occurrence Exporter)
  phase : Phase := .next

/-- A `log` call on a thread. -/
inductive Frame where
  /-- `text.to_string()` runs. -/
  | rendering (service : Service) (sequence timestamp : Nat) (channel : String) (level : Level)
  /-- The callback stack admitted the record. -/
  | ready (service : Service) (record : LogRecord)
  | dispatching (dispatch : Dispatch)

namespace Frame

/-- User code runs at the top of this call. -/
def isFree : Frame → Bool
  | rendering .. => true
  | ready .. => false
  | dispatching { phase := .next, .. } => false
  | dispatching { phase := .calling _ attempt, .. }
  | dispatching { phase := .dropping attempt, .. } => attempt.occurrence.payload.isUser

/-- The service whose exporter callback this call is in. -/
def callback? : Frame → Option Service
  | dispatching { phase := .calling _ _, service, .. } => some service
  | _ => none

end Frame

/-- One thread: its `log` calls, innermost first, and its `EXPORTER_CALLBACK_STACK`. -/
structure Thread where
  frames : List Frame := []
  callbacks : List Service := []

/-- User code runs on the thread. -/
def Thread.isFree (thread : Thread) : Bool :=
  thread.frames.head?.all Frame.isFree

/-- The services whose callbacks the calls of a thread are in. -/
def Thread.within (thread : Thread) : List Service :=
  thread.frames.filterMap Frame.callback?

/-! ## What a call does next -/

inductive Turn where
  | render (text : String)
  | unwindRender
  | snapshot (occurrences : List (Occurrence Exporter))
  | next
  | minLevel (answer : Option Level)
  | defaultLevel (answer : Level)
  | exported
  | panic (diagnostic : String)
  | dropped (panics : Option String)

abbrev ThreadId := Nat

/-- What became of a record, and what was done to stores and buffers. -/
inductive Event where
  | assigned (t : ThreadId) (service : Service) (sequence : Nat)
  /-- The rendering unwound. -/
  | lost (t : ThreadId) (service : Service) (sequence : Nat)
  | suppressed (t : ThreadId) (service : Service) (record : LogRecord) (within : List Service)
  | snapshot (t : ThreadId) (service : Service) (record : LogRecord) (within : List Service)
      (occurrences : List (Occurrence Exporter))
  | completed (t : ThreadId) (service : Service) (record : LogRecord) (attempts : List Attempt)
  | store (service : Service) (change : Change Exporter)
  | received (id : BufferId) (record : LogRecord)
  /-- User code called `export` on the buffer itself. -/
  | forwarded (id : BufferId) (record : LogRecord)
  | cleared (id : BufferId)

/-- The line for a record that is logged from within a callback. -/
def suppressedLine (record : LogRecord) : String :=
  "cordis: reentrant log suppressed [" ++ record.level.asStr ++ "] " ++ record.channel ++ ": " ++
    record.text

/-- `report_text` without a logger. -/
def panicLine (what diagnostic : String) : String :=
  "cordis: " ++ what ++ " panicked: " ++ diagnostic

/-- What one turn does: the thread after it, what happened and what went to stderr. -/
structure Outcome where
  thread : Thread
  events : List Event := []
  lines : List String := []

namespace Dispatch

/-- Compare with the threshold, inside the callback. -/
def filter (d : Dispatch) (threshold : Level) (attempt : Attempt) (below : List Frame)
    (callbacks : List Service) : Thread :=
  if threshold ≤ d.record.level then
    { frames := .dispatching
        { d with phase := .calling .exporting { attempt with exported := true } } :: below
      callbacks }
  else
    -- the guard pops the stack
    { frames := .dispatching { d with phase := .dropping attempt } :: below
      callbacks := callbacks.tail }

/-- One turn of the innermost call. -/
def turn (t : ThreadId) (d : Dispatch) (below : List Frame) (callbacks : List Service) :
    Turn → Option Outcome
  | .next =>
      match d.phase, d.rest with
      -- the snapshot is exhausted
      | .next, [] =>
          some
            { thread := { frames := below, callbacks }
              events := [.completed t d.service d.record d.attempts] }
      | .next, occurrence :: rest =>
          some
            { thread :=
                { frames := .dispatching
                    { d with rest, phase := .calling .minLevel { occurrence } } :: below
                  callbacks := d.service :: callbacks } }
      | _, _ => none
  | .minLevel answer =>
      match d.phase with
      | .calling .minLevel attempt =>
          match answer with
          | some threshold =>
              some { thread :=
                d.filter threshold { attempt with override := some answer } below callbacks }
          -- no level of its own: the default of the exporter is asked for
          | none =>
              some
                { thread :=
                    { frames := .dispatching
                        { d with
                          phase := .calling .defaultLevel { attempt with override := some none } }
                        :: below
                      callbacks } }
      | _ => none
  | .defaultLevel threshold =>
      match d.phase with
      | .calling .defaultLevel attempt =>
          some { thread :=
            d.filter threshold { attempt with fallback := some threshold } below callbacks }
      | _ => none
  | .exported =>
      match d.phase with
      | .calling .exporting attempt =>
          some
            { thread :=
                { frames := .dispatching { d with phase := .dropping attempt } :: below
                  callbacks := callbacks.tail } }
      | _ => none
  | .panic diagnostic =>
      match d.phase with
      | .calling _ attempt =>
          -- an unwinding callback is contained and reported, the dispatch goes on
          some
            { thread :=
                { frames := .dispatching { d with phase := .dropping attempt } :: below
                  callbacks := callbacks.tail }
              lines := [panicLine "log exporter" diagnostic] }
      | _ => none
  | .dropped panics =>
      match d.phase with
      | .dropping attempt =>
          some
            { thread :=
                { frames := .dispatching
                    { d with attempts := d.attempts ++ [attempt], phase := .next } :: below
                  callbacks }
              lines := panics.toList.map (panicLine "log exporter drop") }
      | _ => none
  | _ => none

end Dispatch

/-- One turn of the innermost call of a thread. -/
def Thread.turn (t : ThreadId) (thread : Thread) (turn : Turn) : Option Outcome :=
  match thread.frames, turn with
  | .rendering service sequence timestamp channel level :: below, .render text =>
      let record : LogRecord := { sequence, timestamp, channel, level, text }
      -- a callback of this service is running on this thread
      if service ∈ thread.callbacks then
        some
          { thread := { thread with frames := below }
            events := [.suppressed t service record thread.within]
            lines := [suppressedLine record] }
      else some { thread := { thread with frames := .ready service record :: below } }
  | .rendering service sequence _ _ _ :: below, .unwindRender =>
      some { thread := { thread with frames := below }, events := [.lost t service sequence] }
  | .ready service record :: below, .snapshot occurrences =>
      some
        { thread :=
            { thread with
              frames := .dispatching
                { service, record, snapshot := occurrences, rest := occurrences } :: below }
          events := [.snapshot t service record thread.within occurrences] }
  | .dispatching d :: below, turn => d.turn t below thread.callbacks turn
  | _, _ => none

/-! ## All interleavings -/

/-- An `add_exporter` call between its reservation and the gate. -/
structure Reservation where
  service : Service
  occurrence : Occurrence Exporter
  deriving DecidableEq

structure Logging where
  services : Service → LoggerService := fun _ => {}
  threads : ThreadId → Thread := fun _ => {}
  buffers : List BufferExporter := []
  pending : List Reservation := []
  /-- The registrations that callers hold, and the obligations of generations. -/
  controls : List (Service × Nat) := []
  cleanups : List (Service × Nat) := []
  stderr : List String := []
  /-- What happened, the latest first. -/
  trace : List Event := []

namespace Logging

def setService (s : Logging) (service : Service) (value : LoggerService) : Logging :=
  { s with services := Function.update s.services service value }

def emit (s : Logging) (events : List Event) : Logging :=
  { s with trace := events ++ s.trace }

/-- A `log` call up to the rendering of its text. -/
def log (s : Logging) (t : ThreadId) (logger : Channel) (level : Level) (timestamp : Nat) :
    Logging :=
  match checkedSuccessor (s.services logger.service).sequence with
  | some sequence =>
      let thread := s.threads t
      let frame := Frame.rendering logger.service sequence timestamp logger.name level
      { (s.setService logger.service { s.services logger.service with sequence }).emit
          [.assigned t logger.service sequence] with
        threads := Function.update s.threads t { thread with frames := frame :: thread.frames } }
  -- the panic is the caller's
  | none => s

/-- The exporter whose callback or destructor runs on the thread. -/
def exporter? (s : Logging) (t : ThreadId) : Option (Exporter × LogRecord) :=
  match (s.threads t).frames with
  | .dispatching { phase := .calling _ attempt, record, .. } :: _
  | .dispatching { phase := .dropping attempt, record, .. } :: _ =>
      some (attempt.occurrence.payload, record)
  | _ => none

/-- What the code of an exporter may answer; a buffer keeps to its own methods. -/
def permits (s : Logging) : Exporter → Turn → Bool
  | .custom _, _ => true
  | .buffer _, .minLevel answer => answer = none
  | .buffer id, .defaultLevel answer => s.buffers[id]?.any fun b => b.minLevel = answer
  | .buffer _, .panic _ => false
  | .buffer _, .dropped panics => panics = none
  | .buffer _, _ => true

/-- A snapshot is what the store holds under its lock. -/
def agrees (s : Logging) (t : ThreadId) : Turn → Bool
  | .snapshot occurrences =>
      match (s.threads t).frames with
      | .ready service _ :: _ => (s.services service).exporters.occurrences = occurrences
      | _ => false
  | turn => (s.exporter? t).all fun (exporter, _) => s.permits exporter turn

/-- The record reached the exporters of a service, and so user code. -/
def shows (s : Logging) (record : LogRecord) : Bool :=
  s.trace.any fun
    | .snapshot _ _ shown _ _ => shown = record
    | _ => false

/-- The record goes into the buffer that is called. -/
def receive (s : Logging) (t : ThreadId) : Turn → Logging
  | .exported =>
      match s.exporter? t with
      | some (.buffer id, record) =>
          { s with buffers := s.buffers.modify id fun b => b.exportRecord record }.emit
            [.received id record]
      | _ => s
  | _ => s

def take (s : Logging) (t : ThreadId) (turn : Turn) : Option Logging :=
  if s.agrees t turn then
    ((s.threads t).turn t turn).map fun out =>
      { (s.receive t turn).emit out.events with
        threads := Function.update s.threads t out.thread
        stderr := out.lines ++ s.stderr }
  else none

/-- `reserve_exporter`. -/
def reserveExporter (s : Logging) (service : Service) (exporter : Exporter) : Logging :=
  let here := s.services service
  match checkedSuccessor here.exporters.sequence with
  | some key =>
      { s.setService service { here with exporters := { here.exporters with sequence := key } } with
        pending := ⟨service, key, exporter⟩ :: s.pending }
  | none => s

/-- `insert_reserved` behind the gate, with the control and the obligation. -/
def insertReserved (s : Logging) (r : Reservation) : Logging :=
  let here := s.services r.service
  { (s.setService r.service { here with exporters := here.exporters.insert r.occurrence }).emit
      [.store r.service (.inserted r.occurrence)] with
    pending := s.pending.erase r
    controls := (r.service, r.occurrence.key) :: s.controls
    cleanups := (r.service, r.occurrence.key) :: s.cleanups }

/-- `remove_exporter`. -/
def removeExporter (s : Logging) (service : Service) (key : Nat) : Logging :=
  let here := s.services service
  (s.setService service { here with exporters := (here.exporters.remove key).1 }).emit
    [.store service (.removed key (here.exporters.remove key).2)]

end Logging

inductive Action where
  | log (t : ThreadId) (logger : Channel) (level : Level) (timestamp : Nat)
  | take (t : ThreadId) (turn : Turn)
  | newBuffer (capacity : Nat) (minLevel : Level)
  | clear (id : BufferId)
  /-- User code passes a record that it was shown to a buffer, past any level. -/
  | forward (id : BufferId) (record : LogRecord)
  | reserve (service : Service) (exporter : Exporter)
  | publish (r : Reservation)
  /-- The gate refuses, or the caller is gone. -/
  | refuse (r : Reservation)
  | remove (service : Service) (key : Nat)
  | cleanup (service : Service) (key : Nat)

open Logging in
def logging : Automaton Logging Action where
  init := {}
  step s
    | .log t logger level timestamp =>
        if (s.threads t).isFree then some (s.log t logger level timestamp) else none
    | .take t turn => s.take t turn
    | .newBuffer capacity minLevel =>
        match BufferExporter.new capacity minLevel with
        | .ok b => some { s with buffers := s.buffers ++ [b] }
        | .error _ => some s
    | .clear id =>
        some ({ s with buffers := s.buffers.modify id BufferExporter.clear }.emit [.cleared id])
    | .forward id record =>
        -- user code can only hand on what some exporter was shown
        if id < s.buffers.length ∧ s.shows record then
          some ({ s with buffers := s.buffers.modify id fun b => b.exportRecord record }.emit
            [.forwarded id record])
        else none
    | .reserve service exporter =>
        match exporter with
        | .buffer id =>
            if id < s.buffers.length then some (s.reserveExporter service exporter) else none
        | .custom _ => some (s.reserveExporter service exporter)
    | .publish r => if r ∈ s.pending then some (s.insertReserved r) else none
    | .refuse r => if r ∈ s.pending then some { s with pending := s.pending.erase r } else none
    | .remove service key =>
        if (service, key) ∈ s.controls then
          some ({ s with controls := s.controls.erase (service, key) }.removeExporter service key)
        else none
    | .cleanup service key =>
        if (service, key) ∈ s.cleanups then
          some ({ s with cleanups := s.cleanups.erase (service, key) }.removeExporter service key)
        else none

end Logger
end CordisCore
