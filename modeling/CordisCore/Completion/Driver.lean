import CordisCore.Completion.Work

/-!
# One driver — ownership of committed work over every order of events
-/

namespace CordisCore
namespace Completion

open Interleaving

/-! ## Statements -/

namespace Stage

/-- The wrapper owns the inner future. -/
def holds : Stage → Bool
  | inline _ _ => true
  | handedOff | finished => false

end Stage

namespace Task

/-- The task owns the inner future. -/
def holds : Task → Bool
  | onRuntime _ future => future.work.isSome
  | onCompletion _ => true

/-- A task that keeps its parcel when its executor drops it. -/
inductive Carries (parcel : Parcel) : Task → Prop where
  | onRuntime (runtime : Runtime) :
      Carries parcel (onRuntime runtime { work := some parcel, transferOnDrop := true })
  | onCompletion : Carries parcel (onCompletion parcel)

end Task

/-- How the inner future ended, if it did. -/
def ending : List Poll → Option OwnerOutcome
  | .ready :: _ => some .returned
  | .panicked payload :: _ => some (.unwound payload)
  | _ => none

namespace Driving

/-- How many drivers own the inner future. -/
def owners (s : Driving) : Nat :=
  (if s.wrapper.any Stage.holds then 1 else 0) + s.tasks.countP Task.holds

/-- Some driver can take the next step of the work: poll it, or carry it over. -/
def Live (s : Driving) : Prop :=
  (∀ flavour poll, ∃ s', completion.step s (.poll flavour poll) = some s' ∧
    s'.polls = poll :: s.polls) ∨
  (∃ task ∈ s.tasks, ∀ poll, ∃ s', completion.step s (.pollTask task poll) = some s' ∧
    s'.polls = poll :: s.polls) ∨
  ∃ runtime future parcel s', s.shut runtime = true ∧
    completion.step s (.dropTask runtime future) = some s' ∧ s'.tasks = [.onCompletion parcel]

/-- The waiting caller's next poll tells it this outcome. -/
def Answers (s : Driving) (outcome : OwnerOutcome) : Prop :=
  ∀ flavour poll, ∃ s', completion.step s (.poll flavour poll) = some s' ∧
    s'.observed = [outcome] ∧ s'.polls = s.polls

end Driving

/-! ## Phases -/

/-- Every poll so far was pending. -/
def Unfinished (polls : List Poll) : Prop :=
  ∀ poll ∈ polls, poll = .pending

/-- The last poll ended the inner future this way, and only the last one. -/
structure Ended (polls : List Poll) (outcome : OwnerOutcome) : Prop where
  last : ending polls = some outcome
  before : Unfinished polls.tail

theorem Unfinished.ending {polls : List Poll} (h : Unfinished polls) : ending polls = none := by
  cases polls with
  | nil => rfl
  | cons poll rest =>
      rw [h poll List.mem_cons_self]
      rfl

theorem Unfinished.pending {polls : List Poll} (h : Unfinished polls) :
    Unfinished (.pending :: polls) :=
  List.forall_mem_cons.mpr ⟨rfl, h⟩

theorem Unfinished.tail {polls : List Poll} (h : Unfinished polls) : Unfinished polls.tail :=
  fun poll hpoll => h poll (List.mem_of_mem_tail hpoll)

theorem Unfinished.ready {polls : List Poll} (h : Unfinished polls) :
    Ended (.ready :: polls) .returned :=
  ⟨rfl, h⟩

theorem Unfinished.panicked {polls : List Poll} (h : Unfinished polls) (payload : Payload) :
    Ended (.panicked payload :: polls) (.unwound payload) :=
  ⟨rfl, h⟩

/-- Where the relay of a handed-off parcel stands while the parcel is driven. -/
structure Awaits (s : Driving) (parcel : Parcel) : Prop where
  waiting : s.waiting = true
  receiver : s.relay.receiver = true
  unsent : s.relay.sent = none
  relayed : ∃ report, parcel = .relayed report

/-- Nobody waits for the parcel. -/
structure Abandoned (s : Driving) (parcel : Parcel) : Prop where
  waiting : s.waiting = false
  receiver : ∀ report, parcel = .relayed report → s.relay.receiver = false

/-- What the caller of a driven parcel does. -/
def Called (s : Driving) (parcel : Parcel) : Prop :=
  s.wrapper = some .handedOff ∧ Awaits s parcel ∨ s.wrapper = none ∧ Abandoned s parcel

theorem Called.congr {s s' : Driving} {parcel : Parcel} (h : Called s parcel)
    (hwrapper : s'.wrapper = s.wrapper) (hwaiting : s'.waiting = s.waiting)
    (hrelay : s'.relay = s.relay) : Called s' parcel := by
  unfold Called at h ⊢
  rw [hwrapper]
  exact h.imp
    (fun h => ⟨h.1, hwaiting ▸ h.2.waiting, hrelay ▸ h.2.receiver, hrelay ▸ h.2.unsent,
      h.2.relayed⟩)
    (fun h => ⟨h.1, hwaiting ▸ h.2.waiting, hrelay ▸ h.2.receiver⟩)

inductive Phase (s : Driving) : Prop where
  | idle (started : s.started = false) (wrapper : s.wrapper = none) (waiting : s.waiting = false)
      (tasks : s.tasks = []) (polls : s.polls = []) (observed : s.observed = [])
  | inline (report : Option PanicReport) (started : s.started = true)
      (wrapper : s.wrapper = some (.inline report true)) (waiting : s.waiting = true)
      (tasks : s.tasks = []) (polls : s.polls = []) (observed : s.observed = [])
  | unwound (report : Option PanicReport) (outcome : OwnerOutcome) (started : s.started = true)
      (wrapper : s.wrapper = some (.inline report false)) (waiting : s.waiting = false)
      (tasks : s.tasks = []) (polls : Ended s.polls outcome) (observed : s.observed = [outcome])
  | driven (task : Task) (parcel : Parcel) (started : s.started = true) (tasks : s.tasks = [task])
      (carries : task.Carries parcel) (polls : Unfinished s.polls) (observed : s.observed = [])
      (caller : Called s parcel)
  | relayed (outcome : OwnerOutcome) (started : s.started = true)
      (wrapper : s.wrapper = some .handedOff) (waiting : s.waiting = true) (tasks : s.tasks = [])
      (sent : s.relay.sent = some outcome) (polls : Ended s.polls outcome)
      (observed : s.observed = [])
  | settled (outcome : OwnerOutcome) (started : s.started = true)
      (wrapper : s.wrapper = some .finished ∨ s.wrapper = none) (waiting : s.waiting = false)
      (tasks : s.tasks = []) (polls : Ended s.polls outcome)
      (observed : s.observed = [] ∨ s.observed = [outcome])

/-! ## Spawning and concluding -/

variable {s : Driving}

/-- Detached work is carried by exactly one task, whatever the runtime does. -/
theorem detach_spec (s : Driving) (flavour : Flavour) (parcel : Parcel) :
    ∃ task, Task.Carries parcel task ∧ s.detach flavour parcel = s.spawn task := by
  cases flavour with
  | multiThread runtime =>
      simp only [Driving.detach, Driving.spawnOn]
      split
      · exact ⟨_, .onCompletion, rfl⟩
      · exact ⟨_, .onRuntime runtime, rfl⟩
  | currentThread => exact ⟨_, .onCompletion, rfl⟩
  | none => exact ⟨_, .onCompletion, rfl⟩

/-- Nobody receives the outcome of an abandoned parcel. -/
theorem conclude_abandoned {parcel : Parcel} (outcome : OwnerOutcome) (h : Abandoned s parcel) :
    ∃ reported, s.conclude parcel outcome = { s with reported := reported } := by
  cases parcel with
  | bare => exact ⟨_, rfl⟩
  | relayed report =>
      simp only [Driving.conclude, Driving.send, h.receiver report rfl, Bool.false_eq_true, if_false]
      split <;> exact ⟨_, rfl⟩

/-- The outcome of an awaited parcel is in the relay. -/
theorem conclude_awaits {parcel : Parcel} {outcome : OwnerOutcome} (h : Awaits s parcel) :
    s.conclude parcel outcome = { s with relay := { s.relay with sent := some outcome } } := by
  rcases h.relayed with ⟨report, rfl⟩
  simp only [Driving.conclude, Driving.send, h.receiver, if_true]

/-- The driven inner future ends: its waiting caller is answered by the relay. -/
theorem Phase.concluded {parcel : Parcel} {outcome : OwnerOutcome} (started : s.started = true)
    (tasks : s.tasks = []) (polls : Ended s.polls outcome) (observed : s.observed = [])
    (caller : Called s parcel) : Phase (s.conclude parcel outcome) := by
  rcases caller with ⟨wrapper, hawaits⟩ | ⟨wrapper, habandoned⟩
  · rw [conclude_awaits hawaits]
    exact .relayed outcome started wrapper hawaits.waiting tasks rfl polls observed
  · rcases conclude_abandoned outcome habandoned with ⟨reported, heq⟩
    rw [heq]
    exact .settled outcome started (.inr wrapper) habandoned.waiting tasks polls (.inl observed)

/-! ## One event -/

theorem Phase.new {s' : Driving} (h : Phase s) {report : Option PanicReport}
    (hstep : completion.step s (.new report) = some s') : Phase s' := by
  rcases Option.ite_none_left_eq_some.mp hstep with ⟨hfresh, hs'⟩
  cases Option.some.inj hs'
  cases h with
  | idle _ wrapper waiting tasks polls observed =>
      exact .inline report rfl rfl rfl tasks polls observed
  | _ => simp_all

/-- Work that is detached for a caller who is gone, or was never there. -/
theorem Phase.detached {flavour : Flavour} (started : s.started = true)
    (wrapper : s.wrapper = none) (waiting : s.waiting = false) (tasks : s.tasks = [])
    (polls : s.polls = []) (observed : s.observed = []) : Phase (s.detach flavour .bare) := by
  rcases detach_spec s flavour .bare with ⟨task, hcarries, heq⟩
  rw [heq]
  refine .driven task .bare started ?_ hcarries ?_ observed (.inr ⟨wrapper, waiting, nofun⟩)
  · simp [Driving.spawn, tasks]
  · simp [Driving.spawn, polls, Unfinished]

theorem Phase.pollInline {report : Option PanicReport} {transfer : Bool} {flavour : Flavour}
    {poll : Poll} (h : Phase s) (hwaiting : s.waiting = true)
    (hwrapper : s.wrapper = some (.inline report transfer)) :
    Phase (s.pollInline flavour report poll) := by
  cases h with
  | inline report' started wrapper waiting tasks polls observed =>
      have hunfinished : Unfinished s.polls := by simp [polls, Unfinished]
      cases poll with
      | ready =>
          exact .settled .returned started (.inl rfl) rfl tasks hunfinished.ready
            (.inr (congrArg _ observed))
      | pending =>
          rcases detach_spec { { s with wrapper := some .handedOff }.record .pending with
            relay := { receiver := true } } flavour (.relayed report) with ⟨task, hcarries, heq⟩
          show Phase (Driving.detach _ flavour (.relayed report))
          rw [heq]
          exact .driven task _ started (congrArg _ tasks) hcarries hunfinished.pending observed
            (.inl ⟨rfl, waiting, rfl, rfl, report, rfl⟩)
      | panicked payload =>
          exact .unwound report (.unwound payload) started rfl rfl tasks
            (hunfinished.panicked payload) (congrArg _ observed)
  | driven _ _ _ _ _ _ _ caller => rcases caller with ⟨wrapper, -⟩ | ⟨wrapper, -⟩ <;> simp_all
  | settled _ _ wrapper waiting => simp_all
  | _ => simp_all

theorem Task.Carries.sender {parcel : Parcel} {task : Task} (h : task.Carries parcel)
    (htasks : s.tasks = [task]) {report : Option PanicReport} (hparcel : parcel = .relayed report) :
    s.senderAlive = true := by
  subst hparcel
  cases h <;> simp [Driving.senderAlive, htasks]

theorem Phase.pollRelay (h : Phase s) (hwaiting : s.waiting = true)
    (hwrapper : s.wrapper = some .handedOff) : Phase s.pollRelay := by
  cases h with
  | driven task parcel started tasks carries polls observed caller =>
      rcases caller with ⟨wrapper, hawaits⟩ | ⟨wrapper, -⟩
      · rcases hawaits.relayed with ⟨report, hparcel⟩
        have hself : s.pollRelay = s := by
          simp only [Driving.pollRelay, hawaits.unsent, carries.sender tasks hparcel, if_true]
        rw [hself]
        exact .driven task parcel started tasks carries polls observed (.inl ⟨wrapper, hawaits⟩)
      · simp_all
  | relayed outcome started wrapper waiting tasks sent polls observed =>
      simp only [Driving.pollRelay, sent]
      exact .settled outcome started (.inl rfl) rfl tasks polls (.inr (congrArg _ observed))
  | settled _ _ wrapper waiting => simp_all
  | _ => simp_all

theorem Phase.poll {s' : Driving} (h : Phase s) {flavour : Flavour} {poll : Poll}
    (hstep : completion.step s (.poll flavour poll) = some s') : Phase s' := by
  rcases Option.ite_none_right_eq_some.mp hstep with ⟨hwaiting, hs'⟩
  split at hs'
  · rename_i report transfer hwrapper
    exact Option.some.inj hs' ▸ h.pollInline hwaiting hwrapper
  · rename_i hwrapper
    exact Option.some.inj hs' ▸ h.pollRelay hwaiting hwrapper
  · rename_i hwrapper
    cases h with
    | driven _ _ _ _ _ _ _ caller => rcases caller with ⟨wrapper, -⟩ | ⟨wrapper, -⟩ <;> simp_all
    | _ => simp_all
  · cases hs'

theorem Phase.drop {s' : Driving} (h : Phase s) {flavour : Flavour}
    (hstep : completion.step s (.drop flavour) = some s') : Phase s' := by
  rcases Option.map_eq_some_iff.mp hstep with ⟨stage, hwrapper, rfl⟩
  cases h with
  | idle _ wrapper => simp_all
  | inline report started wrapper waiting tasks polls observed =>
      cases Option.some.inj (wrapper.symm.trans hwrapper)
      exact Phase.detached started rfl rfl tasks polls observed
  | unwound report outcome started wrapper waiting tasks polls observed =>
      cases Option.some.inj (wrapper.symm.trans hwrapper)
      exact .settled outcome started (.inr rfl) rfl tasks polls (.inr observed)
  | driven task parcel started tasks carries polls observed caller =>
      rcases caller with ⟨wrapper, hawaits⟩ | ⟨wrapper, -⟩
      · cases Option.some.inj (wrapper.symm.trans hwrapper)
        exact .driven task parcel started tasks carries polls observed
          (.inr ⟨rfl, rfl, fun _ _ => rfl⟩)
      · simp_all
  | relayed outcome started wrapper waiting tasks sent polls observed =>
      cases Option.some.inj (wrapper.symm.trans hwrapper)
      exact .settled outcome started (.inr rfl) rfl tasks polls (.inl observed)
  | settled outcome started wrapper waiting tasks polls observed =>
      rcases wrapper with wrapper | wrapper
      · cases Option.some.inj (wrapper.symm.trans hwrapper)
        exact .settled outcome started (.inr rfl) rfl tasks polls observed
      · simp_all

theorem Phase.pollTask {s' : Driving} (h : Phase s) {task : Task} {poll : Poll}
    (hstep : completion.step s (.pollTask task poll) = some s') : Phase s' := by
  rcases Option.ite_none_right_eq_some.mp hstep with ⟨hmem, hs'⟩
  cases h with
  | driven task' parcel started tasks carries polls observed caller =>
      have htask : task = task' := List.mem_singleton.mp (tasks ▸ hmem)
      subst htask
      have hempty : (s.finish task).tasks = [] := by simp [Driving.finish, tasks]
      cases carries with
      | onRuntime runtime =>
          rcases Option.ite_none_left_eq_some.mp hs' with ⟨-, hs'⟩
          cases Option.some.inj hs'
          cases poll with
          | pending =>
              exact .driven _ parcel started (congrArg _ hempty) (.onRuntime runtime)
                polls.pending observed (caller.congr rfl rfl rfl)
          | ready =>
              exact Phase.concluded started hempty polls.ready observed (caller.congr rfl rfl rfl)
          | panicked payload =>
              exact Phase.concluded started hempty (polls.panicked payload) observed
                (caller.congr rfl rfl rfl)
      | onCompletion =>
          cases Option.some.inj hs'
          cases poll with
          | pending =>
              exact .driven _ parcel started tasks .onCompletion polls.pending observed
                (caller.congr rfl rfl rfl)
          | ready =>
              exact Phase.concluded started hempty polls.ready observed (caller.congr rfl rfl rfl)
          | panicked payload =>
              exact Phase.concluded started hempty (polls.panicked payload) observed
                (caller.congr rfl rfl rfl)
  | _ => simp_all

theorem Phase.shutdown (h : Phase s) (shut : Runtime → Bool) : Phase { s with shut := shut } := by
  cases h with
  | idle started wrapper waiting tasks polls observed =>
      exact .idle started wrapper waiting tasks polls observed
  | inline report started wrapper waiting tasks polls observed =>
      exact .inline report started wrapper waiting tasks polls observed
  | unwound report outcome started wrapper waiting tasks polls observed =>
      exact .unwound report outcome started wrapper waiting tasks polls observed
  | driven task parcel started tasks carries polls observed caller =>
      exact .driven task parcel started tasks carries polls observed (caller.congr rfl rfl rfl)
  | relayed outcome started wrapper waiting tasks sent polls observed =>
      exact .relayed outcome started wrapper waiting tasks sent polls observed
  | settled outcome started wrapper waiting tasks polls observed =>
      exact .settled outcome started wrapper waiting tasks polls observed

/-- A shut down runtime drops the task: its parcel goes on as it is. -/
theorem dropTask_spec {runtime : Runtime} {parcel : Parcel}
    (tasks : s.tasks = [.onRuntime runtime { work := some parcel, transferOnDrop := true }]) :
    (s.finish (.onRuntime runtime { work := some parcel, transferOnDrop := true })).dropDetached
      { work := some parcel, transferOnDrop := true } =
        { s with tasks := [.onCompletion parcel] } := by
  simp [Driving.dropDetached, Driving.finish, Driving.spawn, tasks]

theorem Phase.dropTask {s' : Driving} (h : Phase s) {runtime : Runtime} {future : DetachedWork}
    (hstep : completion.step s (.dropTask runtime future) = some s') : Phase s' := by
  rcases Option.ite_none_right_eq_some.mp hstep with ⟨hmem, hs'⟩
  cases h with
  | driven task' parcel started tasks carries polls observed caller =>
      have htask : .onRuntime runtime future = task' := List.mem_singleton.mp (tasks ▸ hmem.1)
      subst htask
      cases carries
      rw [dropTask_spec tasks] at hs'
      cases Option.some.inj hs'
      exact .driven _ parcel started rfl .onCompletion polls observed (caller.congr rfl rfl rfl)
  | _ => simp_all

theorem Phase.step {s' : Driving} {a : Action} (h : Phase s)
    (hstep : completion.step s a = some s') : Phase s' := by
  cases a with
  | new report => exact h.new hstep
  | detach flavour =>
      rcases Option.ite_none_left_eq_some.mp hstep with ⟨hfresh, hs'⟩
      cases Option.some.inj hs'
      cases h with
      | idle _ wrapper waiting tasks polls observed =>
          exact Phase.detached rfl wrapper waiting tasks polls observed
      | _ => simp_all
  | poll flavour poll => exact h.poll hstep
  | drop flavour => exact h.drop hstep
  | pollTask task poll => exact h.pollTask hstep
  | shutdown runtime => exact Option.some.inj hstep ▸ h.shutdown _
  | dropTask runtime future => exact h.dropTask hstep

theorem phase_of_reachable {ok : Driving → Action → Prop} (h : completion.Reachable ok s) :
    Phase s :=
  h.invariant (.idle rfl rfl rfl rfl rfl rfl) fun _ hs _ hstep => hs.step hstep

/-! ## What the phases say -/

theorem Phase.owners_le (h : Phase s) : s.owners ≤ 1 := by
  cases h with
  | driven task parcel _ tasks carries _ _ caller =>
      have hwrapper : s.wrapper.any Stage.holds = false := by
        rcases caller with ⟨wrapper, -⟩ | ⟨wrapper, -⟩ <;> rw [wrapper] <;> rfl
      simp only [Driving.owners, hwrapper, tasks]
      exact Nat.le_trans (Nat.le_of_eq (Nat.zero_add _)) List.countP_le_length
  | inline _ _ wrapper _ tasks => simp [Driving.owners, wrapper, tasks, Stage.holds]
  | unwound _ _ _ wrapper _ tasks => simp [Driving.owners, wrapper, tasks, Stage.holds]
  | idle _ wrapper _ tasks => simp [Driving.owners, wrapper, tasks]
  | relayed _ _ wrapper _ tasks => simp [Driving.owners, wrapper, tasks, Stage.holds]
  | settled _ _ wrapper _ tasks =>
      rcases wrapper with wrapper | wrapper <;>
        simp [Driving.owners, wrapper, tasks, Stage.holds]

theorem Phase.polls_once (h : Phase s) : Unfinished s.polls.tail := by
  cases h with
  | idle _ _ _ _ polls => simp [polls, Unfinished]
  | inline _ _ _ _ _ polls => simp [polls, Unfinished]
  | driven _ _ _ _ _ polls => exact polls.tail
  | unwound _ _ _ _ _ _ polls => exact polls.before
  | relayed _ _ _ _ _ _ polls => exact polls.before
  | settled _ _ _ _ _ polls => exact polls.before

/-- A carried parcel is polled by its executor, or carried over when that is shut down. -/
theorem Task.Carries.live {task : Task} {parcel : Parcel} (h : task.Carries parcel)
    (tasks : s.tasks = [task]) : s.Live := by
  have hmem : task ∈ s.tasks := tasks ▸ List.mem_singleton.mpr rfl
  cases h with
  | onRuntime runtime =>
      by_cases hshut : s.shut runtime = true
      · refine .inr (.inr ⟨runtime, _, parcel, _, hshut, if_pos ⟨hmem, hshut⟩, ?_⟩)
        rw [dropTask_spec tasks]
      · refine .inr (.inl ⟨_, hmem, fun poll => ?_⟩)
        refine ⟨s.pollDetached runtime _ parcel poll,
          (if_pos hmem).trans (if_neg hshut), ?_⟩
        cases poll <;> cases parcel <;> simp only [Driving.pollDetached, Driving.conclude] <;>
          first | rfl | (simp only [Driving.send]; split <;> first | rfl | (split <;> rfl))
  | onCompletion =>
      refine .inr (.inl ⟨_, hmem, fun poll => ⟨s.pollCompletion parcel poll, if_pos hmem, ?_⟩⟩)
      cases poll <;> cases parcel <;> simp only [Driving.pollCompletion, Driving.conclude] <;>
        first | rfl | (simp only [Driving.send]; split <;> first | rfl | (split <;> rfl))

theorem Phase.live (h : Phase s) (started : s.started = true) (hending : ending s.polls = none) :
    s.Live := by
  cases h with
  | idle hidle => simp_all
  | inline report _ wrapper waiting =>
      refine .inl fun flavour poll => ⟨s.pollInline flavour report poll, ?_, ?_⟩
      · simp only [completion, waiting, wrapper, if_true]
      · cases poll with
        | pending =>
            rcases detach_spec { { s with wrapper := some .handedOff }.record .pending with
              relay := { receiver := true } } flavour (.relayed report) with ⟨task, -, heq⟩
            show (Driving.detach _ flavour (.relayed report)).polls = _
            rw [heq]
            rfl
        | ready => rfl
        | panicked payload => rfl
  | driven task parcel _ tasks carries => exact carries.live tasks
  | unwound _ _ _ _ _ _ polls => simp_all [polls.last]
  | relayed _ _ _ _ _ _ polls => simp_all [polls.last]
  | settled _ _ _ _ _ polls => simp_all [polls.last]

theorem Phase.observed_once (h : Phase s) :
    s.observed.length ≤ 1 ∧ ∀ outcome ∈ s.observed, ending s.polls = some outcome := by
  cases h with
  | idle _ _ _ _ _ observed => simp [observed]
  | inline _ _ _ _ _ _ observed => simp [observed]
  | driven _ _ _ _ _ _ observed => simp [observed]
  | relayed _ _ _ _ _ _ _ observed => simp [observed]
  | unwound _ _ _ _ _ _ polls observed => simp [observed, polls.last]
  | settled _ _ _ _ _ polls observed =>
      rcases observed with observed | observed <;> simp [observed, polls.last]

theorem Phase.answers (h : Phase s) (waiting : s.waiting = true) {outcome : OwnerOutcome}
    (hending : ending s.polls = some outcome) : s.Answers outcome := by
  cases h with
  | relayed outcome' _ wrapper _ _ sent polls observed =>
      have houtcome : outcome' = outcome := Option.some.inj (polls.last.symm.trans hending)
      intro flavour poll
      refine ⟨s.pollRelay, ?_, ?_⟩
      · simp only [completion, waiting, wrapper, if_true]
      · simp only [Driving.pollRelay, sent, Driving.observe, observed, houtcome, and_self]
  | inline _ _ _ _ _ polls => simp [polls, ending] at hending
  | driven _ _ _ _ _ polls => simp [polls.ending] at hending
  | _ => simp_all

/-- One driver, no poll after the end, no loss, and one answer for the caller that waits. -/
theorem committed_work {s : Driving} (h : completion.Reachable Automaton.anyRun s) :
    s.owners ≤ 1 ∧ Unfinished s.polls.tail ∧
      (s.started = true → ending s.polls = none → s.Live) ∧
      (s.observed.length ≤ 1 ∧ ∀ outcome ∈ s.observed, ending s.polls = some outcome) ∧
      ∀ outcome, s.waiting = true → ending s.polls = some outcome → s.Answers outcome :=
  have hphase := phase_of_reachable h
  ⟨hphase.owners_le, hphase.polls_once, hphase.live, hphase.observed_once,
    fun _ hwaiting hending => hphase.answers hwaiting hending⟩

/-- Handed off on runtime 3, carried over by its shutdown, and panicking after that. -/
def shutdownRun : List Action :=
  [.new none, .poll (.multiThread 3) .pending, .shutdown 3,
    .dropTask 3 { work := some (.relayed none), transferOnDrop := true },
    .pollTask (.onCompletion (.relayed none)) (.panicked "probe")]

theorem committed_work_shutdownRun :
    let s := completion.after (fun _ _ => true) shutdownRun (by decide)
    s.owners ≤ 1 ∧ Unfinished s.polls.tail ∧
      (s.started = true → ending s.polls = none → s.Live) ∧
      (s.observed.length ≤ 1 ∧ ∀ outcome ∈ s.observed, ending s.polls = some outcome) ∧
      ∀ outcome, s.waiting = true → ending s.polls = some outcome → s.Answers outcome :=
  committed_work (Automaton.reachable_after (fun _ _ _ => trivial) _ _)

end Completion
end CordisCore
