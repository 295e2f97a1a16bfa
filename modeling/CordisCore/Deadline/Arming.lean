import CordisCore.Deadline.Worker

/-!
# Arming — a deadline is inserted once a worker exists, and removed by its watchdog
-/

namespace CordisCore
namespace Deadline

open Interleaving

variable {p : Party} {s s' : DeadlineScheduler}

/-! ## Arming under the mutex -/

/-- The party holds the mutex and is not the worker. -/
structure Inside (p : Party) (s : DeadlineScheduler) : Prop where
  lock : s.lock = some p
  worker : s.trace.worker ≠ some p
  parked : ∀ wake, (p, wake) ∉ s.changed
  flag : s.schedule.workerRunning = s.trace.worker.isSome

theorem Inside.keeps (h : Inside p s) (hk : Keeps p s s') : Inside p s' where
  lock := hk.lock.mpr h.lock
  worker hw := h.worker (hk.worker.mp hw)
  parked wake hp := h.parked wake (hk.parked wake hp)
  flag := by
    rw [(hk.guarded h.lock).1, (hk.guarded h.lock).2.1]
    exact h.flag

theorem due_of_calm {op : Op} (h : Entitled p s op) (hu : p ∉ s.trace.unnotified) : Due p op s :=
  ⟨h, fun hmem => absurd hmem hu⟩

/-- An operation that changes nothing. -/
theorem wp_read {op : Op} {Q : op.Ret → DeadlineScheduler → Prop}
    (hforks : protocol.forks op = none)
    (hread : ∀ q c s s' r, exec p q c op s = some (s', r) → s' = s)
    (hentitled : ∀ s', Keeps p s s' → Entitled p s' op) (hu : p ∉ s.trace.unnotified)
    (h : ∀ s' q c r, Keeps p s s' → exec p q c op s' = some (s', r) → Q r s') :
    scheduling.wp p (perform op) Q s := by
  refine wp_op hforks (fun s' hk _ => due_of_calm (hentitled s' hk) fun hmem =>
    hu (hk.unnotified.mp hmem)) fun s' q c s'' r hk _ _ hexec => ?_
  have hsame := hread q c s' s'' r hexec
  subst hsame
  exact h s'' q c r hk hexec

/-- Taking the mutex. -/
theorem wp_lock (h : Out p s) :
    scheduling.wp p (perform .lock) (fun _ s' => Inside p s' ∧ p ∉ s'.trace.unnotified ∧
      (s.trace.history p = {} → s'.trace.history p = {}) ∧
      (s'.trace.history p).refused = (s.trace.history p).refused) s := by
  refine wp_op rfl (fun s' hk _ => due_of_calm trivial (h.keeps hk).unnotified)
    fun s' q c s'' r hk hs' hs'' hexec => ?_
  have hout := h.keeps hk
  have hfresh := fun h => fresh_keeps h hk
  have hrefused := hk.refused
  simp only [exec, Option.ite_none_right_eq_some, Option.some.injEq] at hexec
  rcases hexec with ⟨hfree, heq⟩
  cases heq
  exact ⟨⟨rfl, hout.worker, hout.parked, hs'.manned.flag hfree⟩, hout.unnotified, hfresh, hrefused⟩

/-- Giving the mutex back; the channels are as they were. -/
theorem wp_unlock {R : (Sender → History) → Prop} (h : Inside p s)
    (hR : ∀ s', Keeps p s s' → R s'.trace.history) :
    scheduling.wp p (perform .unlock) (fun _ s' => s'.lock ≠ some p ∧ s'.trace.worker ≠ some p ∧
      (∀ wake, (p, wake) ∉ s'.changed) ∧
      (p ∈ s'.trace.unnotified ↔ p ∈ s.trace.unnotified) ∧ R s'.trace.history) s := by
  refine wp_op rfl (fun s' hk _ => ⟨?_, fun _ => .inl rfl⟩) fun s' q c s'' r hk _ _ hexec => ?_
  · have h' := h.keeps hk
    refine ⟨h'.lock, fun hrunning => ?_, fun hrunning => .inl ?_⟩
    · rw [h'.flag] at hrunning
      exact Option.isSome_iff_ne_none.mp hrunning
    · rw [h'.flag] at hrunning
      exact Option.isNone_iff_eq_none.mp (Option.isSome_eq_false_iff.mp hrunning)
  · have h' := h.keeps hk
    have hhistory := hR s' hk
    have hunnotified := hk.unnotified
    cases hexec
    refine ⟨nofun, ?_, h'.parked, hunnotified, hhistory⟩
    show (if s'.schedule.workerRunning then s'.trace.worker else none) ≠ some p
    split
    · exact h'.worker
    · nofun

/-- A worker exists, the party holds the mutex and its channel is untouched. -/
structure Ready (p : Party) (s : DeadlineScheduler) : Prop extends Inside p s where
  unnotified : p ∉ s.trace.unnotified
  fresh : s.trace.history p = {}
  manned : s.trace.worker ≠ none

theorem Ready.keeps (h : Ready p s) (hk : Keeps p s s') : Ready p s' where
  toInside := h.toInside.keeps hk
  unnotified hu := h.unnotified (hk.unnotified.mp hu)
  fresh := fresh_keeps h.fresh hk
  manned := by
    rw [(hk.guarded h.lock).2.1]
    exact h.manned

/-- The thread was refused to this party. -/
structure Refused (p : Party) (s : DeadlineScheduler) : Prop extends Inside p s where
  unnotified : p ∉ s.trace.unnotified
  key : (s.trace.history p).key = none
  refused : (s.trace.history p).refused = true

theorem Refused.keeps (h : Refused p s) (hk : Keeps p s s') : Refused p s' where
  toInside := h.toInside.keeps hk
  unnotified hu := h.unnotified (hk.unnotified.mp hu)
  key := by
    rw [hk.fresh h.key]
    exact h.key
  refused := hk.refused.trans h.refused

/-- The thread is started; the flag is not set yet. -/
structure Started (p : Party) (s : DeadlineScheduler) : Prop where
  lock : s.lock = some p
  worker : s.trace.worker ≠ some p
  parked : ∀ wake, (p, wake) ∉ s.changed
  unnotified : p ∉ s.trace.unnotified
  fresh : s.trace.history p = {}
  manned : s.trace.worker ≠ none

theorem wp_startWorker {Q : Unit → DeadlineScheduler → Prop} (hu : p ∉ s.trace.unnotified)
    (hentitled : ∀ s', Keeps p s s' → Sound s' → Entitled p s' .startWorker)
    (h : ∀ s' q, Keeps p s s' → q ≠ p → Q () (s'.startWorker q)) :
    scheduling.wp p (perform .startWorker) Q s := by
  refine scheduling.wp_perform fun s' hk hs' => ?_
  have hdue := due_of_calm (hentitled s' hk hs') fun hmem => hu (hk.unnotified.mp hmem)
  refine ⟨hdue, ?_, nofun⟩
  refine Logic.Performs.of_fork rfl fun q c s'' r _ _ hexec hq hblank => ?_
  have hexec : exec p q c .startWorker s' = some (s'', r) := hexec
  have hs'' := sound_exec hs' hdue hexec
  have hkeeps : ∀ t, t ≠ p → t ≠ q → Keeps t s' s'' := fun t ht htq =>
    exec_keeps hs' hdue hexec ht fun _ => htq
  cases hexec
  refine ⟨hs'', hkeeps, ?_, h s' q hk hq⟩
  have hblank : Blank q s' := hblank
  refine { worker := rfl, unnotified := hblank.unnotified, refused := ?_, lock := hblank.lock,
           parked := hblank.parked, due := hdue.entitled.2.1 }
  show (s'.trace.history q).refused = false
  rw [hblank.fresh]

theorem wp_ensureWorker (hs : Sound s) (h : Inside p s) (hu : p ∉ s.trace.unnotified)
    (hfresh : s.trace.history p = {}) :
    scheduling.wp p ensureWorker (fun r s' =>
      match r with
      | .ok _ => Ready p s'
      | .error _ => Refused p s') s := by
  have hrunning : scheduling.wp p (perform .workerRunning) (fun running s' => Inside p s' ∧
      p ∉ s'.trace.unnotified ∧ s'.trace.history p = {} ∧
      running = s'.schedule.workerRunning) s := by
    refine wp_read rfl (fun _ _ _ _ _ hexec => by cases hexec; rfl) (fun _ _ => trivial) hu
      fun s' q c r hk hexec => ?_
    cases hexec
    exact ⟨h.keeps hk, fun hmem => hu (hk.unnotified.mp hmem), fresh_keeps hfresh hk, rfl⟩
  -- the flag is read under the lock, so it says whether there is a worker
  refine scheduling.wp_seq hs hrunning fun running s₁ hs₁ h₁ => ?_
  rcases h₁ with ⟨hinside, hu₁, hfresh₁, hflag⟩
  cases running with
  | true =>
      refine ⟨hinside, hu₁, hfresh₁, ?_⟩
      exact Option.isSome_iff_ne_none.mp (hinside.flag.symm.trans hflag.symm)
  | false =>
      -- no worker: the arming thread starts one, unless the platform refuses
      have hnone : s₁.trace.worker = none := by
        rw [hinside.flag] at hflag
        exact Option.isNone_iff_eq_none.mp (Option.isSome_eq_false_iff.mp hflag.symm)
      have hspawn : scheduling.wp p spawnWorker (fun r s' =>
          match r with
          | .ok _ => Started p s'
          | .error _ => Refused p s') s₁ := by
        have hrefuse : scheduling.wp p (perform .refuseSpawn) (fun refused s' =>
            (refused = true → Refused p s') ∧ (refused = false → Inside p s' ∧
              p ∉ s'.trace.unnotified ∧ s'.trace.history p = {} ∧ s'.trace.worker = none)) s₁ := by
          refine wp_op rfl (fun s' hk _ => due_of_calm ⟨(hinside.keeps hk).lock, fun _ => ?_⟩
            fun hmem => hu₁ (hk.unnotified.mp hmem)) fun s' q c s'' r hk _ _ hexec => ?_
          · rw [fresh_keeps hfresh₁ hk]
          · have h' := hinside.keeps hk
            have hu' : p ∉ s'.trace.unnotified := fun hmem => hu₁ (hk.unnotified.mp hmem)
            have hfresh' := fresh_keeps hfresh₁ hk
            have hnone' : s'.trace.worker = none := ((hk.guarded hinside.lock).2.1).trans hnone
            simp only [exec, Option.some.injEq] at hexec
            cases hanswer : c.answer with
            | false =>
                rw [hanswer] at hexec
                cases hexec
                exact ⟨by simp, fun _ => ⟨h', hu', hfresh', hnone'⟩⟩
            | true =>
                rw [hanswer] at hexec
                cases hexec
                refine ⟨fun _ => ?_, by simp⟩
                have hrefuse : s'.refuse p = s'.record p fun h => { h with refused := true } := by
                  rw [DeadlineScheduler.refuse, if_neg h'.worker]
                rw [if_pos rfl, hrefuse]
                refine ⟨⟨h'.lock, h'.worker, h'.parked, h'.flag⟩, hu', ?_, ?_⟩
                · rw [history_record, if_pos rfl, hfresh']
                · rw [history_record, if_pos rfl]
        refine scheduling.wp_seq hs₁ hrefuse fun refused s₂ hs₂ h₂ => ?_
        cases refused with
        | true => exact h₂.1 rfl
        | false =>
            rcases h₂.2 rfl with ⟨hinside₂, hu₂, hfresh₂, hnone₂⟩
            refine scheduling.wp_seq hs₂ (R := fun _ s' => Started p s')
              (wp_startWorker hu₂ (fun s' hk hs' => ?_) fun s' q hk hq => ?_) fun _ _ _ h => h
            · have hnone' : s'.trace.worker = none :=
                ((hk.guarded hinside₂.lock).2.1).trans hnone₂
              exact ⟨(hinside₂.keeps hk).lock, hs'.manned.idle hnone', .inl hnone'⟩
            · have h' := hinside₂.keeps hk
              have hfresh' := fresh_keeps hfresh₂ hk
              exact ⟨h'.lock, fun heq => hq (Option.some.inj heq), h'.parked,
                fun hmem => hu₂ (hk.unnotified.mp hmem), hfresh', by rintro ⟨⟩⟩
      refine scheduling.wp_seq hs₁ hspawn fun r s₂ hs₂ h₂ => ?_
      cases r with
      | error e => exact h₂
      | ok started =>
          have h₂ : Started p s₂ := h₂
          -- the flag is set only after the thread was started
          have hset : scheduling.wp p (perform (.setWorkerRunning true))
              (fun _ s' => Ready p s') s₂ := by
            refine wp_op rfl (fun s' hk _ => due_of_calm (hk.lock.mpr h₂.lock) fun hmem =>
              h₂.unnotified (hk.unnotified.mp hmem)) fun s' q c s'' r hk _ _ hexec => ?_
            have hlock := hk.lock.mpr h₂.lock
            have hworker : s'.trace.worker ≠ some p := fun hw => h₂.worker (hk.worker.mp hw)
            have hparked : ∀ wake, (p, wake) ∉ s'.changed := fun wake hp =>
              h₂.parked wake (hk.parked wake hp)
            have hu' : p ∉ s'.trace.unnotified := fun hmem => h₂.unnotified (hk.unnotified.mp hmem)
            have hfresh' := fresh_keeps h₂.fresh hk
            have hmanned : s'.trace.worker ≠ none := by
              rw [(hk.guarded h₂.lock).2.1]
              exact h₂.manned
            cases hexec
            exact ⟨⟨hlock, hworker, hparked, (Option.isSome_iff_ne_none.mpr hmanned).symm⟩, hu',
              hfresh', hmanned⟩
          exact scheduling.wp_seq hs₂ hset fun _ _ _ h => h

/-- Outside the mutex, with a channel that nobody was refused a thread for. -/
structure Calm (p : Party) (s : DeadlineScheduler) : Prop extends Out p s where
  refused : (s.trace.history p).refused = false

theorem Calm.keeps (h : Calm p s) (hk : Keeps p s s') : Calm p s' :=
  ⟨h.toOut.keeps hk, hk.refused.trans h.refused⟩

theorem Blank.calm (h : Blank p s) : Calm p s :=
  ⟨h.toOut, by rw [h.fresh]⟩

/-- Dropping one's own sender that never had an entry. -/
theorem wp_dropOwn {r : Bool} (h : Out p s) (hkey : (s.trace.history p).key = none)
    (hrefused : (s.trace.history p).refused = r) :
    scheduling.wp p (perform (.dropSender p))
      (fun _ s' => Out p s' ∧ (s'.trace.history p).refused = r) s := by
  have hkey' : ∀ {s'}, Keeps p s s' → (s'.trace.history p).key = none := fun hk => by
    rw [hk.fresh hkey]
    exact hkey
  refine wp_op rfl (fun s' hk _ => due_of_calm (.inr ⟨rfl, hkey' hk⟩) (h.keeps hk).unnotified)
    fun s' q c s'' ret hk _ _ hexec => ?_
  have h' := h.keeps hk
  have hrefused' := hk.refused.trans hrefused
  cases hexec
  refine ⟨⟨h'.lock, h'.worker, h'.unnotified, h'.parked⟩, ?_⟩
  rw [DeadlineScheduler.dropSender, history_record, if_pos rfl]
  exact hrefused'

/-- The key is fresh, and its entry is not there yet. -/
structure Keyed (p : Party) (key : DeadlineKey) (s : DeadlineScheduler) : Prop
    extends Ready p s where
  before : ∀ other ∈ s.schedule.armed, other.id < key.id
  id : key.id < s.schedule.nextId

theorem Keyed.keeps {key : DeadlineKey} (h : Keyed p key s) (hk : Keeps p s s') :
    Keyed p key s' where
  toReady := h.toReady.keeps hk
  before := by
    rw [(hk.guarded h.lock).1]
    exact h.before
  id := by
    rw [(hk.guarded h.lock).1]
    exact h.id

/-- Once the entry is there its owner owes a notification exactly if it is the earliest. -/
theorem wp_insertEntry {key : DeadlineKey} (earliest : Bool) (h : Keyed p key s)
    (hearliest : earliest = s.earliest key) :
    scheduling.wp p (perform (.insertEntry key p)) (fun _ s' => Inside p s' ∧
      (p ∈ s'.trace.unnotified ↔ earliest = true) ∧
      (s'.trace.history p).refused = false) s := by
  refine wp_op rfl (fun s' hk _ => ?_) fun s' q c s'' r hk _ _ hexec => ?_
  · have h' := h.keeps hk
    exact due_of_calm ⟨h'.lock, h'.manned, h'.before, h'.id, rfl, h'.fresh⟩ h'.unnotified
  · have h' := h.keeps hk
    have hsame : s'.earliest key = earliest := by
      rw [hearliest, DeadlineScheduler.earliest, (hk.guarded h.lock).1]
      rfl
    cases hexec
    refine ⟨⟨h'.lock, h'.worker, h'.parked, h'.flag⟩, ?_, ?_⟩
    · show p ∈ (if s'.earliest key then p :: s'.trace.unnotified else s'.trace.unnotified) ↔ _
      rw [hsame]
      cases earliest with
      | true => simp
      | false => simpa using h'.unnotified
    · show (if p = p then { s'.trace.history p with key := some key }
        else s'.trace.history p).refused = false
      rw [if_pos rfl, h'.fresh]

theorem wp_notifyOne (h : s.lock ≠ some p ∧ s.trace.worker ≠ some p ∧
    (∀ wake, (p, wake) ∉ s.changed) ∧ (s.trace.history p).refused = false) :
    scheduling.wp p (perform .notifyOne) (fun _ s' => Calm p s') s := by
  refine wp_op rfl (fun s' hk _ => ⟨trivial, fun _ => .inr rfl⟩) fun s' q c s'' r hk _ _ hexec => ?_
  have hlock : s'.lock ≠ some p := fun hl => h.1 (hk.lock.mp hl)
  have hworker : s'.trace.worker ≠ some p := fun hw => h.2.1 (hk.worker.mp hw)
  have hparked : ∀ wake, (p, wake) ∉ s'.changed := fun wake hp => h.2.2.1 wake (hk.parked wake hp)
  have hrefused := hk.refused.trans h.2.2.2
  cases hexec
  refine ⟨⟨hlock, hworker, ?_, fun wake hp => hparked wake (List.mem_of_mem_tail hp)⟩, hrefused⟩
  simp [DeadlineScheduler.notifyOne, DeadlineScheduler.track]

theorem wp_setNextId (deadline : Instant) (h : Ready p s) :
    scheduling.wp p (perform (.setNextId (s.schedule.nextId + 1)))
      (fun _ s' => Keyed p { deadline := deadline, id := s.schedule.nextId } s') s := by
  refine wp_op rfl (fun s' hk _ => due_of_calm ⟨(h.keeps hk).lock, ?_⟩ (h.keeps hk).unnotified)
    fun s' q c s'' r hk hs' _ hexec => ?_
  · rw [(hk.guarded h.lock).1]
    exact Nat.le_succ _
  · have h' := h.keeps hk
    have hids := hs'.manned.ids
    rw [(hk.guarded h.lock).1] at hids
    have hschedule := (hk.guarded h.lock).1
    cases hexec
    refine ⟨⟨⟨h'.lock, h'.worker, h'.parked, h'.flag⟩, h'.unnotified, h'.fresh, h'.manned⟩, ?_,
      Nat.lt_succ_self _⟩
    rw [← hschedule] at hids ⊢
    exact hids

theorem wp_insert {deadline : Instant} (hs : Sound s) (h : Blank p s) :
    scheduling.wp p (insert deadline p) (fun r s' => Out p s' ∧
      (s'.trace.history p).refused = !r.isOk) s := by
  refine scheduling.wp_seq hs (wp_lock h.toOut) fun _ s₁ hs₁ h₁ => ?_
  refine scheduling.wp_seq hs₁ (wp_ensureWorker hs₁ h₁.1 h₁.2.1 (h₁.2.2.1 h.fresh))
    fun r s₂ hs₂ h₂ => ?_
  cases r with
  | error e =>
      -- no worker could be spawned: nothing is armed and the slot is dropped
      have h₂ : Refused p s₂ := h₂
      refine scheduling.wp_seq hs₂ (wp_unlock (R := fun history =>
        (history p).key = none ∧ (history p).refused = true) h₂.toInside fun s' hk =>
          ⟨(h₂.keeps hk).key, (h₂.keeps hk).refused⟩) fun _ s₃ hs₃ h₃ => ?_
      rcases h₃ with ⟨hlock, hworker, hparked, hu, hkey, hrefused⟩
      have hout : Out p s₃ := ⟨hlock, hworker, fun hmem => h₂.unnotified (hu.mp hmem), hparked⟩
      exact scheduling.wp_seq hs₃ (wp_dropOwn hout hkey hrefused) fun _ _ _ h => h
  | ok started =>
      have h₂ : Ready p s₂ := h₂
      have hid : scheduling.wp p (perform .nextId)
          (fun id s' => Ready p s' ∧ id = s'.schedule.nextId) s₂ := by
        refine wp_read rfl (fun _ _ _ _ _ hexec => by cases hexec; rfl) (fun _ _ => trivial)
          h₂.unnotified fun s' q c r hk hexec => ?_
        cases hexec
        exact ⟨h₂.keeps hk, rfl⟩
      refine scheduling.wp_seq hs₂ hid fun id s₃ hs₃ h₃ => ?_
      rcases h₃ with ⟨h₃, rfl⟩
      split
      · refine scheduling.wp_seq hs₃ (wp_unlock (R := fun history => history p = {}) h₃.toInside
          fun s' hk => (h₃.keeps hk).fresh) fun _ s₄ hs₄ h₄ => ?_
        rcases h₄ with ⟨hlock, hworker, hparked, hu, hfresh⟩
        have hout : Out p s₄ := ⟨hlock, hworker, fun hmem => h₃.unnotified (hu.mp hmem), hparked⟩
        refine scheduling.wp_seq hs₄ (wp_dropOwn (r := false) hout (by rw [hfresh])
          (by rw [hfresh])) fun _ s₅ hs₅ h₅ => ?_
        -- ids have run out: the panic is the end of the call
        refine scheduling.wp_seq hs₅ (R := fun _ _ => False) ?_ fun impossible _ _ _ => nomatch impossible
        refine wp_op rfl (fun s' hk _ => due_of_calm trivial (h₅.1.keeps hk).unnotified) ?_
        intro s' q c s'' r _ _ _ hexec
        cases hexec
      · refine scheduling.wp_seq hs₃ (wp_setNextId deadline h₃) fun _ s₄ hs₄ h₄ => ?_
        have hfirst : scheduling.wp p (perform .firstKeyValue) (fun first s' =>
            Keyed p { deadline := deadline, id := s₃.schedule.nextId } s' ∧
              first = s'.schedule.first) s₄ := by
          refine wp_read rfl (fun _ _ _ _ _ hexec => by cases hexec; rfl) (fun _ _ => trivial)
            h₄.unnotified fun s' q c r hk hexec => ?_
          cases hexec
          exact ⟨h₄.keeps hk, rfl⟩
        refine scheduling.wp_seq hs₄ hfirst fun first s₅ hs₅ h₅ => ?_
        refine scheduling.wp_seq hs₅ (wp_insertEntry _ h₅.1 (congrArg (Option.all _) h₅.2))
          fun _ s₆ hs₆ h₆ => ?_
        refine scheduling.wp_seq hs₆ (wp_unlock (R := fun history => (history p).refused = false)
          h₆.1 fun s' hk => hk.refused.trans h₆.2.2) fun _ s₇ hs₇ h₇ => ?_
        rcases h₇ with ⟨hlock, hworker, hparked, hu, hrefused⟩
        have hu := hu.trans h₆.2.1
        -- only a new first deadline needs the worker to look again
        split
        · refine scheduling.wp_seq hs₇ (wp_notifyOne ⟨hlock, hworker, hparked, hrefused⟩)
            fun _ s₈ _ h₈ => ⟨h₈.toOut, h₈.refused⟩
        · rename_i hnot
          exact ⟨⟨hlock, hworker, fun hmem => hnot (hu.mp hmem), hparked⟩, hrefused⟩

/-- What is left after an arm. -/
def ArmPost (p : Party) (r : Except DeadlineUnavailable Slot) (s : DeadlineScheduler) : Prop :=
  match r with
  | .ok .never => Blank p s
  | .ok _ => Calm p s
  | .error _ => Out p s ∧ (s.trace.history p).refused = true

theorem wp_arm {timeout : Nat} (hs : Sound s) (h : Blank p s) :
    scheduling.wp p (arm timeout p) (ArmPost p) s := by
  have hread : ∀ {op : Op} {s : DeadlineScheduler}, protocol.forks op = none →
      (∀ q c s s' r, exec p q c op s = some (s', r) → s' = s) → (∀ s, Entitled p s op) →
      Blank p s → scheduling.wp p (perform op) (fun _ s' => Blank p s') s := by
    intro op s hforks hsame hentitled hblank
    exact wp_read hforks hsame (fun s' _ => hentitled s') hblank.unnotified fun s' _ _ _ hk _ =>
      hblank.keeps hk
  refine scheduling.wp_seq hs (hread rfl (fun _ _ _ _ _ hexec => by cases hexec; rfl)
    (fun _ => trivial) h) fun now s₁ hs₁ h₁ => ?_
  refine scheduling.wp_seq hs₁ (hread rfl (fun _ _ _ _ _ hexec => by cases hexec; rfl)
    (fun _ => trivial) h₁) fun deadline s₂ hs₂ h₂ => ?_
  cases deadline with
  | none => exact h₂
  | some deadline =>
      dsimp only
      split
      · have hsend : scheduling.wp p (perform (.send p)) (fun _ s' => Calm p s') s₂ := by
          refine wp_op rfl (fun s' hk _ => due_of_calm (.inr ⟨rfl, (h₂.keeps hk).fresh⟩)
            (h₂.keeps hk).unnotified) fun s' q c s'' r hk _ _ hexec => ?_
          have h' := h₂.keeps hk
          cases hexec
          refine ⟨⟨h'.lock, h'.worker, h'.unnotified, h'.parked⟩, ?_⟩
          have hhistory : (s'.send p).trace.history p =
              { s'.trace.history p with fired := s'.now :: (s'.trace.history p).fired } := if_pos rfl
          rw [hhistory, h'.fresh]
        exact scheduling.wp_seq hs₂ hsend fun _ _ _ h => h
      · refine scheduling.wp_seq hs₂ (wp_insert hs₂ h₂) fun r s₃ hs₃ h₃ => ?_
        cases r with
        | ok key => exact ⟨h₃.1, h₃.2⟩
        | error e => exact h₃

/-! ## Dropping a watchdog -/

theorem wp_disarm {key : DeadlineKey} (hs : Sound s) (h : Calm p s) :
    scheduling.wp p (disarm key) (fun _ s' => Calm p s') s := by
  refine scheduling.wp_seq hs (wp_lock h.toOut) fun _ s₁ hs₁ h₁ => ?_
  rcases h₁ with ⟨hinside, hu, -, hrefused⟩
  have hrefused : (s₁.trace.history p).refused = false := hrefused.trans h.refused
  have hremove : scheduling.wp p (perform (.disarmEntry key)) (fun removed s' => Inside p s' ∧
      p ∉ s'.trace.unnotified ∧ (s'.trace.history p).refused = false ∧
      ∀ sender, removed = some sender → (s'.trace.history sender).disarmed = true) s₁ := by
    refine wp_op rfl (fun s' hk _ => due_of_calm (hinside.keeps hk).lock fun hmem =>
      hu (hk.unnotified.mp hmem)) fun s' q c s'' r hk _ _ hexec => ?_
    have h' := hinside.keeps hk
    have hu' : p ∉ s'.trace.unnotified := fun hmem => hu (hk.unnotified.mp hmem)
    have hrefused' := hk.refused.trans hrefused
    have hout : s'.disarmEntry key = (s'', r) := Option.some.inj hexec
    unfold DeadlineScheduler.disarmEntry at hout
    split at hout
    · cases hout
      refine ⟨⟨h'.lock, h'.worker, h'.parked, h'.flag⟩, hu', ?_, fun sender hsender => ?_⟩
      · rw [history_record]
        split <;> exact hrefused'
      · cases hsender
        rw [history_record, if_pos rfl]
    · cases hout
      exact ⟨⟨h'.lock, h'.worker, h'.parked, h'.flag⟩, hu', hrefused', nofun⟩
  refine scheduling.wp_seq hs₁ hremove fun removed s₂ hs₂ h₂ => ?_
  refine scheduling.wp_seq hs₂ (wp_unlock (R := fun history => (history p).refused = false ∧
    ∀ sender, removed = some sender → (history sender).disarmed = true) h₂.1 fun s' hk =>
      ⟨hk.refused.trans h₂.2.2.1, fun sender hsender =>
        hk.disarmed sender (h₂.2.2.2 sender hsender)⟩) fun _ s₃ hs₃ h₃ => ?_
  rcases h₃ with ⟨hlock, hworker, hparked, hu₃, hrefused₃, hdisarmed⟩
  have hcalm : Calm p s₃ :=
    ⟨⟨hlock, hworker, fun hmem => h₂.2.1 (hu₃.mp hmem), hparked⟩, hrefused₃⟩
  cases removed with
  | none => exact hcalm
  | some sender =>
      refine wp_op rfl (fun s' hk _ => due_of_calm (.inl (hk.disarmed sender (hdisarmed sender rfl)))
        (hcalm.keeps hk).unnotified) fun s' q c s'' r hk _ _ hexec => ?_
      have h' := hcalm.keeps hk
      cases hexec
      refine ⟨⟨h'.lock, h'.worker, h'.unnotified, h'.parked⟩, ?_⟩
      rw [DeadlineScheduler.dropSender, history_record]
      split <;> exact h'.refused

theorem wp_dropWatchdog {slot : Slot} (hs : Sound s) (h : ArmPost p (.ok slot) s) :
    scheduling.wp p (dropWatchdog p slot) (fun _ s' => Calm p s') s := by
  have hclose : ∀ {P : DeadlineScheduler → Prop}, (∀ {s s'}, P s → Keeps p s s' → P s') →
      (∀ s, P s → Out p s) → (∀ s, P s → P (s.close p)) → P s →
      scheduling.wp p (perform (.close p)) (fun _ s' => P s') s := by
    intro P hkeeps hout hclosed hP
    refine wp_op rfl (fun s' hk _ => due_of_calm trivial (hout s' (hkeeps hP hk)).unnotified)
      fun s' q c s'' r hk _ _ hexec => ?_
    have h' := hkeeps hP hk
    cases hexec
    exact hclosed s' h'
  have hcalm : ∀ s : DeadlineScheduler, Calm p s → Calm p (s.close p) := fun s h =>
    ⟨⟨h.lock, h.worker, h.unnotified, h.parked⟩, h.refused⟩
  cases slot with
  | armed key =>
      exact scheduling.wp_seq hs (hclose Calm.keeps (fun _ h => h.toOut) hcalm h)
        fun _ s₁ hs₁ h₁ => wp_disarm hs₁ h₁
  | never =>
      refine scheduling.wp_seq hs (hclose Blank.keeps (fun _ h => h.toOut) (fun s h =>
        ⟨⟨h.lock, h.worker, h.unnotified, h.parked⟩, h.fresh⟩) h) fun _ s₁ hs₁ h₁ => ?_
      refine scheduling.wp_mono hs₁ (wp_dropOwn h₁.toOut (by rw [h₁.fresh]) (by rw [h₁.fresh]))
        fun _ s₂ _ h₂ => ⟨h₂.1, h₂.2⟩
  | fired =>
      exact scheduling.wp_seq hs (hclose Calm.keeps (fun _ h => h.toOut) hcalm h)
        fun _ _ _ h => h

theorem wp_watch {timeout : Nat} (hs : Sound s) (h : Blank p s) :
    scheduling.wp p (watch timeout) (Ended p) s := by
  have hchannel : scheduling.wp p (perform .channel)
      (fun sender s' => Blank p s' ∧ sender = p) s := by
    refine wp_read rfl (fun _ _ _ _ _ hexec => by cases hexec; rfl) (fun _ _ => trivial)
      h.unnotified fun s' q c r hk hexec => ?_
    cases hexec
    exact ⟨h.keeps hk, rfl⟩
  refine scheduling.wp_seq hs hchannel fun sender s₁ hs₁ h₁ => ?_
  rcases h₁ with ⟨h₁, rfl⟩
  refine scheduling.wp_seq hs₁ (wp_arm hs₁ h₁) fun r s₂ hs₂ h₂ => ?_
  cases r with
  | error e => exact ⟨h₂.1, fun _ => rfl, fun _ => h₂.2⟩
  | ok slot =>
      have hhold : scheduling.wp sender (perform .hold)
          (fun _ s' => ArmPost sender (.ok slot) s') s₂ := by
        have hout : Out sender s₂ := by
          cases slot <;> exact h₂.toOut
        refine wp_read rfl (fun _ _ _ _ _ hexec => by cases hexec; rfl) (fun _ _ => trivial)
          hout.unnotified fun s' q c r hk _ => ?_
        cases slot with
        | never => exact Blank.keeps h₂ hk
        | armed key => exact Calm.keeps h₂ hk
        | fired => exact Calm.keeps h₂ hk
      refine scheduling.wp_seq hs₂ hhold fun _ s₃ hs₃ h₃ => ?_
      refine scheduling.wp_seq hs₃ (wp_dropWatchdog hs₃ h₃) fun _ s₄ _ h₄ => ?_
      refine ⟨h₄.toOut, ?_⟩
      rw [h₄.refused]
      exact ⟨nofun, nofun⟩

end Deadline
end CordisCore
