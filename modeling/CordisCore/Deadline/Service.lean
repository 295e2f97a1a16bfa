import CordisCore.Deadline.Arming

/-!
# The service — the worker thread, and what holds in every run
-/

namespace CordisCore
namespace Deadline

open Interleaving

variable {p : Party} {s s' : DeadlineScheduler} {due : List Sender}

/-! ## The worker thread -/

/-- The worker holds the mutex, with these senders in its hands. -/
structure Holding (p : Party) (due : List Sender) (s : DeadlineScheduler) : Prop
    extends Serving p s where
  lock : s.lock = some p
  parked : ∀ wake, (p, wake) ∉ s.changed
  due : s.trace.due = due
  running : s.schedule.workerRunning = true

theorem Holding.keeps (h : Holding p due s) (hk : Keeps p s s') : Holding p due s' where
  toServing := h.toServing.keeps hk
  lock := hk.lock.mpr h.lock
  parked wake hp := h.parked wake (hk.parked wake hp)
  due := (hk.due h.worker).trans h.due
  running := by
    rw [(hk.guarded h.lock).1]
    exact h.running

theorem wp_lockWorker (h : Loose p due s) :
    scheduling.wp p (perform .lock) (fun _ s' => Holding p due s') s := by
  refine wp_op rfl (fun s' hk _ => due_of_calm trivial (h.keeps hk).unnotified)
    fun s' q c s'' r hk hs' _ hexec => ?_
  have h' := h.keeps hk
  simp only [exec, Option.ite_none_right_eq_some, Option.some.injEq] at hexec
  rcases hexec with ⟨hfree, heq⟩
  cases heq
  refine ⟨⟨h'.worker, h'.unnotified, h'.refused⟩, rfl, h'.parked, h'.due, ?_⟩
  show s'.schedule.workerRunning = true
  rw [hs'.manned.flag hfree, h'.worker]
  rfl

theorem wp_unlockWorker (h : Holding p due s) :
    scheduling.wp p (perform .unlock) (fun _ s' => Loose p due s') s := by
  refine wp_op rfl (fun s' hk _ => due_of_calm ⟨(h.keeps hk).lock, fun _ => ?_, fun hfalse => ?_⟩
    (h.keeps hk).unnotified) fun s' q c s'' r hk _ _ hexec => ?_
  · rw [(h.keeps hk).worker]
    nofun
  · rw [(h.keeps hk).running] at hfalse
    cases hfalse
  · have h' := h.keeps hk
    cases hexec
    refine ⟨⟨?_, h'.unnotified, h'.refused⟩, nofun, h'.parked, h'.due⟩
    show (if s'.schedule.workerRunning then s'.trace.worker else none) = some p
    rw [if_pos h'.running, h'.worker]

/-- Reading the schedule under the mutex. -/
theorem wp_firstKeyValue (h : Holding p due s) :
    scheduling.wp p (perform .firstKeyValue) (fun first s' => Holding p due s' ∧
      first = s'.schedule.first ∧ s.now ≤ s'.now) s := by
  refine wp_read rfl (fun _ _ _ _ _ hexec => by cases hexec; rfl) (fun _ _ => trivial)
    h.unnotified fun s' q c r hk hexec => ?_
  cases hexec
  exact ⟨h.keeps hk, rfl, hk.now⟩

theorem wp_popEntry {key : DeadlineKey} {now : Instant} (h : Holding p due s) (hnow : now ≤ s.now)
    (hkey : key.deadline ≤ now) :
    scheduling.wp p (perform (.popEntry key)) (fun sender s' =>
      Holding p (due ++ sender.toList) s' ∧ now ≤ s'.now) s := by
  refine wp_op rfl (fun s' hk _ => due_of_calm ⟨(h.keeps hk).lock, (h.keeps hk).worker,
    hkey.trans (hnow.trans hk.now)⟩ (h.keeps hk).unnotified) fun s' q c s'' r hk _ _ hexec => ?_
  have h' := h.keeps hk
  have hnow' := hnow.trans hk.now
  have hout : s'.popEntry key = (s'', r) := Option.some.inj hexec
  unfold DeadlineScheduler.popEntry at hout
  split at hout
  · rename_i sender _
    cases hout
    refine ⟨⟨⟨h'.worker, h'.unnotified, h'.refused⟩, h'.lock, h'.parked, ?_, h'.running⟩, hnow'⟩
    show s'.trace.due ++ [sender] = due ++ [sender]
    rw [h'.due]
  · cases hout
    refine ⟨⟨⟨h'.worker, h'.unnotified, h'.refused⟩, h'.lock, h'.parked, ?_, h'.running⟩, hnow'⟩
    show s'.trace.due = due ++ []
    rw [h'.due, List.append_nil]

theorem wp_takeDue {now : Instant} (h : Holding p due s) (hnow : now ≤ s.now) :
    scheduling.wp p (takeDue now due) (fun due s' => Holding p due s') s := by
  refine scheduling.wp_iterate (fun due s' => Holding p due s' ∧ now ≤ s'.now) ⟨h, hnow⟩ ?_
  intro due s₁ hs₁ h₁
  refine scheduling.wp_seq hs₁ (wp_firstKeyValue h₁.1) fun first s₂ hs₂ h₂ => ?_
  cases first with
  | none => exact h₂.1
  | some key =>
      dsimp only
      split
      · exact h₂.1
      · rename_i hdue
        exact scheduling.wp_seq hs₂ (wp_popEntry h₂.1 (h₁.2.trans h₂.2.2) (Nat.le_of_not_lt hdue))
          fun sender s₃ _ h₃ => h₃

/-- The senders are fired in order; a panicking `Waker` is contained. -/
theorem wp_deliver (hs : Sound s) (h : Loose p due s) :
    scheduling.wp p (deliver due) (fun _ s' => Loose p [] s') s := by
  induction due generalizing s with
  | nil => exact h
  | cons sender due ih =>
      have hsend : scheduling.wp p (perform (.send sender)) (fun _ s' => Loose p due s') s := by
        refine wp_op rfl (fun s' hk _ => due_of_calm (.inl ⟨(h.keeps hk).worker, ?_⟩)
          (h.keeps hk).unnotified) fun s' q c s'' r hk _ _ hexec => ?_
        · rw [(h.keeps hk).due]
          exact List.mem_cons_self
        · have h' := h.keeps hk
          have hrefused : ((s'.send sender).trace.history p).refused = false := by
            show (if p = sender then _ else s'.trace.history p).refused = false
            split <;> exact h'.refused
          cases hexec
          refine ⟨⟨h'.worker, h'.unnotified, hrefused⟩, h'.lock, h'.parked, ?_⟩
          show s'.trace.due.erase sender = due
          rw [h'.due, List.erase_cons_head]
      exact scheduling.wp_seq hs hsend fun _ s₁ hs₁ h₁ => ih hs₁ h₁

/-- The worker sleeps in its place in the queue, or was woken from it. -/
structure Asleep (p : Party) (s : DeadlineScheduler) : Prop extends Serving p s where
  lock : s.lock ≠ some p
  due : s.trace.due = []

theorem Asleep.keeps (h : Asleep p s) (hk : Keeps p s s') : Asleep p s' where
  toServing := h.toServing.keeps hk
  lock hl := h.lock (hk.lock.mp hl)
  due := (hk.due h.worker).trans h.due

theorem wp_park {wake : Option Instant} (h : Holding p [] s) (hcovers : Covers wake s.schedule) :
    scheduling.wp p (perform (.park wake)) (fun _ s' => Asleep p s') s := by
  refine wp_op rfl (fun s' hk _ => due_of_calm ⟨(h.keeps hk).lock, (h.keeps hk).worker,
    (h.keeps hk).parked, (h.keeps hk).running, ?_⟩ (h.keeps hk).unnotified)
    fun s' q c s'' r hk _ _ hexec => ?_
  · rw [(hk.guarded h.lock).1]
    exact hcovers
  · have h' := h.keeps hk
    cases hexec
    exact ⟨⟨h'.worker, h'.unnotified, h'.refused⟩, nofun, h'.due⟩

theorem wp_resume (h : Asleep p s) :
    scheduling.wp p (perform .resume) (fun _ s' => Holding p [] s') s := by
  refine wp_op rfl (fun s' hk _ => due_of_calm (h.keeps hk).worker (h.keeps hk).unnotified)
    fun s' q c s'' r hk hs' _ hexec => ?_
  have h' := h.keeps hk
  simp only [exec, Option.ite_none_right_eq_some, Option.some.injEq] at hexec
  rcases hexec with ⟨hfree, heq⟩
  cases heq
  refine ⟨⟨h'.worker, h'.unnotified, h'.refused⟩, rfl, fun wake hmem => ?_, h'.due, ?_⟩
  · exact absurd rfl (of_decide_eq_true (List.mem_filter.mp hmem).2)
  · show s'.schedule.workerRunning = true
    rw [hs'.manned.flag hfree, h'.worker]
    rfl

/-- The loop of `serve` fails with nothing in the hands of the worker. -/
theorem wp_serve (hs : Sound s) (h : Loose p [] s) :
    scheduling.wp p serve (fun _ s' => Loose p [] s') s := by
  refine scheduling.wp_seq hs (wp_lockWorker h) fun _ s₁ hs₁ h₁ => ?_
  refine scheduling.wp_iterate (fun due s' => due = [] ∧ Holding p [] s') ⟨rfl, h₁⟩ ?_
  rintro _ s₂ hs₂ ⟨rfl, h₂⟩
  have hfault : ∀ {op : Op} {s : DeadlineScheduler}, protocol.forks op = none →
      (∀ q c s s' r, exec p q c op s = some (s', r) → s' = s) →
      (∀ s', Serving p s' → Entitled p s' op) → Holding p [] s →
      scheduling.wp p (perform op) (fun _ s' => Holding p [] s') s := by
    intro op s hforks hsame hentitled hholding
    exact wp_read hforks hsame (fun s' hk => hentitled s' (hholding.keeps hk).toServing)
      hholding.unnotified fun s' _ _ _ hk _ => hholding.keeps hk
  refine scheduling.wp_seq hs₂ (hfault rfl (fun _ _ _ _ _ hexec => by cases hexec; rfl)
    (fun _ h => h.worker) h₂) fun exits s₃ hs₃ h₃ => ?_
  cases exits with
  | true => exact scheduling.wp_seq hs₃ (wp_unlockWorker h₃) fun _ _ _ h => h
  | false =>
      refine scheduling.wp_seq hs₃ (hfault rfl (fun _ _ _ _ _ hexec => by cases hexec; rfl)
        (fun _ h => h.worker) h₃) fun panics s₄ hs₄ h₄ => ?_
      cases panics with
      | true => exact scheduling.wp_seq hs₄ (wp_unlockWorker h₄) fun _ _ _ h => h
      | false =>
          have hnow : scheduling.wp p (perform .now)
              (fun now s' => Holding p [] s' ∧ now ≤ s'.now) s₄ := by
            refine wp_read rfl (fun _ _ _ _ _ hexec => by cases hexec; rfl) (fun _ _ => trivial)
              h₄.unnotified fun s' q c r hk hexec => ?_
            cases hexec
            exact ⟨h₄.keeps hk, Nat.le_refl _⟩
          refine scheduling.wp_seq hs₄ hnow fun now s₅ hs₅ h₅ => ?_
          refine scheduling.wp_seq hs₅ (wp_takeDue h₅.1 h₅.2) fun due s₆ hs₆ h₆ => ?_
          split
          · refine scheduling.wp_seq hs₆ (wp_unlockWorker h₆) fun _ s₇ hs₇ h₇ => ?_
            refine scheduling.wp_seq hs₇ (wp_deliver hs₇ h₇) fun _ s₈ hs₈ h₈ => ?_
            exact scheduling.wp_seq hs₈ (wp_lockWorker h₈) fun _ _ _ h => ⟨rfl, h⟩
          · rename_i hnil
            obtain rfl : due = [] := not_not.mp hnil
            refine scheduling.wp_seq hs₆ (wp_firstKeyValue h₆) fun first s₇ hs₇ h₇ => ?_
            -- parked until the first entry, which is the earliest
            cases first with
            | some key =>
                refine scheduling.wp_seq hs₇ (wp_park h₇.1 fun other hother => ?_)
                  fun _ s₈ hs₈ h₈ => ?_
                · have hfirst := Schedule.first_eq_some h₇.2.1.symm
                  exact ⟨key.deadline, rfl, DeadlineKey.deadline_le (hfirst.2 other hother)⟩
                · exact scheduling.wp_seq hs₈ (wp_resume h₈) fun _ _ _ h => ⟨rfl, h⟩
            | none =>
                refine scheduling.wp_seq hs₇ (wp_park h₇.1 fun other hother => ?_)
                  fun _ s₈ hs₈ h₈ => ?_
                · exact absurd hother (Schedule.first_eq_none h₇.2.1.symm other)
                · exact scheduling.wp_seq hs₈ (wp_resume h₈) fun _ _ _ h => ⟨rfl, h⟩

/-- The worker gave up its flag under the mutex. -/
structure Leaving (p : Party) (s : DeadlineScheduler) : Prop extends Serving p s where
  lock : s.lock = some p
  parked : ∀ wake, (p, wake) ∉ s.changed
  due : s.trace.due = []
  stopped : s.schedule.workerRunning = false

theorem Leaving.keeps (h : Leaving p s) (hk : Keeps p s s') : Leaving p s' where
  toServing := h.toServing.keeps hk
  lock := hk.lock.mpr h.lock
  parked wake hp := h.parked wake (hk.parked wake hp)
  due := (hk.due h.worker).trans h.due
  stopped := by
    rw [(hk.guarded h.lock).1]
    exact h.stopped

theorem wp_stop (h : Holding p [] s) :
    scheduling.wp p (perform (.setWorkerRunning false)) (fun _ s' => Leaving p s') s := by
  refine wp_op rfl (fun s' hk _ => due_of_calm (h.keeps hk).lock (h.keeps hk).unnotified)
    fun s' q c s'' r hk _ _ hexec => ?_
  have h' := h.keeps hk
  cases hexec
  exact ⟨⟨h'.worker, h'.unnotified, h'.refused⟩, h'.lock, h'.parked, h'.due, rfl⟩

/-- Leaving without a replacement: nothing is armed, or the thread was refused. -/
theorem wp_leave (h : Leaving p s)
    (hunreplaced : ∀ s', Keeps p s s' → ∀ key ∈ s'.schedule.armed, s'.trace.unreplaced = true) :
    scheduling.wp p (perform .unlock) (fun _ s' => Calm p s') s := by
  refine wp_op rfl (fun s' hk _ => due_of_calm ⟨(h.keeps hk).lock, fun htrue => ?_, fun _ => ?_⟩
    (h.keeps hk).unnotified) fun s' q c s'' r hk _ _ hexec => ?_
  · rw [(h.keeps hk).stopped] at htrue
    cases htrue
  · exact .inr ⟨(h.keeps hk).worker, (h.keeps hk).due, (h.keeps hk).parked, hunreplaced s' hk⟩
  · have h' := h.keeps hk
    cases hexec
    refine ⟨⟨nofun, ?_, h'.unnotified, h'.parked⟩, h'.refused⟩
    show (if s'.schedule.workerRunning then s'.trace.worker else none) ≠ some p
    rw [h'.stopped]
    nofun

/-- The replacement runs; its flag is not set yet. -/
structure Replaced (p : Party) (s : DeadlineScheduler) : Prop where
  lock : s.lock = some p
  worker : s.trace.worker ≠ some p
  parked : ∀ wake, (p, wake) ∉ s.changed
  unnotified : p ∉ s.trace.unnotified
  refused : (s.trace.history p).refused = false
  manned : s.trace.worker ≠ none

/-- A replacement is asked for. -/
theorem wp_replace (hs : Sound s) (h : Leaving p s) :
    scheduling.wp p spawnWorker (fun r s' =>
      match r with
      | .ok _ => Replaced p s'
      | .error _ => Leaving p s' ∧ s'.trace.unreplaced = true) s := by
  have hrefuse : scheduling.wp p (perform .refuseSpawn) (fun refused s' => Leaving p s' ∧
      (refused = true → s'.trace.unreplaced = true)) s := by
    refine wp_op rfl (fun s' hk _ => due_of_calm ⟨(h.keeps hk).lock, fun hne => ?_⟩
      (h.keeps hk).unnotified) fun s' q c s'' r hk _ _ hexec => ?_
    · exact absurd (h.keeps hk).worker hne
    · have h' := h.keeps hk
      simp only [exec, Option.some.injEq] at hexec
      cases hanswer : c.answer with
      | false =>
          rw [hanswer] at hexec
          cases hexec
          exact ⟨h', by simp⟩
      | true =>
          rw [hanswer] at hexec
          cases hexec
          rw [if_pos rfl, DeadlineScheduler.refuse, if_pos h'.worker]
          exact ⟨⟨⟨h'.worker, h'.unnotified, h'.refused⟩, h'.lock, h'.parked, h'.due, h'.stopped⟩,
            fun _ => rfl⟩
  refine scheduling.wp_seq hs hrefuse fun refused s₁ hs₁ h₁ => ?_
  cases refused with
  | true => exact ⟨h₁.1, h₁.2 rfl⟩
  | false =>
      refine scheduling.wp_seq hs₁ (R := fun _ s' => Replaced p s')
        (wp_startWorker h₁.1.unnotified (fun s' hk _ => ?_) fun s' q hk hq => ?_) fun _ _ _ h => h
      · have h' := h₁.1.keeps hk
        exact ⟨h'.lock, h'.due, .inr ⟨h'.worker, h'.parked⟩⟩
      · have h' := h₁.1.keeps hk
        have hrefused := h'.refused
        exact ⟨h'.lock, fun heq => hq (Option.some.inj heq), h'.parked, h'.unnotified, hrefused,
          by rintro ⟨⟩⟩

theorem wp_retire (hs : Sound s) (h : Loose p [] s) :
    scheduling.wp p retire (fun _ s' => Calm p s') s := by
  refine scheduling.wp_seq hs (wp_lockWorker h) fun _ s₁ hs₁ h₁ => ?_
  refine scheduling.wp_seq hs₁ (wp_stop h₁) fun _ s₂ hs₂ h₂ => ?_
  have hfirst : scheduling.wp p (perform .firstKeyValue)
      (fun first s' => Leaving p s' ∧ first = s'.schedule.first) s₂ := by
    refine wp_read rfl (fun _ _ _ _ _ hexec => by cases hexec; rfl) (fun _ _ => trivial)
      h₂.unnotified fun s' q c r hk hexec => ?_
    cases hexec
    exact ⟨h₂.keeps hk, rfl⟩
  refine scheduling.wp_seq hs₂ hfirst fun first s₃ hs₃ h₃ => ?_
  cases first with
  | none =>
      refine wp_leave h₃.1 fun s' hk key hkey => ?_
      rw [(hk.guarded h₃.1.lock).1] at hkey
      exact absurd hkey (Schedule.first_eq_none h₃.2.symm key)
  | some key =>
      refine scheduling.wp_seq hs₃ (wp_replace hs₃ h₃.1) fun r s₄ hs₄ h₄ => ?_
      cases r with
      | error e =>
          refine wp_leave h₄.1 fun s' hk _ _ => ?_
          rw [(hk.guarded h₄.1.lock).2.2]
          exact h₄.2
      | ok started =>
          have h₄ : Replaced p s₄ := h₄
          have hset : scheduling.wp p (perform (.setWorkerRunning true)) (fun _ s' =>
              Inside p s' ∧ p ∉ s'.trace.unnotified ∧ (s'.trace.history p).refused = false) s₄ := by
            refine wp_op rfl (fun s' hk _ => due_of_calm (hk.lock.mpr h₄.lock) fun hmem =>
              h₄.unnotified (hk.unnotified.mp hmem)) fun s' q c s'' r hk _ _ hexec => ?_
            have hlock := hk.lock.mpr h₄.lock
            have hworker : s'.trace.worker ≠ some p := fun hw => h₄.worker (hk.worker.mp hw)
            have hparked : ∀ wake, (p, wake) ∉ s'.changed := fun wake hp =>
              h₄.parked wake (hk.parked wake hp)
            have hu : p ∉ s'.trace.unnotified := fun hmem => h₄.unnotified (hk.unnotified.mp hmem)
            have hrefused := hk.refused.trans h₄.refused
            have hmanned : s'.trace.worker ≠ none := by
              rw [(hk.guarded h₄.lock).2.1]
              exact h₄.manned
            cases hexec
            exact ⟨⟨hlock, hworker, hparked, (Option.isSome_iff_ne_none.mpr hmanned).symm⟩, hu,
              hrefused⟩
          refine scheduling.wp_seq hs₄ hset fun _ s₅ hs₅ h₅ => ?_
          refine scheduling.wp_mono hs₅ (wp_unlock (R := fun history =>
            (history p).refused = false) h₅.1 fun s' hk => hk.refused.trans h₅.2.2)
            fun _ s₆ _ h₆ => ?_
          rcases h₆ with ⟨hlock, hworker, hparked, hu, hrefused⟩
          exact ⟨⟨hlock, hworker, fun hmem => h₅.2.1 (hu.mp hmem), hparked⟩, hrefused⟩

theorem wp_workerMain (hs : Sound s) (h : Loose p [] s) :
    scheduling.wp p workerMain (fun _ s' => Calm p s') s := by
  refine scheduling.wp_seq hs (R := fun _ s' => Loose p [] s') ?_
    fun _ s₁ hs₁ h₁ => wp_retire hs₁ h₁
  refine scheduling.wp_iterate (fun _ s' => Loose p [] s') h fun _ s₁ hs₁ h₁ => ?_
  refine scheduling.wp_seq hs₁ (wp_serve hs₁ h₁) fun exit s₂ _ h₂ => ?_
  cases exit <;> exact h₂

theorem ended_of_calm (h : Calm p s) : Ended p .done s := by
  refine ⟨h.toOut, ?_⟩
  rw [h.refused]
  exact ⟨nofun, nofun⟩

theorem scheduling_verified : scheduling.Verified where
  grounded _ _ _ _ _ := trivial
  init := by
    refine ⟨⟨fun _ => rfl, .inl rfl, nofun, fun key hkey => ?_, fun _ => rfl, fun key hkey => ?_⟩,
      List.nodup_nil, fun sender => ⟨fun key hkey => ?_, nofun, nofun, Nat.zero_le 1, nofun, nofun,
        nofun, nofun⟩⟩
    · exact absurd hkey Std.TreeMap.not_mem_emptyc
    · exact absurd hkey Std.TreeMap.not_mem_emptyc
    · have hnone : (∅ : Std.TreeMap DeadlineKey Sender DeadlineKey.order)[key]? = some sender := hkey
      rw [Std.TreeMap.getElem?_emptyc] at hnone
      cases hnone
  vacant p := ⟨⟨nofun, nofun, List.not_mem_nil, fun _ => List.not_mem_nil⟩, rfl⟩
  body routine p s hs h := by
    cases routine with
    | watch timeout => exact wp_watch hs h
    | worker => exact scheduling.wp_seq hs (wp_workerMain hs h) fun _ _ _ h => ended_of_calm h
    | elapse =>
        have h : Blank p s := h
        have helapse : scheduling.wp p (perform .elapse) (fun _ s' => Calm p s') s := by
          refine wp_op rfl (fun s' hk _ => due_of_calm trivial (h.keeps hk).unnotified)
            fun s' q c s'' r hk _ _ hexec => ?_
          have h' := (h.keeps hk).calm
          cases hexec
          exact ⟨⟨h'.lock, h'.worker, h'.unnotified, h'.parked⟩, h'.refused⟩
        exact scheduling.wp_seq hs helapse fun _ _ _ h => ended_of_calm h
  enter p routine s s' hs hblank henter := by
    simp only [protocol, Option.ite_none_right_eq_some, Option.some.injEq] at henter
    rcases henter with ⟨houtside, rfl⟩
    refine ⟨hs, fun t _ => .refl t s, ?_⟩
    cases routine with
    | worker => cases houtside
    | watch timeout => exact hblank
    | elapse => exact hblank

/-! ## One worker -/

/-- Operations of the serving loop alone. -/
def Op.serves : Op → Bool
  | exitWorker | panicServing | popEntry _ | park _ | resume => true
  | _ => false

/-- Operations that decide who serves. -/
def Op.appoints : Op → Bool
  | setWorkerRunning _ | startWorker => true
  | _ => false

/-- The serving loop is over for this program, or it never gets there. -/
abbrev Past (x : Prog Answer) : Prop :=
  x.All fun op => op.serves = false

/-- The rest of a program that is still in the serving loop, and the flag that goes with it. -/
structure Serves (p : Party) (x : Prog Answer) (s : DeadlineScheduler) : Prop where
  loop : ∃ (β : Type) (y : Prog β) (next : β → Prog Answer),
    x = y.bind next ∧ (y.All fun op => op.appoints = false) ∧ ∀ b, Past (next b)
  worker : s.trace.worker = some p
  running : s.lock = some p → s.schedule.workerRunning = true

theorem Serves.keeps {x : Prog Answer} (h : Serves p x s) (hk : Keeps p s s') : Serves p x s' where
  loop := h.loop
  worker := hk.worker.mpr h.worker
  running hlock := by
    have hheld := hk.lock.mp hlock
    rw [(hk.guarded hheld).1]
    exact h.running hheld

/-- In the serving loop the worker keeps its place. -/
theorem exec_serving {q : Party} {c : Choice} {op : Op} {r : op.Ret} (hs : Sound s)
    (hdue : Due p op s) (hop : op.appoints = false) (hworker : s.trace.worker = some p)
    (hrunning : s.lock = some p → s.schedule.workerRunning = true)
    (hexec : exec p q c op s = some (s', r)) :
    s'.trace.worker = some p ∧ (s'.lock = some p → s'.schedule.workerRunning = true) := by
  cases op with
  | lock | resume =>
      simp only [exec, Option.ite_none_right_eq_some, Option.some.injEq] at hexec
      rcases hexec with ⟨hfree, hout⟩
      cases hout
      have hflag : s.schedule.workerRunning = true := by
        rw [hs.manned.flag hfree, hworker]
        rfl
      exact ⟨hworker, fun _ => hflag⟩
  | unlock =>
      cases hexec
      refine ⟨?_, fun h => by cases h⟩
      show (if s.schedule.workerRunning then s.trace.worker else none) = some p
      rw [if_pos (hrunning hdue.entitled.1)]
      exact hworker
  | setWorkerRunning | startWorker => cases hop
  | disarmEntry key =>
      have hout : s.disarmEntry key = (s', r) := Option.some.inj hexec
      obtain rfl : (s.disarmEntry key).1 = s' := congrArg Prod.fst hout
      unfold DeadlineScheduler.disarmEntry
      split <;> exact ⟨hworker, hrunning⟩
  | popEntry key =>
      have hout : s.popEntry key = (s', r) := Option.some.inj hexec
      obtain rfl : (s.popEntry key).1 = s' := congrArg Prod.fst hout
      unfold DeadlineScheduler.popEntry
      split <;> exact ⟨hworker, hrunning⟩
  | refuseSpawn =>
      cases hexec
      split
      · unfold DeadlineScheduler.refuse
        split <;> exact ⟨hworker, hrunning⟩
      · exact ⟨hworker, hrunning⟩
  | park =>
      cases hexec
      exact ⟨hworker, fun h => by cases h⟩
  | panic => cases hexec
  | now | elapse | channel | checkedAdd | workerRunning | nextId | setNextId | firstKeyValue
  | insertEntry | notifyOne | send | dropSender | close | hold | exitWorker | panicServing =>
      cases hexec
      exact ⟨hworker, hrunning⟩

/-- Whoever may still come to the serving loop is the worker. -/
def Attended (cfg : State) : Prop :=
  ∀ p x, cfg.pool p = some x → Past x ∨ Serves p x cfg.shared

theorem attended_act {q : Party} {c : Choice} {op : Op} {r : op.Ret} {next : op.Ret → Prog Answer}
    (hs : Sound s) (hdue : Due p op s) (hexec : exec p q c op s = some (s', r))
    (h : Past (.act op next) ∨ Serves p (.act op next) s) :
    Past (next r) ∨ Serves p (next r) s' := by
  rcases h with hpast | ⟨⟨β, y, rest, hloop, hy, hrest⟩, hworker, hrunning⟩
  · exact .inl (hpast.2 r)
  · cases y with
    | pure b =>
        have hpast : Past (.act op next) := hloop ▸ hrest b
        exact .inl (hpast.2 r)
    | act op' next' =>
        cases hloop
        have hkept := exec_serving hs hdue hy.1 hworker hrunning hexec
        exact .inr ⟨⟨β, next' r, rest, rfl, hy.2 r, hrest⟩, hkept.1, hkept.2⟩
    | loop body start next' => cases hloop

theorem attended_loop {β γ : Type} {body : γ → Prog (γ ⊕ β)} {start : γ} {next : β → Prog Answer}
    (h : Past (.loop body start next) ∨ Serves p (.loop body start next) s) :
    Past (Program.unfoldLoop body start next) ∨
      Serves p (Program.unfoldLoop body start next) s := by
  rcases h with hpast | ⟨⟨δ, y, rest, hloop, hy, hrest⟩, hworker, hrunning⟩
  · exact .inl hpast.unfoldLoop
  · cases y with
    | pure b =>
        have hpast : Past (.loop body start next) := hloop ▸ hrest b
        exact .inl hpast.unfoldLoop
    | act op' next' => cases hloop
    | loop body' start' next' =>
        cases hloop
        exact .inr ⟨⟨δ, Program.unfoldLoop body start next', rest,
          (Program.unfoldLoop_bind body start next' rest).symm, hy.unfoldLoop, hrest⟩, hworker,
          hrunning⟩

/-! ### The programs -/

section Programs

variable {P : Op → Prop}

theorem all_perform {op : Op} (h : P op) : (perform op).All P :=
  ⟨h, fun _ => trivial⟩

theorem all_deliver (h : ∀ sender, P (.send sender)) : ∀ due, (deliver due).All P
  | [] => trivial
  | sender :: due => .bind (all_perform (h sender)) fun _ => all_deliver h due

theorem all_dropSenders (h : ∀ sender, P (.dropSender sender)) : ∀ due, (dropSenders due).All P
  | [] => trivial
  | sender :: due => .bind (all_perform (h sender)) fun _ => all_dropSenders h due

theorem all_takeDue (hfirst : P .firstKeyValue) (hpop : ∀ key, P (.popEntry key)) (now : Instant)
    (due : List Sender) : (takeDue now due).All P := by
  refine ⟨fun due => .bind (all_perform hfirst) fun first => ?_, fun _ => trivial⟩
  cases first with
  | none => trivial
  | some key =>
      dsimp only
      split
      · trivial
      · exact .bind (all_perform (hpop key)) fun _ => trivial

/-- The serving loop appoints nobody. -/
theorem all_serve : serve.All fun op => op.appoints = false := by
  refine .bind (all_perform rfl) fun _ => ⟨fun due => ?_, fun _ => trivial⟩
  refine .bind (all_perform rfl) fun exit => ?_
  cases exit with
  | true =>
      exact .bind (all_perform rfl) fun _ => .bind (all_dropSenders (fun _ => rfl) due)
        fun _ => trivial
  | false =>
      refine .bind (all_perform rfl) fun panics => ?_
      cases panics with
      | true =>
          exact .bind (all_perform rfl) fun _ => .bind (all_dropSenders (fun _ => rfl) due)
            fun _ => trivial
      | false =>
          refine .bind (all_perform rfl) fun now => ?_
          have htake := all_takeDue (P := fun op => op.appoints = false) rfl (fun _ => rfl) now due
          refine .bind htake fun due => ?_
          dsimp only
          split
          · exact .bind (all_perform rfl) fun _ => .bind (all_deliver (fun _ => rfl) due)
              fun _ => .bind (all_perform rfl) fun _ => trivial
          · refine .bind (all_perform rfl) fun first => ?_
            cases first <;> exact .bind (all_perform rfl) fun _ =>
              .bind (all_perform rfl) fun _ => trivial

theorem all_spawnWorker (hrefuse : P .refuseSpawn) (hstart : P .startWorker) :
    spawnWorker.All P := by
  refine .bind (all_perform hrefuse) fun refused => ?_
  cases refused with
  | true => trivial
  | false => exact .bind (all_perform hstart) fun _ => trivial

/-- The end of a worker does not serve. -/
theorem all_retire : retire.All fun op => op.serves = false := by
  refine .bind (all_perform rfl) fun _ => .bind (all_perform rfl) fun _ =>
    .bind (all_perform rfl) fun first => ?_
  cases first with
  | none => exact all_perform rfl
  | some key =>
      refine .bind (all_spawnWorker rfl rfl) fun spawned => ?_
      cases spawned with
      | ok _ => exact .bind (all_perform rfl) fun _ => all_perform rfl
      | error _ => exact all_perform rfl

theorem all_insert (deadline : Instant) (sender : Sender) :
    (insert deadline sender).All fun op => op.serves = false := by
  refine .bind (all_perform rfl) fun _ => .bind ?_ fun ensured => ?_
  · refine .bind (all_perform rfl) fun running => ?_
    cases running with
    | true => trivial
    | false =>
        refine .bind (all_spawnWorker rfl rfl) fun spawned => ?_
        cases spawned with
        | ok _ => exact .bind (all_perform rfl) fun _ => trivial
        | error _ => trivial
  · cases ensured with
    | error e =>
        refine .bind (all_perform rfl) fun _ => .bind (all_perform rfl) fun _ => ?_
        trivial
    | ok _ =>
        refine .bind (all_perform rfl) fun id => ?_
        dsimp only
        split
        · exact .bind (all_perform rfl) fun _ => .bind (all_perform rfl) fun _ =>
            .bind (all_perform rfl) Empty.rec
        · refine .bind (all_perform rfl) fun _ => .bind (all_perform rfl) fun first =>
            .bind (all_perform rfl) fun _ => .bind (all_perform rfl) fun _ => ?_
          split
          · exact .bind (all_perform rfl) fun _ => trivial
          · trivial

theorem all_arm (timeout : Nat) (sender : Sender) :
    (arm timeout sender).All fun op => op.serves = false := by
  refine .bind (all_perform rfl) fun now => .bind (all_perform rfl) fun deadline => ?_
  cases deadline with
  | none => trivial
  | some deadline =>
      dsimp only
      split
      · exact .bind (all_perform rfl) fun _ => trivial
      · refine .bind (all_insert deadline sender) fun inserted => ?_
        cases inserted <;> trivial

theorem all_dropWatchdog (sender : Sender) (slot : Slot) :
    (dropWatchdog sender slot).All fun op => op.serves = false := by
  refine .bind (all_perform rfl) fun _ => ?_
  cases slot with
  | armed key =>
      refine .bind (all_perform rfl) fun _ => .bind (all_perform rfl) fun removed =>
        .bind (all_perform rfl) fun _ => ?_
      cases removed with
      | none => trivial
      | some sender => exact all_perform rfl
  | never => exact all_perform rfl
  | fired => trivial

theorem past_watch (timeout : Nat) : Past (watch timeout) := by
  refine .bind (all_perform rfl) fun sender => .bind (all_arm timeout sender) fun armed => ?_
  cases armed with
  | error _ => trivial
  | ok slot =>
      exact .bind (all_perform rfl) fun _ => .bind (all_dropWatchdog sender slot) fun _ => trivial

end Programs

theorem serves_worker (hworker : s.trace.worker = some p) (hlock : s.lock ≠ some p) :
    Serves p (protocol.body .worker) s := by
  refine ⟨⟨Unit, _, fun _ => retire >>= fun _ => pure .done, Program.bind_assoc _ _ _, ?_, ?_⟩,
    hworker, fun h => absurd h hlock⟩
  · refine ⟨fun _ => .bind all_serve fun exit => ?_, fun _ => trivial⟩
    cases exit <;> trivial
  · exact fun _ => .bind all_retire fun _ => trivial

/-- The others keep what they are. -/
theorem attended_keeps {x : Prog Answer} (h : Past x ∨ Serves p x s) (hk : Keeps p s s') :
    Past x ∨ Serves p x s' :=
  h.imp_right fun hserves => hserves.keeps hk

theorem attended_of_step {cfg cfg' : State} (h : protocol.Reachable Machine.anyRun cfg)
    (ih : Attended cfg) {label : Label Routine Choice} (hstep : protocol.step cfg label = some cfg') :
    Attended cfg' := by
  have hs : Sound cfg.shared := Logic.inv_of_reachable scheduling_verified h
  intro t x hx
  cases Machine.transition_of_step protocol hstep with
  | @performed self fresh c op next s' r hpool hforks hexec =>
      have hdue : Due self op cfg.shared := Logic.check_of_reachable scheduling_verified h hpool
      rcases Machine.place_eq_some hx with ⟨rfl, rfl⟩ | ⟨ht, hx⟩
      · exact attended_act hs hdue hexec (ih t _ hpool)
      · exact attended_keeps (ih t x hx) (exec_keeps hs hdue hexec ht (by rintro rfl; cases hforks))
  | @forked self fresh c op next s' r routine hpool hforks hfresh hunborn hexec =>
      have hdue : Due self op cfg.shared := Logic.check_of_reachable scheduling_verified h hpool
      rcases Machine.place_eq_some hx with ⟨rfl, rfl⟩ | ⟨htf, hx⟩
      · -- the thread that was started
        cases op <;> simp only [protocol, Option.some.injEq, reduceCtorEq] at hforks
        subst hforks
        cases hexec
        refine .inr (serves_worker rfl fun hlock => hfresh ?_)
        exact (Option.some.inj (hdue.entitled.1.symm.trans hlock)).symm
      · rcases Machine.place_eq_some hx with ⟨rfl, rfl⟩ | ⟨ht, hx⟩
        · exact attended_act hs hdue hexec (ih t _ hpool)
        · exact attended_keeps (ih t x hx) (exec_keeps hs hdue hexec ht fun _ => htf)
  | unfolded hpool =>
      rcases Machine.place_eq_some hx with ⟨rfl, rfl⟩ | ⟨-, hx⟩
      · exact attended_loop (ih t _ hpool)
      · exact ih t x hx
  | @entered self routine s' hunborn henter =>
      simp only [protocol, Option.ite_none_right_eq_some, Option.some.injEq] at henter
      rcases henter with ⟨houtside, rfl⟩
      rcases Machine.place_eq_some hx with ⟨rfl, rfl⟩ | ⟨-, hx⟩
      · cases routine with
        | watch timeout => exact .inl (past_watch timeout)
        | worker => cases houtside
        | elapse => exact .inl (.bind (all_perform rfl) fun _ => trivial)
      · exact ih t x hx
  | dropped _ _ hdropped => cases hdropped

theorem attended_of_reachable {cfg : State} (h : protocol.Reachable Machine.anyRun cfg) :
    Attended cfg := by
  induction h with
  | start => exact nofun
  | step label hreach _ moves ih => exact attended_of_step hreach ih moves

/-! ## What holds in every run -/

/-- A thread runs the worker body and is not done with it. -/
def WorkerExists (cfg : State) : Prop :=
  ∃ w prog, cfg.shared.trace.worker = some w ∧ cfg.pool w = some prog ∧ ∀ a, prog ≠ .pure a

/-- What the scheduler promises in every state. -/
structure Scheduled (cfg : State) : Prop where
  /-- An armed sender is fired once at most, and not before its deadline. -/
  punctual : ∀ sender key, (cfg.shared.trace.history sender).key = some key →
    (cfg.shared.trace.history sender).fired.length ≤ 1 ∧
      ∀ instant ∈ (cfg.shared.trace.history sender).fired, key.deadline ≤ instant
  /-- Unless it was disarmed it is not dropped: it stays armed until the worker fires it. -/
  kept : ∀ sender key, (cfg.shared.trace.history sender).key = some key →
    (cfg.shared.trace.history sender).disarmed = false →
      (cfg.shared.trace.history sender).dropped = false ∧
        (cfg.shared.schedule.armed[key]? = some sender ∨
          (cfg.shared.trace.history sender).fired ≠ [] ∨
          sender ∈ cfg.shared.trace.due ∧ WorkerExists cfg)
  /-- An arm that was refused the thread has no entry, and answers so. -/
  refused : ∀ p, (cfg.shared.trace.history p).refused = true →
    (cfg.shared.trace.history p).key = none ∧ ∀ a, cfg.pool p = some (.pure a) → a = .unavailable
  /-- Nobody answers so without having been refused the thread. -/
  unavailable : ∀ p, cfg.pool p = some (.pure .unavailable) →
    (cfg.shared.trace.history p).refused = true
  /-- A parked worker sleeps until the earliest entry at most, or a notification is on its way. -/
  awake : ∀ w wake, (w, wake) ∈ cfg.shared.changed →
    cfg.shared.changed = [(w, wake)] ∧
      (Covers wake cfg.shared.schedule ∨ cfg.shared.trace.unnotified ≠ [])
  /-- Who owes a notification sends it, as soon as it let go of the mutex. -/
  notifies : ∀ p, p ∈ cfg.shared.trace.unnotified →
    (∀ op next, cfg.pool p = some (.act op next) → op = .unlock ∨ op = .notifyOne) ∧
      ∀ a, cfg.pool p ≠ some (.pure a)
  /-- While something is armed a worker exists, unless its replacement was refused. -/
  manned : ∀ key ∈ cfg.shared.schedule.armed,
    WorkerExists cfg ∨ cfg.shared.trace.unreplaced = true
  /-- Without a worker the entries stay, but for those that are disarmed. -/
  stays : cfg.shared.trace.worker = none → ∀ (key : DeadlineKey) (sender : Sender),
    cfg.shared.schedule.armed[key]? = some sender →
      ∀ label cfg', protocol.step cfg label = some cfg' →
        cfg'.shared.schedule.armed[key]? = some sender ∨
          (cfg'.shared.trace.history sender).disarmed = true
  /-- One thread at most is in the serving loop or on its way there. -/
  alone : ∀ p q x y, cfg.pool p = some x → cfg.pool q = some y → ¬ Past x → ¬ Past y → p = q

theorem workerExists_of_reachable {cfg : State} (h : protocol.Reachable Machine.anyRun cfg)
    (hworker : cfg.shared.trace.worker ≠ none) : WorkerExists cfg := by
  rcases Option.ne_none_iff_exists'.mp hworker with ⟨w, hw⟩
  have hgood := Logic.sound scheduling_verified h
  cases hpool : cfg.pool w with
  | none =>
      have hblank : Blank w cfg.shared := hgood.vacant w hpool
      exact absurd hw hblank.worker
  | some prog =>
      refine ⟨w, prog, hw, hpool, fun a heq => ?_⟩
      rw [heq] at hpool
      have hended : Ended w a cfg.shared := Logic.post_of_reachable scheduling_verified h hpool
      exact hended.worker hw

/-- An entry leaves the map through its own watchdog or through the worker. -/
theorem exec_entry {q : Party} {c : Choice} {op : Op} {r : op.Ret} {key : DeadlineKey}
    {sender : Sender} (hdue : Due p op s) (hexec : exec p q c op s = some (s', r))
    (hpop : ∀ key, op ≠ .popEntry key) (hkey : s.schedule.armed[key]? = some sender) :
    s'.schedule.armed[key]? = some sender ∨ (s'.trace.history sender).disarmed = true := by
  cases op with
  | insertEntry key' sender' =>
      cases hexec
      refine .inl ?_
      show (s.schedule.armed.insert key' sender')[key]? = some sender
      rw [getElem?_insert]
      split
      · -- the identity is fresh, so no entry is replaced
        rename_i heq
        subst heq
        have hmem : key' ∈ s.schedule.armed := by
          rw [Std.TreeMap.mem_iff_isSome_getElem?, hkey]
          rfl
        exact absurd (hdue.entitled.2.2.1 key' hmem) (Nat.lt_irrefl _)
      · exact hkey
  | disarmEntry key' =>
      have hout : s.disarmEntry key' = (s', r) := Option.some.inj hexec
      obtain rfl : (s.disarmEntry key').1 = s' := congrArg Prod.fst hout
      by_cases heq : key' = key
      · subst heq
        refine .inr ?_
        rw [DeadlineScheduler.disarmEntry, hkey]
        show (((s.removeEntry key').record sender _).trace.history sender).disarmed = true
        rw [history_record, if_pos rfl]
      · refine .inl ?_
        have herase : (s.removeEntry key').schedule.armed[key]? = some sender := by
          show (s.schedule.armed.erase key')[key]? = some sender
          rw [getElem?_erase, if_neg heq]
          exact hkey
        unfold DeadlineScheduler.disarmEntry
        split <;> exact herase
  | popEntry key' => exact absurd rfl (hpop key')
  | lock | resume =>
      simp only [exec, Option.ite_none_right_eq_some, Option.some.injEq] at hexec
      rcases hexec with ⟨-, hout⟩
      cases hout
      exact .inl hkey
  | refuseSpawn =>
      cases hexec
      refine .inl ?_
      split
      · unfold DeadlineScheduler.refuse
        split <;> exact hkey
      · exact hkey
  | panic => cases hexec
  | unlock | now | elapse | channel | checkedAdd | workerRunning | setWorkerRunning | nextId
  | setNextId | firstKeyValue | startWorker | notifyOne | park | send | dropSender | close | hold
  | exitWorker | panicServing =>
      cases hexec
      exact .inl hkey

theorem step_entry {cfg cfg' : State} (h : protocol.Reachable Machine.anyRun cfg)
    (hworker : cfg.shared.trace.worker = none) {label : Label Routine Choice}
    (hstep : protocol.step cfg label = some cfg') {key : DeadlineKey} {sender : Sender}
    (hkey : cfg.shared.schedule.armed[key]? = some sender) :
    cfg'.shared.schedule.armed[key]? = some sender ∨
      (cfg'.shared.trace.history sender).disarmed = true := by
  have hexec : ∀ {p q c op next s' r}, cfg.pool p = some (.act op next) →
      exec p q c op cfg.shared = some (s', r) → s'.schedule.armed[key]? = some sender ∨
        (s'.trace.history sender).disarmed = true := by
    intro p q c op next s' r hpool hexec
    have hdue : Due p op cfg.shared := Logic.check_of_reachable scheduling_verified h hpool
    refine exec_entry hdue hexec ?_ hkey
    rintro key rfl
    cases hworker.symm.trans hdue.entitled.2.1
  cases Machine.changes_of_step protocol hstep with
  | performed hpool hout => exact hexec hpool hout
  | unfolded hsame => exact .inl (hsame ▸ hkey)
  | entered henter =>
      simp only [protocol, Option.ite_none_right_eq_some, Option.some.injEq] at henter
      rcases henter with ⟨-, hsame⟩
      exact .inl (hsame ▸ hkey)
  | dropped hdropped => cases hdropped

theorem scheduled_of_reachable {cfg : State} (h : protocol.Reachable Machine.anyRun cfg) :
    Scheduled cfg := by
  have hs : Sound cfg.shared := Logic.inv_of_reachable scheduling_verified h
  have hcheck : ∀ {p op next}, cfg.pool p = some (.act op next) → Due p op cfg.shared :=
    fun hpool => Logic.check_of_reachable scheduling_verified h hpool
  have hended : ∀ {p a}, cfg.pool p = some (.pure a) → Ended p a cfg.shared :=
    fun hpool => Logic.post_of_reachable scheduling_verified h hpool
  have hworker : ∀ {p x}, cfg.pool p = some x → ¬ Past x → cfg.shared.trace.worker = some p :=
    fun hpool hpast => ((attended_of_reachable h _ _ hpool).resolve_left hpast).worker
  refine {
    punctual := fun sender key hkey =>
      ⟨(hs.accounted sender).once, fun instant hinstant =>
        (hs.accounted sender).punctual instant hinstant key hkey⟩
    kept := fun sender key hkey hdisarmed => ⟨?_, ?_⟩
    refused := fun p hrefused => ⟨(hs.accounted p).refused hrefused, fun a hpool =>
      (hended hpool).refused.mp hrefused⟩
    unavailable := fun p hpool => (hended hpool).refused.mpr rfl
    awake := fun w wake hmem => ⟨?_, hs.manned.covered w wake hmem⟩
    notifies := fun p hmem => ⟨fun op next hpool => (hcheck hpool).notifies hmem, fun a hpool =>
      (hended hpool).unnotified hmem⟩
    manned := fun key hkey =>
      (hs.manned.needed key hkey).imp_left (workerExists_of_reachable h)
    stays := fun hworker key sender hkey label cfg' hstep => step_entry h hworker hstep hkey
    alone := fun p q x y hp hq hx hy =>
      Option.some.inj ((hworker hp hx).symm.trans (hworker hq hy)) }
  -- the sender of an armed deadline is dropped only once it is disarmed
  · cases hdropped : (cfg.shared.trace.history sender).dropped with
    | false => rfl
    | true =>
        have hdone := (hs.accounted sender).dropped hdropped (by rw [hkey]; nofun)
        rw [hdisarmed] at hdone
        cases hdone
  · rcases (hs.accounted sender).kept key hkey with harmed | hmem | hfired | hdone
    · exact .inl harmed
    · refine .inr (.inr ⟨hmem, workerExists_of_reachable h fun hnone => ?_⟩)
      rw [hs.manned.idle hnone] at hmem
      cases hmem
    · exact .inr (.inl hfired)
    · rw [hdisarmed] at hdone
      cases hdone
  · rcases hs.manned.parked with hnil | ⟨w', wake', hparked, -⟩
    · rw [hnil] at hmem
      cases hmem
    · rw [hparked, List.mem_singleton] at hmem
      rw [hparked, hmem]

/-! ## Two deadlines -/

/-- A party takes some steps with this answer of the world. -/
def turns (p fresh : Party) (n : Nat) (choice : Choice) : List (Label Routine Choice) :=
  List.replicate n (.step p fresh choice)

/-- The clock moves on. -/
def passes (p : Party) (elapsed : Nat) : List (Label Routine Choice) :=
  .enter p .elapse :: turns p 9 1 { elapsed := elapsed }

/-- The first deadline has fired; the second arm has not notified the parked worker yet. -/
def secondArm : List (Label Routine Choice) :=
  .enter 1 (.watch 10) :: turns 1 2 3 { answer := true } ++ turns 1 2 11 {} ++ turns 2 9 10 {} ++
    passes 3 10 ++ turns 2 9 21 {} ++
    .enter 4 (.watch 5) :: turns 4 9 3 { answer := true } ++ turns 4 9 7 {}

def pendingWake : State :=
  (protocol.run (fun _ _ _ _ => true) secondArm protocol.start).get (by decide +kernel)

theorem reachable_pendingWake : protocol.Reachable Machine.anyRun pendingWake :=
  Machine.Reachable.of_run protocol (fun _ _ _ _ _ => trivial) secondArm .start
    (Option.some_get _).symm

theorem scheduled_pendingWake :
    ((pendingWake.shared.trace.history 1).fired = [10] ∧
      pendingWake.shared.changed = [(2, none)] ∧ pendingWake.shared.trace.unnotified = [4]) ∧
      Scheduled pendingWake :=
  ⟨by decide +kernel, scheduled_of_reachable reachable_pendingWake⟩

end Deadline
end CordisCore
