import CordisCore.Deadline.Scheduler
import CordisCore.Interleaving.Logic

/-!
# One worker — who serves, until when it sleeps and where each sender is

The mutex protects the schedule and the question whether a worker exists; a sender
is in the map, in the hands of the worker, fired or disarmed.
-/

namespace CordisCore
namespace Deadline

open Interleaving

/-! ## Invariants -/

/-- The wake time is no later than any armed deadline. -/
def Covers (wake : Option Instant) (schedule : Schedule) : Prop :=
  ∀ key ∈ schedule.armed, ∃ instant, wake = some instant ∧ instant ≤ key.deadline

/-- The worker exists where it has to, and does not oversleep. -/
structure Manned (s : DeadlineScheduler) : Prop where
  flag : s.lock = none → s.schedule.workerRunning = s.trace.worker.isSome
  parked : s.changed = [] ∨ ∃ w wake, s.changed = [(w, wake)] ∧ s.trace.worker = some w
  covered : ∀ w wake, (w, wake) ∈ s.changed → Covers wake s.schedule ∨ s.trace.unnotified ≠ []
  needed : ∀ key ∈ s.schedule.armed, s.trace.worker ≠ none ∨ s.trace.unreplaced = true
  idle : s.trace.worker = none → s.trace.due = []
  ids : ∀ key ∈ s.schedule.armed, key.id < s.schedule.nextId

/-- Where one sender is. -/
structure Accounted (s : DeadlineScheduler) (sender : Sender) : Prop where
  armed : ∀ key, s.schedule.armed[key]? = some sender →
    (s.trace.history sender).key = some key ∧ (s.trace.history sender).fired = [] ∧
      sender ∉ s.trace.due
  due : sender ∈ s.trace.due → ∃ key, (s.trace.history sender).key = some key ∧
    key.deadline ≤ s.now ∧ (s.trace.history sender).fired = []
  kept : ∀ key, (s.trace.history sender).key = some key →
    s.schedule.armed[key]? = some sender ∨ sender ∈ s.trace.due ∨
      (s.trace.history sender).fired ≠ [] ∨ (s.trace.history sender).disarmed = true
  once : (s.trace.history sender).fired.length ≤ 1
  punctual : ∀ instant ∈ (s.trace.history sender).fired, ∀ key,
    (s.trace.history sender).key = some key → key.deadline ≤ instant
  dropped : (s.trace.history sender).dropped = true → (s.trace.history sender).key ≠ none →
    (s.trace.history sender).disarmed = true
  disarmed : (s.trace.history sender).disarmed = true → (s.trace.history sender).key ≠ none
  refused : (s.trace.history sender).refused = true → (s.trace.history sender).key = none

structure Sound (s : DeadlineScheduler) : Prop where
  manned : Manned s
  nodup : s.trace.due.Nodup
  accounted : ∀ sender, Accounted s sender

/-! ## What the others leave a party -/

structure Keeps (p : Party) (s s' : DeadlineScheduler) : Prop where
  lock : s'.lock = some p ↔ s.lock = some p
  guarded : s.lock = some p → s'.schedule = s.schedule ∧ s'.trace.worker = s.trace.worker ∧
    s'.trace.unreplaced = s.trace.unreplaced
  worker : s'.trace.worker = some p ↔ s.trace.worker = some p
  due : s.trace.worker = some p → s'.trace.due = s.trace.due
  parked : ∀ wake, (p, wake) ∈ s'.changed → (p, wake) ∈ s.changed
  unnotified : p ∈ s'.trace.unnotified ↔ p ∈ s.trace.unnotified
  fresh : (s.trace.history p).key = none → s'.trace.history p = s.trace.history p
  refused : (s'.trace.history p).refused = (s.trace.history p).refused
  disarmed : ∀ sender, (s.trace.history sender).disarmed = true →
    (s'.trace.history sender).disarmed = true
  now : s.now ≤ s'.now

namespace Keeps

variable {p : Party} {s s' s'' : DeadlineScheduler}

theorem refl (p : Party) (s : DeadlineScheduler) : Keeps p s s where
  lock := Iff.rfl
  guarded _ := ⟨rfl, rfl, rfl⟩
  worker := Iff.rfl
  due _ := rfl
  parked _ h := h
  unnotified := Iff.rfl
  fresh _ := rfl
  refused := rfl
  disarmed _ h := h
  now := Nat.le_refl _

theorem trans (h : Keeps p s s') (h' : Keeps p s' s'') : Keeps p s s'' where
  lock := h'.lock.trans h.lock
  guarded hlock := by
    have hfirst := h.guarded hlock
    have hsecond := h'.guarded (h.lock.mpr hlock)
    exact ⟨hsecond.1.trans hfirst.1, hsecond.2.1.trans hfirst.2.1, hsecond.2.2.trans hfirst.2.2⟩
  worker := h'.worker.trans h.worker
  due hw := (h'.due (h.worker.mpr hw)).trans (h.due hw)
  parked wake hp := h.parked wake (h'.parked wake hp)
  unnotified := h'.unnotified.trans h.unnotified
  fresh hkey := by
    have hsame := h.fresh hkey
    exact (h'.fresh (hsame ▸ hkey)).trans hsame
  refused := h'.refused.trans h.refused
  disarmed sender hd := h'.disarmed sender (h.disarmed sender hd)
  now := Nat.le_trans h.now h'.now

end Keeps

/-- What holds when a party is about to perform an operation. -/
def Entitled (p : Party) (s : DeadlineScheduler) : Op → Prop
  | .unlock => s.lock = some p ∧
      (s.schedule.workerRunning = true → s.trace.worker ≠ none) ∧
      (s.schedule.workerRunning = false → s.trace.worker = none ∨
        s.trace.worker = some p ∧ s.trace.due = [] ∧ (∀ wake, (p, wake) ∉ s.changed) ∧
          ∀ key ∈ s.schedule.armed, s.trace.unreplaced = true)
  | .setWorkerRunning _ => s.lock = some p
  | .setNextId id => s.lock = some p ∧ s.schedule.nextId ≤ id
  | .insertEntry key sender => s.lock = some p ∧ s.trace.worker ≠ none ∧
      (∀ other ∈ s.schedule.armed, other.id < key.id) ∧ key.id < s.schedule.nextId ∧
      sender = p ∧ s.trace.history p = {}
  | .disarmEntry _ => s.lock = some p
  | .popEntry key => s.lock = some p ∧ s.trace.worker = some p ∧ key.deadline ≤ s.now
  | .refuseSpawn => s.lock = some p ∧
      (s.trace.worker ≠ some p → (s.trace.history p).key = none)
  | .startWorker => s.lock = some p ∧ s.trace.due = [] ∧
      (s.trace.worker = none ∨ s.trace.worker = some p ∧ ∀ wake, (p, wake) ∉ s.changed)
  | .park wake => s.lock = some p ∧ s.trace.worker = some p ∧ (∀ wake, (p, wake) ∉ s.changed) ∧
      s.schedule.workerRunning = true ∧ Covers wake s.schedule
  | .resume => s.trace.worker = some p
  | .exitWorker | .panicServing => s.trace.worker = some p
  | .send sender => s.trace.worker = some p ∧ sender ∈ s.trace.due ∨
      sender = p ∧ s.trace.history p = {}
  | .dropSender sender => (s.trace.history sender).disarmed = true ∨
      sender = p ∧ (s.trace.history p).key = none
  | _ => True

/-- Whoever inserted an earliest entry notifies next, once it let go of the mutex. -/
structure Due (p : Party) (op : Op) (s : DeadlineScheduler) : Prop where
  entitled : Entitled p s op
  notifies : p ∈ s.trace.unnotified → op = .unlock ∨ op = .notifyOne

/-! ## Frames -/

section Frames

variable {p q t : Party} {c : Choice} {s s' : DeadlineScheduler}

theorem ne_of_holder (h : s.lock = some p) (ht : t ≠ p) : s.lock ≠ some t := by
  rw [h]
  exact fun heq => ht (Option.some.inj heq).symm

theorem keeps_record {sender : Sender} {change : History → History} (ht : t ≠ p)
    (hfresh : sender ≠ p → (s.trace.history sender).key ≠ none)
    (hrefused : ∀ h, sender ≠ p → (change h).refused = h.refused)
    (hdisarmed : ∀ h, h.disarmed = true → (change h).disarmed = true) :
    Keeps t s (s.record sender change) := by
  have hhistory : ∀ r, (s.record sender change).trace.history r =
      if r = sender then change (s.trace.history r) else s.trace.history r := fun _ => rfl
  refine { Keeps.refl t s with fresh := fun hkey => ?_, refused := ?_, disarmed := fun r hr => ?_ }
  · rw [hhistory]
    split
    · rename_i heq
      exact absurd (heq ▸ hkey) (hfresh (heq ▸ ht))
    · rfl
  · rw [hhistory]
    split
    · rename_i heq
      exact hrefused _ (heq ▸ ht)
    · rfl
  · rw [hhistory]
    split
    · exact hdisarmed _ hr
    · exact hr

/-- Nothing but the schedule changes, under the mutex. -/
theorem keeps_setSchedule {change : Schedule → Schedule} (hlock : s.lock = some p) (ht : t ≠ p) :
    Keeps t s (s.setSchedule change) :=
  { Keeps.refl t s with guarded := fun h => absurd h (ne_of_holder hlock ht) }

theorem keeps_removeEntry {key : DeadlineKey} (hlock : s.lock = some p) (ht : t ≠ p) :
    Keeps t s (s.removeEntry key) :=
  keeps_setSchedule hlock ht

theorem keeps_unlock (hdue : Due p .unlock s) (ht : t ≠ p) : Keeps t s s.unlock := by
  have hlock := hdue.entitled.1
  have hne := ne_of_holder hlock ht
  refine { Keeps.refl t s with
    lock := ⟨nofun, fun h => absurd h hne⟩, guarded := fun h => absurd h hne, worker := ?_ }
  cases hrunning : s.schedule.workerRunning with
  | true => simp [DeadlineScheduler.unlock, DeadlineScheduler.track, hrunning]
  | false =>
      have hworker : s.trace.worker ≠ some t := by
        rcases hdue.entitled.2.2 hrunning with hnone | hself
        · rw [hnone]
          nofun
        · rw [hself.1]
          exact fun heq => ht (Option.some.inj heq).symm
      simp [DeadlineScheduler.unlock, DeadlineScheduler.track, hrunning, hworker]

theorem keeps_insertEntry {key : DeadlineKey} {sender : Sender}
    (hdue : Due p (.insertEntry key sender) s) (ht : t ≠ p) :
    Keeps t s (s.insertEntry p key sender) := by
  rcases hdue.entitled with ⟨hlock, -, -, -, rfl, -⟩
  have hschedule : Keeps t s (s.setSchedule fun schedule =>
      { schedule with armed := schedule.armed.insert key sender }) := keeps_setSchedule hlock ht
  have hrecord : ∀ s : DeadlineScheduler,
      Keeps t s (s.record sender fun h => { h with key := some key }) := fun _ =>
    keeps_record ht (fun h => absurd rfl h) (fun _ h => absurd rfl h) fun _ h => h
  refine (hschedule.trans (hrecord _)).trans { Keeps.refl t _ with unnotified := ?_ }
  show t ∈ (if s.earliest key then sender :: s.trace.unnotified else s.trace.unnotified) ↔
    t ∈ s.trace.unnotified
  split
  · simp [ht]
  · rfl

theorem keeps_disarmEntry {key : DeadlineKey} (hlock : s.lock = some p) (ht : t ≠ p)
    (haccount : ∀ sender, Accounted s sender) : Keeps t s (s.disarmEntry key).1 := by
  unfold DeadlineScheduler.disarmEntry
  split
  · rename_i sender hsender
    have hrecord : Keeps t (s.removeEntry key)
        ((s.removeEntry key).record sender fun h => { h with disarmed := true }) := by
      refine keeps_record ht (fun _ => ?_) (fun _ _ => rfl) fun _ _ => rfl
      show (s.trace.history sender).key ≠ none
      rw [((haccount sender).armed key hsender).1]
      nofun
    exact (keeps_removeEntry hlock ht).trans hrecord
  · exact keeps_removeEntry hlock ht

theorem keeps_popEntry {key : DeadlineKey} (hdue : Due p (.popEntry key) s) (ht : t ≠ p) :
    Keeps t s (s.popEntry key).1 := by
  rcases hdue.entitled with ⟨hlock, hworker, -⟩
  unfold DeadlineScheduler.popEntry
  split
  · rename_i sender _
    have htaken : Keeps t (s.removeEntry key)
        ((s.removeEntry key).track fun trace => { trace with due := trace.due ++ [sender] }) := by
      refine { Keeps.refl t (s.removeEntry key) with due := fun h => ?_ }
      exact absurd (hworker.symm.trans h) fun heq => ht (Option.some.inj heq).symm
    exact (keeps_removeEntry hlock ht).trans htaken
  · exact keeps_removeEntry hlock ht

theorem keeps_refuse (hdue : Due p .refuseSpawn s) (ht : t ≠ p) : Keeps t s (s.refuse p) := by
  rcases hdue.entitled with ⟨hlock, -⟩
  unfold DeadlineScheduler.refuse
  split
  · exact { Keeps.refl t s with guarded := fun h => absurd h (ne_of_holder hlock ht) }
  · exact keeps_record ht (fun h => absurd rfl h) (fun _ h => absurd rfl h) fun _ h => h

theorem keeps_startWorker (hdue : Due p .startWorker s) (ht : t ≠ p) (htq : t ≠ q) :
    Keeps t s (s.startWorker q) := by
  rcases hdue.entitled with ⟨hlock, hdone, hworker⟩
  have hne : s.trace.worker ≠ some t := by
    rcases hworker with hnone | hself
    · rw [hnone]
      nofun
    · rw [hself.1]
      exact fun heq => ht (Option.some.inj heq).symm
  refine { Keeps.refl t s with
    guarded := fun h => absurd h (ne_of_holder hlock ht)
    worker := ⟨fun h => absurd (Option.some.inj h).symm htq, fun h => absurd h hne⟩
    due := fun _ => rfl }

theorem keeps_send {sender : Sender} (hdue : Due p (.send sender) s) (ht : t ≠ p)
    (haccount : ∀ sender, Accounted s sender) : Keeps t s (s.send sender) := by
  have hrecord : Keeps t s (s.record sender fun h => { h with fired := s.now :: h.fired }) := by
    refine keeps_record (p := p) ht (fun hne => ?_) (fun _ _ => rfl) fun _ h => h
    rcases hdue.entitled with ⟨-, hmem⟩ | ⟨rfl, -⟩
    · rcases (haccount sender).due hmem with ⟨key, hkey, -⟩
      rw [hkey]
      nofun
    · exact absurd rfl hne
  refine hrecord.trans { Keeps.refl t _ with due := fun h => ?_ }
  rcases hdue.entitled with ⟨hworker, -⟩ | ⟨rfl, hfresh⟩
  · exact absurd (hworker.symm.trans h) fun heq => ht (Option.some.inj heq).symm
  · refine List.erase_of_not_mem fun hmem => ?_
    rcases (haccount sender).due hmem with ⟨key, hkey, -⟩
    rw [hfresh] at hkey
    cases hkey

theorem keeps_dropSender {sender : Sender} (hdue : Due p (.dropSender sender) s) (ht : t ≠ p)
    (haccount : ∀ sender, Accounted s sender) : Keeps t s (s.dropSender sender) := by
  refine keeps_record (p := p) ht (fun hne => ?_) (fun _ _ => rfl) fun _ h => h
  rcases hdue.entitled with hdisarmed | ⟨rfl, -⟩
  · exact (haccount sender).disarmed hdisarmed
  · exact absurd rfl hne

/-- Every operation leaves the others what they rely on; a start, all but the thread it starts. -/
theorem exec_keeps {op : Op} {r : op.Ret} (hs : Sound s) (hdue : Due p op s)
    (hexec : exec p q c op s = some (s', r)) (ht : t ≠ p) (htq : op = .startWorker → t ≠ q) :
    Keeps t s s' := by
  cases op with
  | lock =>
      simp only [exec, Option.ite_none_right_eq_some, Option.some.injEq] at hexec
      rcases hexec with ⟨hfree, hout⟩
      cases hout
      -- the lock was free, so it is the other's neither before nor after
      refine { Keeps.refl t s with lock := ?_, guarded := fun h => ?_ }
      · rw [hfree]
        exact ⟨fun h => absurd (Option.some.inj h).symm ht, nofun⟩
      · rw [hfree] at h
        cases h
  | unlock =>
      cases hexec
      exact keeps_unlock hdue ht
  | setWorkerRunning running =>
      cases hexec
      exact keeps_setSchedule hdue.entitled ht
  | setNextId id =>
      cases hexec
      exact keeps_setSchedule hdue.entitled.1 ht
  | insertEntry key sender =>
      cases hexec
      exact keeps_insertEntry hdue ht
  | disarmEntry key =>
      have hout : s.disarmEntry key = (s', r) := Option.some.inj hexec
      obtain rfl : (s.disarmEntry key).1 = s' := congrArg Prod.fst hout
      exact keeps_disarmEntry hdue.entitled ht hs.accounted
  | popEntry key =>
      have hout : s.popEntry key = (s', r) := Option.some.inj hexec
      obtain rfl : (s.popEntry key).1 = s' := congrArg Prod.fst hout
      exact keeps_popEntry hdue ht
  | refuseSpawn =>
      cases hexec
      split
      · exact keeps_refuse hdue ht
      · exact .refl t s
  | startWorker =>
      cases hexec
      exact keeps_startWorker hdue ht (htq rfl)
  | notifyOne =>
      cases hexec
      refine { Keeps.refl t s with
        parked := fun wake h => List.mem_of_mem_tail h
        unnotified := ?_ }
      simp [DeadlineScheduler.notifyOne, DeadlineScheduler.track, ht]
  | park wake =>
      cases hexec
      -- whoever parks holds the lock and gives it up
      have hne := ne_of_holder hdue.entitled.1 ht
      refine { Keeps.refl t s with
        lock := ⟨nofun, fun h => absurd h hne⟩, guarded := fun h => absurd h hne
        parked := fun wake' h => ?_ }
      rcases List.mem_append.mp h with hmem | hmem
      · exact hmem
      · exact absurd (congrArg Prod.fst (List.mem_singleton.mp hmem)) ht
  | resume =>
      simp only [exec, Option.ite_none_right_eq_some, Option.some.injEq] at hexec
      rcases hexec with ⟨hfree, hout⟩
      cases hout
      refine { Keeps.refl t s with
        lock := ?_, guarded := fun h => ?_, parked := fun wake h => (List.mem_filter.mp h).1 }
      · rw [hfree]
        exact ⟨fun h => absurd (Option.some.inj h).symm ht, nofun⟩
      · rw [hfree] at h
        cases h
  | send sender =>
      cases hexec
      exact keeps_send hdue ht hs.accounted
  | dropSender sender =>
      cases hexec
      exact keeps_dropSender hdue ht hs.accounted
  | elapse =>
      cases hexec
      exact { Keeps.refl t s with now := Nat.le_add_right s.now c.elapsed }
  | close sender =>
      cases hexec
      exact { Keeps.refl t s with }
  | panic => cases hexec
  | now | channel | checkedAdd | workerRunning | nextId | firstKeyValue | hold | exitWorker
  | panicServing =>
      cases hexec
      exact .refl t s

end Frames

/-! ## The worker -/

section Manned

variable {p q : Party} {s : DeadlineScheduler}

theorem Manned.of_trace {s' : DeadlineScheduler} (h : Manned s) (hlock : s'.lock = s.lock)
    (hschedule : s'.schedule = s.schedule) (hchanged : s'.changed = s.changed)
    (hworker : s'.trace.worker = s.trace.worker)
    (hunnotified : s'.trace.unnotified = s.trace.unnotified)
    (hunreplaced : s.trace.unreplaced = true → s'.trace.unreplaced = true)
    (hdue : s.trace.due = [] → s'.trace.due = []) : Manned s' where
  flag := by
    rw [hlock, hschedule, hworker]
    exact h.flag
  parked := by
    rw [hchanged, hworker]
    exact h.parked
  covered := by
    rw [hchanged, hschedule, hunnotified]
    exact h.covered
  needed key hkey := by
    rw [hworker]
    exact (h.needed key (hschedule ▸ hkey)).imp_right hunreplaced
  idle hnone := hdue (h.idle (hworker ▸ hnone))
  ids := by
    rw [hschedule]
    exact h.ids

/-- Only the worker can be parked. -/
theorem Manned.changed_nil (h : Manned s)
    (hworker : s.trace.worker = none ∨ s.trace.worker = some p ∧ ∀ wake, (p, wake) ∉ s.changed) :
    s.changed = [] := by
  rcases h.parked with hnil | ⟨w, wake, hparked, hw⟩
  · exact hnil
  · rcases hworker with hnone | ⟨hself, hnot⟩
    · rw [hnone] at hw
      cases hw
    · have heq : p = w := Option.some.inj (hself.symm.trans hw)
      refine absurd ?_ (hnot wake)
      rw [hparked, heq]
      exact List.mem_singleton_self _

theorem Covers.erase {wake : Option Instant} {schedule : Schedule} {key : DeadlineKey}
    (h : Covers wake schedule) :
    Covers wake { schedule with armed := schedule.armed.erase key } :=
  fun other hother => h other (Std.TreeMap.mem_of_mem_erase hother)

theorem manned_removeEntry {key : DeadlineKey} (h : Manned s) : Manned (s.removeEntry key) where
  flag := h.flag
  parked := h.parked
  covered w wake hw := (h.covered w wake hw).imp_left Covers.erase
  needed other hother := h.needed other (Std.TreeMap.mem_of_mem_erase hother)
  idle := h.idle
  ids other hother := h.ids other (Std.TreeMap.mem_of_mem_erase hother)

/-- The first key is no later than a key that is not the earliest. -/
theorem deadline_le_of_not_earliest {key first : DeadlineKey} (hfirst : s.schedule.first = some first)
    (h : s.earliest key = false) : first.deadline ≤ key.deadline := by
  refine DeadlineKey.deadline_le ?_
  rw [DeadlineScheduler.earliest, hfirst, Option.all_some, beq_eq_false_iff_ne] at h
  cases hcmp : DeadlineKey.order key first with
  | lt => exact absurd hcmp h
  | eq =>
      rw [Std.OrientedCmp.eq_comm.mp hcmp]
      rfl
  | gt =>
      rw [Std.OrientedCmp.gt_iff_lt.mp hcmp]
      rfl

theorem manned_insertEntry {key : DeadlineKey} {sender : Sender} (h : Manned s)
    (hdue : Due p (.insertEntry key sender) s) : Manned (s.insertEntry p key sender) := by
  rcases hdue.entitled with ⟨hlock, hworker, hids, hid, -, -⟩
  have hmem : ∀ other, other ∈ (s.schedule.armed.insert key sender) →
      other = key ∨ other ∈ s.schedule.armed := by
    intro other hother
    rcases Std.TreeMap.mem_insert.mp hother with heq | hold
    · exact .inl (Std.LawfulEqCmp.eq_of_compare heq).symm
    · exact .inr hold
  refine ⟨fun hnone => ?_, h.parked, fun w wake hw => ?_, fun _ _ => .inl hworker, h.idle, ?_⟩
  · exact absurd (hlock.symm.trans hnone) nofun
  · cases hearliest : s.earliest key with
    | true =>
        refine .inr ?_
        simp [DeadlineScheduler.insertEntry, DeadlineScheduler.track, hearliest]
    | false =>
        have hsame : (s.insertEntry p key sender).trace.unnotified = s.trace.unnotified := by
          simp [DeadlineScheduler.insertEntry, DeadlineScheduler.track, DeadlineScheduler.record,
            DeadlineScheduler.setSchedule, hearliest]
        rw [hsame]
        refine (h.covered w wake hw).imp_left fun hcovers other hother => ?_
        rcases hmem other hother with rfl | hold
        · cases hfirst : s.schedule.first with
          | none => simp [DeadlineScheduler.earliest, hfirst] at hearliest
          | some first =>
              rcases hcovers first (Schedule.first_eq_some hfirst).1 with ⟨instant, hwake, hle⟩
              exact ⟨instant, hwake, hle.trans (deadline_le_of_not_earliest hfirst hearliest)⟩
        · exact hcovers other hold
  · intro other hother
    rcases hmem other hother with rfl | hold
    · exact hid
    · exact h.ids other hold

theorem manned_unlock (h : Manned s) (hdue : Due p .unlock s) : Manned s.unlock := by
  rcases hdue.entitled with ⟨hlock, htrue, hfalse⟩
  cases hrunning : s.schedule.workerRunning with
  | true =>
      have hworker : s.unlock.trace.worker = s.trace.worker := by
        simp [DeadlineScheduler.unlock, DeadlineScheduler.track, hrunning]
      refine ⟨fun _ => ?_, by rw [hworker]; exact h.parked, h.covered, fun key hkey => ?_,
        fun hnone => h.idle (hworker ▸ hnone), h.ids⟩
      · rw [hworker]
        show s.schedule.workerRunning = _
        rw [hrunning]
        exact (Option.isSome_iff_ne_none.mpr (htrue hrunning)).symm
      · rw [hworker]
        exact h.needed key hkey
  | false =>
      have hworker : s.unlock.trace.worker = none := by
        simp [DeadlineScheduler.unlock, DeadlineScheduler.track, hrunning]
      have hchanged : s.changed = [] :=
        h.changed_nil ((hfalse hrunning).imp_right fun hself => ⟨hself.1, hself.2.2.1⟩)
      refine ⟨fun _ => ?_, .inl hchanged, h.covered, fun key hkey => ?_, fun _ => ?_, h.ids⟩
      · rw [hworker]
        exact hrunning
      · rcases hfalse hrunning with hnone | ⟨-, -, -, hunreplaced⟩
        · exact .inr ((h.needed key hkey).resolve_left fun hne => hne hnone)
        · exact .inr (hunreplaced key hkey)
      · rcases hfalse hrunning with hnone | ⟨-, hdone, -⟩
        · exact h.idle hnone
        · exact hdone

theorem manned_startWorker (h : Manned s) (hdue : Due p .startWorker s) :
    Manned (s.startWorker q) := by
  rcases hdue.entitled with ⟨hlock, hdone, hworker⟩
  refine ⟨fun hnone => ?_, .inl (h.changed_nil hworker), h.covered, fun _ _ => .inl nofun, nofun,
    h.ids⟩
  exact absurd (hlock.symm.trans hnone) nofun

theorem manned_park {wake : Option Instant} (h : Manned s) (hdue : Due p (.park wake) s) :
    Manned (s.park p wake) := by
  rcases hdue.entitled with ⟨-, hworker, hnot, hrunning, hcovers⟩
  have hchanged : (s.park p wake).changed = [(p, wake)] := by
    simp [DeadlineScheduler.park, h.changed_nil (.inr ⟨hworker, hnot⟩)]
  refine ⟨fun _ => ?_, .inr ⟨p, wake, hchanged, hworker⟩, fun w wake' hw => ?_, h.needed, h.idle,
    h.ids⟩
  · show s.schedule.workerRunning = s.trace.worker.isSome
    rw [hrunning, hworker]
    rfl
  · rw [hchanged, List.mem_singleton] at hw
    cases hw
    exact .inl hcovers

theorem manned_resume (h : Manned s) (hdue : Due p .resume s) : Manned (s.resume p) := by
  have hworker : s.trace.worker = some p := hdue.entitled
  have hchanged : (s.resume p).changed = [] := by
    rcases h.parked with hnil | ⟨w, wake, hparked, hw⟩
    · simp [DeadlineScheduler.resume, hnil]
    · have heq : p = w := Option.some.inj (hworker.symm.trans hw)
      simp [DeadlineScheduler.resume, hparked, heq]
  refine ⟨nofun, .inl hchanged, fun w wake hw => ?_, h.needed, h.idle, h.ids⟩
  rw [hchanged] at hw
  cases hw

theorem manned_notifyOne (h : Manned s) : Manned (s.notifyOne p) := by
  have hchanged : (s.notifyOne p).changed = [] := by
    rcases h.parked with hnil | ⟨w, wake, hparked, hw⟩
    · simp [DeadlineScheduler.notifyOne, DeadlineScheduler.track, hnil]
    · simp [DeadlineScheduler.notifyOne, DeadlineScheduler.track, hparked]
  refine ⟨h.flag, .inl hchanged, fun w wake hw => ?_, h.needed, h.idle, h.ids⟩
  rw [hchanged] at hw
  cases hw

end Manned

/-! ## The senders -/

section Accounted

variable {p : Party} {s s' : DeadlineScheduler} {sender : Sender}

/-- Nothing that concerns this sender changed. -/
theorem Accounted.same (h : Accounted s sender)
    (hhistory : s'.trace.history sender = s.trace.history sender)
    (harmed : ∀ key : DeadlineKey,
      s'.schedule.armed[key]? = some sender ↔ s.schedule.armed[key]? = some sender)
    (hdue : sender ∈ s'.trace.due ↔ sender ∈ s.trace.due) (hnow : s.now ≤ s'.now) :
    Accounted s' sender where
  armed key hkey := by
    rw [hhistory, hdue]
    exact h.armed key ((harmed key).mp hkey)
  due hmem := by
    rw [hhistory]
    rcases h.due (hdue.mp hmem) with ⟨key, hkey, hle, hfired⟩
    exact ⟨key, hkey, hle.trans hnow, hfired⟩
  kept key hkey := by
    rw [hhistory, hdue, harmed]
    exact h.kept key (hhistory ▸ hkey)
  once := by
    rw [hhistory]
    exact h.once
  punctual := by
    rw [hhistory]
    exact h.punctual
  dropped := by
    rw [hhistory]
    exact h.dropped
  disarmed := by
    rw [hhistory]
    exact h.disarmed
  refused := by
    rw [hhistory]
    exact h.refused

theorem history_record {change : History → History} {q : Sender} :
    (s.record sender change).trace.history q =
      if q = sender then change (s.trace.history q) else s.trace.history q :=
  rfl

theorem getElem?_erase {key other : DeadlineKey} :
    (s.schedule.armed.erase key)[other]? =
      if key = other then none else s.schedule.armed[other]? := by
  rw [Std.TreeMap.getElem?_erase]
  exact if_congr Std.LawfulEqCmp.compare_eq_iff_eq rfl rfl

theorem getElem?_insert {key other : DeadlineKey} :
    (s.schedule.armed.insert key sender)[other]? =
      if key = other then some sender else s.schedule.armed[other]? := by
  rw [Std.TreeMap.getElem?_insert]
  exact if_congr Std.LawfulEqCmp.compare_eq_iff_eq rfl rfl

/-- Only the entry of its own key can be a sender's. -/
theorem Accounted.own (h : Accounted s sender) {key other : DeadlineKey}
    (hown : s.schedule.armed[key]? = some sender) (hother : s.schedule.armed[other]? = some sender) :
    key = other :=
  Option.some.inj ((h.armed key hown).1.symm.trans (h.armed other hother).1)

theorem accounted_insertEntry {key : DeadlineKey} (hs : Sound s)
    (hdue : Due p (.insertEntry key sender) s) (q : Sender) :
    Accounted (s.insertEntry p key sender) q := by
  rcases hdue.entitled with ⟨-, -, hids, -, rfl, hfresh⟩
  have harmed : ∀ other : DeadlineKey, (s.insertEntry sender key sender).schedule.armed[other]? =
      if key = other then some sender else s.schedule.armed[other]? := fun _ => getElem?_insert
  have hhistory : (s.insertEntry sender key sender).trace.history q =
      if q = sender then { s.trace.history q with key := some key } else s.trace.history q := rfl
  by_cases heq : q = sender
  · -- the sender is new: nothing is known of it but its key
    subst heq
    rw [hfresh, if_pos rfl] at hhistory
    have hunarmed : ∀ other : DeadlineKey, s.schedule.armed[other]? ≠ some q := by
      intro other hother
      have hkey := ((hs.accounted q).armed other hother).1
      rw [hfresh] at hkey
      cases hkey
    have hnotdue : q ∉ s.trace.due := by
      intro hmem
      rcases (hs.accounted q).due hmem with ⟨other, hkey, -⟩
      rw [hfresh] at hkey
      cases hkey
    refine ⟨fun other hother => ?_, fun hmem => absurd hmem hnotdue, fun other hother => ?_, ?_, ?_,
      ?_, ?_, ?_⟩ <;> rw [hhistory]
    · rw [harmed] at hother
      split at hother
      · rename_i heq
        rw [heq]
        exact ⟨rfl, rfl, hnotdue⟩
      · exact absurd hother (hunarmed other)
    · rw [hhistory] at hother
      refine .inl ?_
      rw [harmed, if_pos (Option.some.inj hother)]
    · exact Nat.zero_le 1
    · nofun
    · nofun
    · nofun
    · nofun
  · rw [if_neg heq] at hhistory
    refine (hs.accounted q).same hhistory (fun other => ?_) Iff.rfl (Nat.le_refl _)
    rw [harmed]
    split
    · rename_i hother
      subst hother
      refine ⟨fun h => absurd (Option.some.inj h).symm heq, fun h => ?_⟩
      have hmem : key ∈ s.schedule.armed := by
        rw [Std.TreeMap.mem_iff_isSome_getElem?, h]
        rfl
      exact absurd (hids key hmem) (Nat.lt_irrefl _)
    · rfl

/-- Another sender's entry is taken out of the map. -/
theorem Accounted.removeEntry_of_ne {key : DeadlineKey} (h : Accounted s sender)
    (hkey : s.schedule.armed[key]? ≠ some sender) : Accounted (s.removeEntry key) sender := by
  refine h.same rfl (fun other => ?_) Iff.rfl (Nat.le_refl _)
  show (s.schedule.armed.erase key)[other]? = some sender ↔ _
  rw [getElem?_erase]
  split
  · rename_i heq
    subst heq
    exact ⟨nofun, fun h => absurd h hkey⟩
  · rfl

/-- A sender whose entry was taken out has no entry left. -/
theorem Accounted.unarmed_removeEntry {key other : DeadlineKey} (h : Accounted s sender)
    (hkey : s.schedule.armed[key]? = some sender) :
    (s.removeEntry key).schedule.armed[other]? ≠ some sender := by
  show (s.schedule.armed.erase key)[other]? ≠ some sender
  rw [getElem?_erase]
  split
  · nofun
  · rename_i hne
    exact fun hother => hne (h.own hkey hother)

theorem accounted_disarmEntry {key : DeadlineKey} (hs : Sound s) (q : Sender) :
    Accounted (s.disarmEntry key).1 q := by
  unfold DeadlineScheduler.disarmEntry
  split
  · rename_i sender hsender
    by_cases heq : q = sender
    · subst heq
      have h := hs.accounted q
      have hown := h.armed key hsender
      have hhistory : ((s.removeEntry key).record q fun h => { h with disarmed := true }).trace.history
          q = { s.trace.history q with disarmed := true } := if_pos rfl
      refine ⟨fun other hother => absurd hother (h.unarmed_removeEntry hsender),
        fun hmem => absurd hmem hown.2.2, fun other hother => ?_, ?_, ?_, ?_, ?_, ?_⟩ <;>
        dsimp only <;> rw [hhistory]
      · exact .inr (.inr (.inr rfl))
      · exact h.once
      · exact h.punctual
      · exact fun _ _ => rfl
      · intro _
        rw [hown.1]
        nofun
      · exact h.refused
    · have hne : s.schedule.armed[key]? ≠ some q := by
        rw [hsender]
        exact fun h => heq (Option.some.inj h).symm
      exact ((hs.accounted q).removeEntry_of_ne hne).same (if_neg heq) (fun _ => Iff.rfl) Iff.rfl
        (Nat.le_refl _)
  · rename_i hnone
    refine (hs.accounted q).removeEntry_of_ne ?_
    rw [hnone]
    nofun

theorem accounted_popEntry {key : DeadlineKey} (hs : Sound s) (hdue : Due p (.popEntry key) s)
    (q : Sender) : Accounted (s.popEntry key).1 q := by
  unfold DeadlineScheduler.popEntry
  split
  · rename_i sender hsender
    by_cases heq : q = sender
    · subst heq
      have h := hs.accounted q
      have hown := h.armed key hsender
      exact {
        armed := fun other hother => absurd hother (h.unarmed_removeEntry hsender)
        due := fun _ => ⟨key, hown.1, hdue.entitled.2.2, hown.2.1⟩
        kept := fun _ _ => .inr (.inl (List.mem_append_right _ (List.mem_singleton_self q)))
        once := h.once
        punctual := h.punctual
        dropped := h.dropped
        disarmed := h.disarmed
        refused := h.refused }
    · have hne : s.schedule.armed[key]? ≠ some q := by
        rw [hsender]
        exact fun h => heq (Option.some.inj h).symm
      refine ((hs.accounted q).removeEntry_of_ne hne).same rfl (fun _ => Iff.rfl) ?_ (Nat.le_refl _)
      show q ∈ s.trace.due ++ [sender] ↔ q ∈ s.trace.due
      simp [heq]
  · rename_i hnone
    refine (hs.accounted q).removeEntry_of_ne ?_
    rw [hnone]
    nofun

theorem accounted_send (hs : Sound s) (hdue : Due p (.send sender) s) (q : Sender) :
    Accounted (s.send sender) q := by
  by_cases heq : q = sender
  · subst heq
    have h := hs.accounted q
    have hhistory : (s.send q).trace.history q =
        { s.trace.history q with fired := s.now :: (s.trace.history q).fired } := if_pos rfl
    have hnotdue : q ∉ (s.send q).trace.due := hs.nodup.not_mem_erase
    -- it was due, or it belongs to an arm whose deadline had passed already
    have hnew : (s.trace.history q).fired = [] ∧
        (∀ key, (s.trace.history q).key = some key → key.deadline ≤ s.now) ∧
        ∀ key : DeadlineKey, s.schedule.armed[key]? ≠ some q := by
      rcases hdue.entitled with ⟨-, hmem⟩ | ⟨rfl, hfresh⟩
      · rcases h.due hmem with ⟨key, hkey, hle, hfired⟩
        refine ⟨hfired, fun other hother => ?_, fun other hother => ?_⟩
        · rw [hkey] at hother
          cases hother
          exact hle
        · exact (h.armed other hother).2.2 hmem
      · refine ⟨by rw [hfresh], fun other hother => ?_, fun other hother => ?_⟩
        · rw [hfresh] at hother
          cases hother
        · have hkey := (h.armed other hother).1
          rw [hfresh] at hkey
          cases hkey
    refine ⟨fun other hother => absurd hother (hnew.2.2 other), fun hmem => absurd hmem hnotdue,
      fun other hother => ?_, ?_, ?_, ?_, ?_, ?_⟩ <;> rw [hhistory]
    · exact .inr (.inr (.inl nofun))
    · rw [hnew.1]
      exact Nat.le_refl 1
    · rw [hnew.1]
      intro instant hinstant key hkey
      rw [List.mem_singleton.mp hinstant]
      exact hnew.2.1 key hkey
    · exact h.dropped
    · exact h.disarmed
    · exact h.refused
  · refine (hs.accounted q).same (if_neg heq) (fun _ => Iff.rfl) ?_ (Nat.le_refl _)
    exact List.mem_erase_of_ne heq

theorem accounted_dropSender (hs : Sound s) (hdue : Due p (.dropSender sender) s) (q : Sender) :
    Accounted (s.dropSender sender) q := by
  by_cases heq : q = sender
  · subst heq
    have h := hs.accounted q
    have hhistory : (s.dropSender q).trace.history q =
        { s.trace.history q with dropped := true } := if_pos rfl
    refine ⟨?_, ?_, ?_, ?_, ?_, ?_, ?_, ?_⟩ <;> rw [hhistory]
    · exact h.armed
    · exact h.due
    · exact h.kept
    · exact h.once
    · exact h.punctual
    · intro _ hkey
      rcases hdue.entitled with hdisarmed | ⟨rfl, hnone⟩
      · exact hdisarmed
      · exact absurd hnone hkey
    · exact h.disarmed
    · exact h.refused
  · exact (hs.accounted q).same (if_neg heq) (fun _ => Iff.rfl) Iff.rfl (Nat.le_refl _)

theorem accounted_refuse (hs : Sound s) (hdue : Due p .refuseSpawn s) (q : Sender) :
    Accounted (s.refuse p) q := by
  unfold DeadlineScheduler.refuse
  split
  · exact (hs.accounted q).same rfl (fun _ => Iff.rfl) Iff.rfl (Nat.le_refl _)
  · rename_i hworker
    by_cases heq : q = p
    · subst heq
      have h := hs.accounted q
      have hhistory : (s.record q fun h => { h with refused := true }).trace.history q =
          { s.trace.history q with refused := true } := if_pos rfl
      refine ⟨?_, ?_, ?_, ?_, ?_, ?_, ?_, ?_⟩ <;> rw [hhistory]
      · exact h.armed
      · exact h.due
      · exact h.kept
      · exact h.once
      · exact h.punctual
      · exact h.dropped
      · exact h.disarmed
      · exact fun _ => hdue.entitled.2 hworker
    · exact (hs.accounted q).same (if_neg heq) (fun _ => Iff.rfl) Iff.rfl (Nat.le_refl _)

end Accounted

/-! ## What every operation preserves -/

section Preserved

variable {p q : Party} {c : Choice} {s s' : DeadlineScheduler}

theorem sound_popEntry {key : DeadlineKey} (hs : Sound s) (hdue : Due p (.popEntry key) s) :
    Sound (s.popEntry key).1 := by
  refine ⟨?_, ?_, accounted_popEntry hs hdue⟩
  · have hmanned : Manned (s.removeEntry key) := manned_removeEntry hs.manned
    unfold DeadlineScheduler.popEntry
    split
    · exact { hmanned with idle := fun hnone => by cases hdue.entitled.2.1.symm.trans hnone }
    · exact hmanned
  · unfold DeadlineScheduler.popEntry
    split
    · rename_i sender hsender
      have hnotdue := ((hs.accounted sender).armed key hsender).2.2
      exact List.nodup_append.mpr ⟨hs.nodup, by simp, fun a ha b hb hab =>
        hnotdue (List.mem_singleton.mp hb ▸ hab ▸ ha)⟩
    · exact hs.nodup

theorem sound_disarmEntry {key : DeadlineKey} (hs : Sound s) : Sound (s.disarmEntry key).1 := by
  refine ⟨?_, ?_, accounted_disarmEntry hs⟩
  · have hmanned : Manned (s.removeEntry key) := manned_removeEntry hs.manned
    unfold DeadlineScheduler.disarmEntry
    split
    · exact hmanned.of_trace rfl rfl rfl rfl rfl id id
    · exact hmanned
  · unfold DeadlineScheduler.disarmEntry
    split <;> exact hs.nodup

theorem sound_refuse (hs : Sound s) (hdue : Due p .refuseSpawn s) : Sound (s.refuse p) := by
  refine ⟨?_, ?_, accounted_refuse hs hdue⟩
  · unfold DeadlineScheduler.refuse
    split
    · exact hs.manned.of_trace rfl rfl rfl rfl rfl (fun _ => rfl) id
    · exact hs.manned.of_trace rfl rfl rfl rfl rfl id id
  · unfold DeadlineScheduler.refuse
    split <;> exact hs.nodup

/-- Only the clock, the mutex and the question of a worker changed. -/
theorem Sound.of_manned (hs : Sound s) (hmanned : Manned s')
    (harmed : s'.schedule.armed = s.schedule.armed) (hdue : s'.trace.due = s.trace.due)
    (hhistory : s'.trace.history = s.trace.history) (hnow : s.now ≤ s'.now) : Sound s' := by
  refine ⟨hmanned, by rw [hdue]; exact hs.nodup, fun sender => ?_⟩
  refine (hs.accounted sender).same (by rw [hhistory]) (fun key => by rw [harmed])
    (by rw [hdue]) hnow

theorem sound_exec {op : Op} {r : op.Ret} (hs : Sound s) (hdue : Due p op s)
    (hexec : exec p q c op s = some (s', r)) : Sound s' := by
  cases op with
  | lock =>
      simp only [exec, Option.ite_none_right_eq_some, Option.some.injEq] at hexec
      rcases hexec with ⟨-, hout⟩
      cases hout
      exact hs.of_manned { hs.manned with flag := nofun } rfl rfl rfl (Nat.le_refl _)
  | unlock =>
      cases hexec
      exact hs.of_manned (manned_unlock hs.manned hdue) rfl rfl rfl (Nat.le_refl _)
  | setWorkerRunning running =>
      cases hexec
      -- the flag is written under the lock
      have hlock : s.lock = some p := hdue.entitled
      refine hs.of_manned { hs.manned with flag := fun hnone => ?_ } rfl rfl rfl (Nat.le_refl _)
      cases hlock.symm.trans hnone
  | setNextId id =>
      cases hexec
      exact hs.of_manned { hs.manned with
        ids := fun key hkey => (hs.manned.ids key hkey).trans_le hdue.entitled.2 } rfl rfl rfl
          (Nat.le_refl _)
  | insertEntry key sender =>
      cases hexec
      exact ⟨manned_insertEntry hs.manned hdue, hs.nodup, accounted_insertEntry hs hdue⟩
  | disarmEntry key =>
      have hout : s.disarmEntry key = (s', r) := Option.some.inj hexec
      obtain rfl : (s.disarmEntry key).1 = s' := congrArg Prod.fst hout
      exact sound_disarmEntry hs
  | popEntry key =>
      have hout : s.popEntry key = (s', r) := Option.some.inj hexec
      obtain rfl : (s.popEntry key).1 = s' := congrArg Prod.fst hout
      exact sound_popEntry hs hdue
  | refuseSpawn =>
      cases hexec
      split
      · exact sound_refuse hs hdue
      · exact hs
  | startWorker =>
      cases hexec
      exact hs.of_manned (manned_startWorker hs.manned hdue) rfl rfl rfl (Nat.le_refl _)
  | notifyOne =>
      cases hexec
      exact hs.of_manned (manned_notifyOne hs.manned) rfl rfl rfl (Nat.le_refl _)
  | park wake =>
      cases hexec
      exact hs.of_manned (manned_park hs.manned hdue) rfl rfl rfl (Nat.le_refl _)
  | resume =>
      simp only [exec, Option.ite_none_right_eq_some, Option.some.injEq] at hexec
      rcases hexec with ⟨-, hout⟩
      cases hout
      exact hs.of_manned (manned_resume hs.manned hdue) rfl rfl rfl (Nat.le_refl _)
  | send sender =>
      cases hexec
      -- a deadline that is served is no longer due
      refine ⟨hs.manned.of_trace rfl rfl rfl rfl rfl id fun hnil => ?_, hs.nodup.erase sender,
        accounted_send hs hdue⟩
      show s.trace.due.erase sender = []
      rw [hnil]
      rfl
  | dropSender sender =>
      cases hexec
      exact ⟨hs.manned.of_trace rfl rfl rfl rfl rfl id id, hs.nodup, accounted_dropSender hs hdue⟩
  | elapse =>
      cases hexec
      exact hs.of_manned { hs.manned with } rfl rfl rfl (Nat.le_add_right s.now c.elapsed)
  | close sender =>
      cases hexec
      exact hs.of_manned { hs.manned with } rfl rfl rfl (Nat.le_refl _)
  | panic => cases hexec
  | now | channel | checkedAdd | workerRunning | nextId | firstKeyValue | hold | exitWorker
  | panicServing =>
      cases hexec
      exact hs

end Preserved

/-! ## The logic -/

/-- The party has nothing to do with the mutex, the worker or a notification. -/
structure Out (p : Party) (s : DeadlineScheduler) : Prop where
  lock : s.lock ≠ some p
  worker : s.trace.worker ≠ some p
  unnotified : p ∉ s.trace.unnotified
  parked : ∀ wake, (p, wake) ∉ s.changed

theorem Out.keeps {p : Party} {s s' : DeadlineScheduler} (h : Out p s) (hk : Keeps p s s') :
    Out p s' where
  lock hl := h.lock (hk.lock.mp hl)
  worker hw := h.worker (hk.worker.mp hw)
  unnotified hu := h.unnotified (hk.unnotified.mp hu)
  parked wake hp := h.parked wake (hk.parked wake hp)

/-- The channel of the party is untouched. -/
structure Blank (p : Party) (s : DeadlineScheduler) : Prop extends Out p s where
  fresh : s.trace.history p = {}

theorem fresh_keeps {p : Party} {s s' : DeadlineScheduler} (h : s.trace.history p = {})
    (hk : Keeps p s s') : s'.trace.history p = {} := by
  rw [hk.fresh (by rw [h]), h]

theorem Blank.keeps {p : Party} {s s' : DeadlineScheduler} (h : Blank p s) (hk : Keeps p s s') :
    Blank p s' :=
  ⟨h.toOut.keeps hk, fresh_keeps h.fresh hk⟩

/-- The thread runs the worker body. -/
structure Serving (p : Party) (s : DeadlineScheduler) : Prop where
  worker : s.trace.worker = some p
  unnotified : p ∉ s.trace.unnotified
  refused : (s.trace.history p).refused = false

theorem Serving.keeps {p : Party} {s s' : DeadlineScheduler} (h : Serving p s)
    (hk : Keeps p s s') : Serving p s' where
  worker := hk.worker.mpr h.worker
  unnotified hu := h.unnotified (hk.unnotified.mp hu)
  refused := hk.refused.trans h.refused

/-- The worker is outside the mutex and awake, with these senders in its hands. -/
structure Loose (p : Party) (due : List Sender) (s : DeadlineScheduler) : Prop
    extends Serving p s where
  lock : s.lock ≠ some p
  parked : ∀ wake, (p, wake) ∉ s.changed
  due : s.trace.due = due

theorem Loose.keeps {p : Party} {due : List Sender} {s s' : DeadlineScheduler}
    (h : Loose p due s) (hk : Keeps p s s') : Loose p due s' where
  toServing := h.toServing.keeps hk
  lock hl := h.lock (hk.lock.mp hl)
  parked wake hp := h.parked wake (hk.parked wake hp)
  due := (hk.due h.worker).trans h.due

/-- What the answer of an ended party says. -/
structure Ended (p : Party) (a : Answer) (s : DeadlineScheduler) : Prop extends Out p s where
  refused : (s.trace.history p).refused = true ↔ a = .unavailable

def scheduling : Logic protocol Machine.anyRun where
  inv := Sound
  rely := Keeps
  blank := Blank
  pre routine p s := match routine with
    | .worker => Loose p [] s
    | _ => Blank p s
  post := Ended
  check := Due
  rely_refl := Keeps.refl
  rely_trans := Keeps.trans
  blank_rely h hk := h.keeps hk
  post_rely h hk := ⟨h.toOut.keeps hk, by rw [hk.refused]; exact h.refused⟩

theorem wp_op {p : Party} {op : Op} {Q : op.Ret → DeadlineScheduler → Prop}
    {s : DeadlineScheduler} (hforks : protocol.forks op = none)
    (hdue : ∀ s', Keeps p s s' → Sound s' → Due p op s')
    (h : ∀ s' q c s'' r, Keeps p s s' → Sound s' → Sound s'' →
      exec p q c op s' = some (s'', r) → Q r s'') : scheduling.wp p (perform op) Q s := by
  refine scheduling.wp_perform fun s' hk hs' => ⟨hdue s' hk hs', ?_, nofun⟩
  refine Logic.Performs.of_step hforks fun q c s'' r _ _ hexec => ?_
  have hexec : exec p q c op s' = some (s'', r) := hexec
  have hs'' := sound_exec hs' (hdue s' hk hs') hexec
  refine ⟨hs'', fun t ht => ?_, h s' q c s'' r hk hs' hs'' hexec⟩
  refine exec_keeps hs' (hdue s' hk hs') hexec ht fun hstart => ?_
  rw [hstart] at hforks
  cases hforks

end Deadline
end CordisCore
