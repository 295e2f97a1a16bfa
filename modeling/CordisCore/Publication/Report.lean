import CordisCore.Interleaving.Logic
import CordisCore.Publication.Waiting

/-!
# Reports — a wait answers for the publications of its window

What a waiter decides from its snapshots is true of everything that happened since
its baseline, and a waiter that is parked unwoken has missed no broadcast of its
target.
-/

namespace CordisCore
namespace Publication

open Interleaving
open CordisCore.Runtime (FiberState)

/-! ## Windows -/

/-- The window accounts for the counters and for the current state. -/
structure Window.Accounts (w : Window) (s : StatePublication) : Prop where
  revisions : ∀ state, s.revisions state = w.base state + w.published.count state
  current : w.seen.head? = some s.current
  seen : w.published ⊆ w.seen
  announced : w.announced ⊆ w.published
  fired : ∀ early, w.fired = some early → early ⊆ w.published

structure Inv (s : StatePublication) : Prop where
  accounts : ∀ p w, s.window p = some w → w.Accounts s
  armed : ∀ p, s.deadline p ≠ none → ∃ w, s.window p = some w
  fired : ∀ p, s.deadline p = some true → ∃ w early, s.window p = some w ∧ w.fired = some early

/-- Unless the party was woken, no broadcast followed a publication of its target. -/
def Heeds (p : Party) (target : FiberState) (s : StatePublication) : Prop :=
  ∃ w awake, s.window p = some w ∧ s.changed.futures p = some awake ∧
    (awake = false → target ∉ w.announced)

/-- What the steps of the others leave a party. -/
structure Keeps (p : Party) (s s' : StatePublication) : Prop where
  latest : s'.latest p = s.latest p
  window : ∀ w, s.window p = some w → ∃ w', s'.window p = some w' ∧ w'.base = w.base
  unarmed : s.deadline p = none → s'.deadline p = none
  fired : s.deadline p = some true → s'.deadline p = some true
  future : ∀ awake, s.changed.futures p = some awake → ∃ awake', s'.changed.futures p = some awake'
  heeds : ∀ target, Heeds p target s → Heeds p target s'

namespace Keeps

variable {p : Party} {s s' s'' : StatePublication}

theorem refl (p : Party) (s : StatePublication) : Keeps p s s where
  latest := rfl
  window w hw := ⟨w, hw, rfl⟩
  unarmed h := h
  fired h := h
  future awake h := ⟨awake, h⟩
  heeds _ h := h

theorem trans (h : Keeps p s s') (h' : Keeps p s' s'') : Keeps p s s'' where
  latest := h'.latest.trans h.latest
  window w hw := by
    rcases h.window w hw with ⟨w', hw', hbase⟩
    rcases h'.window w' hw' with ⟨w'', hw'', hbase'⟩
    exact ⟨w'', hw'', hbase'.trans hbase⟩
  unarmed hnone := h'.unarmed (h.unarmed hnone)
  fired htrue := h'.fired (h.fired htrue)
  future awake hsome := by
    rcases h.future awake hsome with ⟨awake', hsome'⟩
    exact h'.future awake' hsome'
  heeds target hheeds := h'.heeds target (h.heeds target hheeds)

/-- Nothing of the party's own was written. -/
theorem of_eq (hlatest : s'.latest p = s.latest p) (hwindow : s'.window p = s.window p)
    (hdeadline : s'.deadline p = s.deadline p)
    (hfuture : s'.changed.futures p = s.changed.futures p) : Keeps p s s' where
  latest := hlatest
  window w hw := ⟨w, hwindow.trans hw, rfl⟩
  unarmed h := hdeadline.trans h
  fired h := hdeadline.trans h
  future awake h := ⟨awake, hfuture.trans h⟩
  heeds target := by
    rintro ⟨w, awake, hw, hawake, hmiss⟩
    exact ⟨w, awake, hwindow.trans hw, hfuture.trans hawake, hmiss⟩

/-- Every window changes, without a broadcast. -/
theorem of_track {g : Window → Window} (hbase : ∀ w, (g w).base = w.base)
    (hannounced : ∀ w, (g w).announced = w.announced) (hlatest : s'.latest = s.latest)
    (hwindow : s'.window = (s.track g).window) (hdeadline : s'.deadline = s.deadline)
    (hchanged : s'.changed = s.changed) : Keeps p s s' where
  latest := by rw [hlatest]
  window w hw := by
    refine ⟨g w, ?_, hbase w⟩
    simp only [hwindow, StatePublication.track, hw, Option.map_some]
  unarmed h := by rw [hdeadline, h]
  fired h := by rw [hdeadline, h]
  future awake h := ⟨awake, by rw [hchanged, h]⟩
  heeds target := by
    rintro ⟨w, awake, hw, hawake, hmiss⟩
    refine ⟨g w, awake, ?_, by rw [hchanged, hawake], fun hfalse => ?_⟩
    · simp only [hwindow, StatePublication.track, hw, Option.map_some]
    · rw [hannounced]
      exact hmiss hfalse

end Keeps

/-! ## What each operation keeps -/

namespace StatePublication

variable {s : StatePublication} {p : Party}

theorem inv_publish (h : Inv s) (next : FiberState) : Inv (s.publish next).1 := by
  unfold publish
  split
  · exact h
  · split
    · refine ⟨fun p w hw => ?_, fun p hp => ?_, fun p hp => ?_⟩
      · simp only [become, track, Option.map_eq_some_iff] at hw
        rcases hw with ⟨v, hv, rfl⟩
        have hold := h.accounts p v hv
        exact ⟨hold.revisions, rfl, fun _ hmem => .tail _ (hold.seen hmem), hold.announced, hold.fired⟩
      · rcases h.armed p hp with ⟨w, hw⟩
        exact ⟨w.becomes next, by simp [become, track, hw]⟩
      · rcases h.fired p hp with ⟨w, early, hw, hearly⟩
        exact ⟨w.becomes next, early, by simp [become, track, hw], hearly⟩
    · have hcommit : Inv ((s.become next).commitRevision next) := by
        refine ⟨fun p w hw => ?_, fun p hp => ?_, fun p hp => ?_⟩
        · simp only [commitRevision, become, track, Option.map_map, Option.map_eq_some_iff] at hw
          rcases hw with ⟨v, hv, rfl⟩
          have hold := h.accounts p v hv
          refine ⟨fun state => ?_, rfl, fun state hmem => ?_, fun _ hmem => .tail _ (hold.announced hmem),
            fun early hearly _ hmem => .tail _ (hold.fired early hearly hmem)⟩
          · have hrev := hold.revisions state
            simp only [commitRevision, become, track, Function.comp, Window.publishes,
              Window.becomes, List.count_cons, beq_iff_eq]
            split
            · rename_i heq
              rw [if_pos heq.symm]
              omega
            · rename_i hne
              rw [if_neg (Ne.symm hne)]
              omega
          · rcases List.mem_cons.mp hmem with rfl | hmem
            · exact List.mem_cons_self ..
            · exact .tail _ (hold.seen hmem)
        · rcases h.armed p hp with ⟨w, hw⟩
          exact ⟨(w.becomes next).publishes next, by simp [commitRevision, become, track, hw]⟩
        · rcases h.fired p hp with ⟨w, early, hw, hearly⟩
          exact ⟨(w.becomes next).publishes next, early,
            by simp [commitRevision, become, track, hw], hearly⟩
      split
      · exact hcommit
      · refine ⟨fun p w hw => ?_, hcommit.armed, hcommit.fired⟩
        have hold := hcommit.accounts p w hw
        exact ⟨hold.revisions, hold.current, hold.seen, hold.announced, hold.fired⟩

theorem keeps_publish (next : FiberState) : Keeps p s (s.publish next).1 := by
  have hbecome : Keeps p s (s.become next) :=
    .of_track (g := fun w => w.becomes next) (fun _ => rfl) (fun _ => rfl) rfl rfl rfl rfl
  have hcommit : Keeps p (s.become next) ((s.become next).commitRevision next) :=
    .of_track (g := fun w => w.publishes next) (fun _ => rfl) (fun _ => rfl) rfl rfl rfl rfl
  unfold publish
  split
  · exact .refl p s
  · split
    · exact hbecome
    · split
      · exact hbecome.trans hcommit
      · exact (hbecome.trans hcommit).trans (.of_eq rfl rfl rfl rfl)

theorem inv_notify (h : Inv s) : Inv s.notify := by
  refine ⟨fun p w hw => ?_, fun p hp => ?_, fun p hp => ?_⟩
  · simp only [notify, track, Option.map_eq_some_iff] at hw
    rcases hw with ⟨v, hv, rfl⟩
    have hold := h.accounts p v hv
    exact ⟨hold.revisions, hold.current, hold.seen, fun _ hmem => hmem, hold.fired⟩
  · rcases h.armed p hp with ⟨w, hw⟩
    exact ⟨w.announces, by simp [notify, track, hw]⟩
  · rcases h.fired p hp with ⟨w, early, hw, hearly⟩
    exact ⟨w.announces, early, by simp [notify, track, hw], hearly⟩

/-- A broadcast wakes whoever has a future. -/
theorem keeps_notify : Keeps p s s.notify where
  latest := rfl
  window w hw := ⟨w.announces, by simp [notify, track, hw], rfl⟩
  unarmed h := h
  fired h := h
  future awake h := ⟨true, by simp [notify, track, Notify.notifyWaiters, h]⟩
  heeds target := by
    rintro ⟨w, awake, hw, hawake, -⟩
    exact ⟨w.announces, true, by simp [notify, track, hw],
      by simp [notify, track, Notify.notifyWaiters, hawake], by simp⟩

theorem inv_fire (h : Inv s) {waiter : Party} (harmed : s.deadline waiter = some false) :
    Inv (s.fire waiter) := by
  rcases h.armed waiter (by simp [harmed]) with ⟨v, hv⟩
  refine ⟨fun p w hw => ?_, fun p hp => ?_, fun p hp => ?_⟩
  · by_cases hp : p = waiter
    · subst hp
      simp only [fire, if_true, hv, Option.map_some, Option.some.injEq] at hw
      subst hw
      have hold := h.accounts p v hv
      refine ⟨hold.revisions, hold.current, hold.seen, hold.announced, fun early hearly => ?_⟩
      simp only [Window.fires, Option.some.injEq] at hearly
      subst hearly
      cases hfired : v.fired with
      | none => exact fun _ hmem => hmem
      | some early => exact hold.fired early hfired
    · simp only [fire, if_neg hp] at hw
      have hold := h.accounts p w hw
      exact ⟨hold.revisions, hold.current, hold.seen, hold.announced, hold.fired⟩
  · by_cases heq : p = waiter
    · subst heq
      exact ⟨v.fires, by simp [fire, hv]⟩
    · simp only [fire, if_neg heq] at hp
      rcases h.armed p hp with ⟨w, hw⟩
      exact ⟨w, by simp [fire, heq, hw]⟩
  · by_cases heq : p = waiter
    · subst heq
      exact ⟨v.fires, _, by simp [fire, hv], rfl⟩
    · simp only [fire, if_neg heq] at hp
      rcases h.fired p hp with ⟨w, early, hw, hearly⟩
      exact ⟨w, early, by simp [fire, heq, hw], hearly⟩

theorem keeps_fire {waiter : Party} (harmed : s.deadline waiter = some false) :
    Keeps p s (s.fire waiter) := by
  by_cases hp : p = waiter
  · subst hp
    refine ⟨rfl, fun w hw => ⟨w.fires, by simp [fire, hw], rfl⟩, fun h => ?_, fun _ => ?_,
      fun awake h => ⟨awake, h⟩, fun target => ?_⟩
    · rw [harmed] at h
      cases h
    · simp [fire]
    · rintro ⟨w, awake, hw, hawake, hmiss⟩
      exact ⟨w.fires, awake, by simp [fire, hw], hawake, hmiss⟩
  · exact .of_eq rfl (by simp [fire, hp]) (by simp [fire, hp]) rfl

/-- A waiter opens its window while no deadline of its own is armed. -/
theorem inv_open (h : Inv s) (hnone : s.deadline p = none) :
    Inv (s.setWindow p (some (.opened s.revisions s.current))) := by
  refine ⟨fun q w hw => ?_, fun q hq => ?_, fun q hq => ?_⟩
  · by_cases hqp : q = p
    · simp only [setWindow, if_pos hqp, Option.some.injEq] at hw
      subst hw
      exact ⟨fun state => by simp [Window.opened, setWindow], rfl, nofun, nofun, nofun⟩
    · simp only [setWindow, if_neg hqp] at hw
      have hold := h.accounts q w hw
      exact ⟨hold.revisions, hold.current, hold.seen, hold.announced, hold.fired⟩
  · by_cases hqp : q = p
    · exact ⟨.opened s.revisions s.current, by simp only [setWindow, if_pos hqp]⟩
    · rcases h.armed q hq with ⟨w, hw⟩
      exact ⟨w, by simp only [setWindow, if_neg hqp, hw]⟩
  · by_cases hqp : q = p
    · subst hqp
      have hfired : s.deadline q = some true := hq
      rw [hnone] at hfired
      cases hfired
    · rcases h.fired q hq with ⟨w, early, hw, hearly⟩
      exact ⟨w, early, by simp only [setWindow, if_neg hqp, hw], hearly⟩

end StatePublication

/-! ## The logic -/

/-- What holds when a party is about to perform an operation. -/
def check (p : Party) : Op → StatePublication → Prop
  | .baseline _, s => s.deadline p = none
  | .watchdog, s => s.deadline p = none ∧ ∃ w, s.window p = some w
  | .select target, s => Heeds p target s
  | _, _ => True

/-- What the answer of a wait says about the window of its final snapshot. -/
def Reports (p : Party) (s : StatePublication) : Answer → Prop
  | .waited target (.ok ()) => ∃ w, s.latest p = some w ∧ target ∈ w.seen
  | .waited target (.error .elapsed) => ∃ w early, s.latest p = some w ∧
      w.seen.head? ≠ some target ∧ target ∉ w.published ∧ w.fired = some early ∧ target ∉ early
  | _ => True

theorem Reports.keeps {p : Party} {s s' : StatePublication} {a : Answer} (h : Reports p s a)
    (hk : Keeps p s s') : Reports p s' a := by
  unfold Reports at h ⊢
  split at h
  · rw [hk.latest]
    exact h
  · rw [hk.latest]
    exact h
  · trivial

def reporting : Logic waiting Machine.anyRun where
  inv := Inv
  rely := Keeps
  blank p s := s.deadline p = none
  pre _ p s := s.deadline p = none
  post p a s := Reports p s a
  check := check
  rely_refl := Keeps.refl
  rely_trans := Keeps.trans
  blank_rely h hk := hk.unarmed h
  post_rely h hk := h.keeps hk

theorem exec_keeps {p q : Party} {c : Choice} {op : Op} {s s' : StatePublication} {r : op.Ret}
    (h : Inv s) (hcheck : check p op s) (hexec : exec p q c op s = some (s', r)) :
    Inv s' ∧ ∀ t, t ≠ p → Keeps t s s' := by
  -- what leaves revisions, state, windows and deadlines alone keeps the invariant
  have hsame : ∀ {s' : StatePublication}, s'.revisions = s.revisions → s'.current = s.current →
      s'.window = s.window → s'.deadline = s.deadline → Inv s' := by
    intro s' hrevisions hcurrent hwindow hdeadline
    refine ⟨fun t w hw => ?_, fun t ht => ?_, fun t ht => ?_⟩
    · have hold := h.accounts t w (by rw [← hwindow, hw])
      exact ⟨by rw [hrevisions]; exact hold.revisions, by rw [hcurrent]; exact hold.current,
        hold.seen, hold.announced, hold.fired⟩
    · rw [hdeadline] at ht
      rw [hwindow]
      exact h.armed t ht
    · rw [hdeadline] at ht
      rw [hwindow]
      exact h.fired t ht
  cases op with
  | current =>
      cases hexec
      exact ⟨h, fun t _ => .refl t s⟩
  | publish next =>
      have hout : s.publish next = (s', r) := Option.some.inj hexec
      obtain rfl : (s.publish next).1 = s' := congrArg Prod.fst hout
      exact ⟨StatePublication.inv_publish h next, fun t _ => StatePublication.keeps_publish next⟩
  | notify =>
      cases hexec
      exact ⟨StatePublication.inv_notify h, fun t _ => StatePublication.keeps_notify⟩
  | fire waiter =>
      simp only [exec, Option.ite_none_right_eq_some, Option.some.injEq] at hexec
      rcases hexec with ⟨harmed, hout⟩
      cases hout
      exact ⟨StatePublication.inv_fire h harmed, fun t _ => StatePublication.keeps_fire harmed⟩
  | baseline target =>
      cases hexec
      -- the caller opens its window: nothing has been published in it yet
      refine ⟨StatePublication.inv_open h hcheck, fun t ht => .of_eq rfl ?_ rfl rfl⟩
      simp only [StatePublication.setWindow, if_neg ht]
  | snapshot target =>
      cases hexec
      refine ⟨hsame rfl rfl rfl rfl, fun t ht => .of_eq ?_ rfl rfl rfl⟩
      simp only [StatePublication.look, if_neg ht]
  | watchdog =>
      simp only [exec] at hexec
      split at hexec
      · cases hexec
        -- the watchdog that was armed has not fired yet
        refine ⟨⟨fun t w hw => ?_, fun t ht => ?_, fun t ht => ?_⟩, fun t ht => .of_eq rfl rfl ?_ rfl⟩
        · have hold := h.accounts t w hw
          exact ⟨hold.revisions, hold.current, hold.seen, hold.announced, hold.fired⟩
        · by_cases htp : t = p
          · exact htp ▸ hcheck.2
          · simp only [if_neg htp] at ht
            exact h.armed t ht
        · by_cases htp : t = p
          · simp [htp] at ht
          · simp only [if_neg htp] at ht
            exact h.fired t ht
        · simp only [if_neg ht]
      · cases hexec
        exact ⟨h, fun t _ => .refl t s⟩
  | notified =>
      cases hexec
      exact ⟨hsame rfl rfl rfl rfl, fun t ht => .of_eq rfl rfl rfl (Notify.notified_of_ne ht)⟩
  | select target =>
      have heq : s' = s := by
        simp only [exec] at hexec
        split at hexec <;> first | (cases hexec; rfl) | cases hexec
      subst heq
      exact ⟨h, fun t _ => .refl t s'⟩
  | discard =>
      cases hexec
      exact ⟨hsame rfl rfl rfl rfl, fun t ht => .of_eq rfl rfl rfl (Notify.discard_of_ne ht)⟩
  | panic => cases hexec

/-- One operation whose check is known, where nobody waits. -/
theorem wp_op {p : Party} {op : Op} {Q : op.Ret → StatePublication → Prop}
    {s : StatePublication} (hawaits : waiting.awaits op = false)
    (hcheck : ∀ s', Keeps p s s' → Inv s' → check p op s')
    (h : ∀ s' q c s'' r, Keeps p s s' → Inv s' → exec p q c op s' = some (s'', r) → Inv s'' →
      Q r s'') : reporting.wp p (perform op) Q s := by
  refine reporting.wp_perform fun s' hk hs' => ⟨hcheck s' hk hs', ?_, fun hwaits => ?_⟩
  · refine Logic.Performs.of_step rfl fun q c s'' r _ _ hexec => ?_
    have hexec : exec p q c op s' = some (s'', r) := hexec
    rcases exec_keeps hs' (hcheck s' hk hs') hexec with ⟨hinv, hothers⟩
    exact ⟨hinv, hothers, h s' q c s'' r hk hs' hexec hinv⟩
  · rw [hawaits] at hwaits
    cases hwaits

/-! ## The waiter -/

/-- The party's window began with this revision of the target. -/
def Based (p : Party) (target : FiberState) (baseline : Nat) (s : StatePublication) : Prop :=
  ∃ w, s.window p = some w ∧ w.base target = baseline

theorem Based.keeps {p : Party} {target : FiberState} {baseline : Nat} {s s' : StatePublication}
    (h : Based p target baseline s) (hk : Keeps p s s') : Based p target baseline s' := by
  rcases h with ⟨w, hw, hbase⟩
  rcases hk.window w hw with ⟨w', hw', hsame⟩
  exact ⟨w', hw', by rw [hsame, hbase]⟩

/-- What a snapshot of the target says about the window. -/
theorem snapshot_reports {p : Party} {target : FiberState} {baseline : Nat} {s : StatePublication}
    (hs : Inv s) (hbase : Based p target baseline s) :
    (s.current = target ∨ s.revisions target ≠ baseline →
      ∃ w, (s.look p).latest p = some w ∧ target ∈ w.seen) ∧
    (¬ (s.current = target ∨ s.revisions target ≠ baseline) →
      ∃ w, s.window p = some w ∧ (s.look p).latest p = some w ∧ w.seen.head? ≠ some target ∧
        target ∉ w.published) := by
  rcases hbase with ⟨w, hw, hbase⟩
  have hacc := hs.accounts p w hw
  have hlook : (s.look p).latest p = some w := by simp [StatePublication.look, hw]
  have hcount := hacc.revisions target
  rw [hbase] at hcount
  constructor
  · rintro (hcurrent | hrevision)
    · have hhead := hacc.current
      rw [hcurrent] at hhead
      exact ⟨w, hlook, List.mem_of_mem_head? hhead⟩
    · have hpublished : target ∈ w.published := by
        refine List.count_pos_iff.mp ?_
        omega
      exact ⟨w, hlook, hacc.seen hpublished⟩
  · intro hmiss
    rw [not_or, not_not] at hmiss
    refine ⟨w, hw, hlook, ?_, fun hpublished => ?_⟩
    · rw [hacc.current]
      exact fun heq => hmiss.1 (Option.some.inj heq)
    · have hpos := List.count_pos_iff.mpr hpublished
      omega

/-- At its latest look the party missed the target. -/
def Missed (p : Party) (target : FiberState) (s : StatePublication) : Prop :=
  ∃ w, s.window p = some w ∧ s.latest p = some w ∧ w.seen.head? ≠ some target ∧
    target ∉ w.published

theorem wp_snapshot {p : Party} {target : FiberState} {baseline : Nat} {s : StatePublication}
    (hbase : Based p target baseline s) {R : StatePublication → Prop}
    (hR : ∀ s', Keeps p s s' → R (s'.look p)) :
    reporting.wp p (perform (.snapshot target)) (fun r s' =>
      (r.1 = target ∨ r.2 ≠ baseline → Reports p s' (.waited target (.ok ()))) ∧
        (¬ (r.1 = target ∨ r.2 ≠ baseline) → Missed p target s') ∧
        Based p target baseline s' ∧ R s') s := by
  refine wp_op rfl (fun _ _ _ => trivial) ?_
  intro s₁ q c s₂ r hk hs₁ hexec _
  cases hexec
  have hbase₁ := hbase.keeps hk
  have hreport := snapshot_reports hs₁ hbase₁
  exact ⟨hreport.1, hreport.2, hbase₁, hR s₁ hk⟩

/-- A party that looked after it created its future may park on it. -/
theorem heeds_of_missed {p : Party} {target : FiberState} {s : StatePublication} (hs : Inv s)
    (h : Missed p target s) (hfuture : ∃ awake, s.changed.futures p = some awake) :
    Heeds p target s := by
  rcases h with ⟨w, hw, -, -, hnot⟩
  rcases hfuture with ⟨awake, hawake⟩
  exact ⟨w, awake, hw, hawake, fun _ hmem => hnot ((hs.accounts p w hw).announced hmem)⟩

/-- Parking keeps the window, and the deadline branch is taken only once the deadline fired. -/
theorem wp_select {p : Party} {target : FiberState} {baseline : Nat} {s : StatePublication}
    (hheeds : Heeds p target s) (hbase : Based p target baseline s) :
    reporting.wp p (perform (.select target)) (fun branch s' =>
      Based p target baseline s' ∧ (branch = .deadline → s'.deadline p = some true)) s := by
  refine reporting.wp_perform fun s' hk hs' => ⟨hk.heeds target hheeds, ?_, ?_⟩
  · refine Logic.Performs.of_step rfl fun q c s'' r _ _ hexec => ?_
    have hexec : exec p q c (.select target) s' = some (s'', r) := hexec
    have hcheck : check p (.select target) s' := hk.heeds target hheeds
    rcases exec_keeps hs' hcheck hexec with ⟨hinv, hothers⟩
    refine ⟨hinv, hothers, ?_⟩
    have hbase' := hbase.keeps hk
    simp only [exec] at hexec
    split at hexec
    · rename_i hfired hwoken
      cases hexec
      exact ⟨hbase', fun _ => beq_iff_eq.mp hfired⟩
    · rename_i hfired hwoken
      cases hexec
      exact ⟨hbase', fun _ => beq_iff_eq.mp hfired⟩
    · cases hexec
      exact ⟨hbase', nofun⟩
    · cases hexec
  · intro _ _ s'' next hdrop
    cases hdrop
    refine ⟨⟨fun t w hw => ?_, hs'.armed, hs'.fired⟩, fun t ht => ?_, trivial⟩
    · have hold := hs'.accounts t w hw
      exact ⟨hold.revisions, hold.current, hold.seen, hold.announced, hold.fired⟩
    · exact .of_eq rfl rfl rfl (Notify.discard_of_ne ht)

theorem wp_discard {p : Party} {s : StatePublication} {R : StatePublication → Prop}
    (hR : ∀ s', Keeps p s s' → R { s' with changed := s'.changed.discard p }) :
    reporting.wp p (perform .discard) (fun _ s' => R s') s := by
  refine wp_op rfl (fun _ _ _ => trivial) ?_
  intro s₁ q c s₂ r hk _ hexec _
  cases hexec
  exact hR s₁ hk

/-- The final look, after the deadline fired. -/
theorem reports_elapsed {p : Party} {target : FiberState} {s : StatePublication} (hs : Inv s)
    (h : Missed p target s) (hfired : s.deadline p = some true) :
    Reports p s (.waited target (.error .elapsed)) := by
  rcases h with ⟨w, hw, hlatest, hcurrent, hnot⟩
  rcases hs.fired p hfired with ⟨w', early, hw', hearly⟩
  rw [hw, Option.some.injEq] at hw'
  subst hw'
  exact ⟨w, early, hlatest, hcurrent, hnot, hearly,
    fun hmem => hnot ((hs.accounts p w hw).fired early hearly hmem)⟩

theorem wp_waitForAfter {p : Party} {target : FiberState} {baseline : Nat} {s : StatePublication}
    (hs : Inv s) (hbase : Based p target baseline s) (hnone : s.deadline p = none) :
    reporting.wp p (waitForAfter target baseline)
      (fun result s' => Reports p s' (.waited target result)) s := by
  refine reporting.wp_seq hs (wp_snapshot hbase (R := fun s' => s'.deadline p = none)
    fun s' hk => hk.unarmed hnone) ?_
  rintro ⟨current, revision⟩ s₁ hs₁ ⟨hhit, -, hbase₁, hnone₁⟩
  simp only
  split
  · rename_i hcond
    exact reporting.wp_pure (hhit hcond)
  have harm : reporting.wp p (perform .watchdog) (fun _ s' => Based p target baseline s') s₁ := by
    refine wp_op rfl (fun s₂ hk _ => ?_) fun s₂ q c s₃ r hk _ hexec _ => ?_
    · rcases hbase₁.keeps hk with ⟨w, hw, -⟩
      exact ⟨hk.unarmed hnone₁, w, hw⟩
    · have hbase₂ := hbase₁.keeps hk
      simp only [exec] at hexec
      split at hexec
      · cases hexec
        exact hbase₂
      · cases hexec
        exact hbase₂
  refine reporting.wp_seq hs₁ harm fun armed s₂ hs₂ hbase₂ => ?_
  split
  · -- the loop parks only after a look that missed the target
    refine reporting.wp_iterate (fun _ s' => Based p target baseline s') hbase₂ ?_
    intro _ s₃ hs₃ hbase₃
    have hcreate : reporting.wp p (perform .notified) (fun _ s' => Based p target baseline s' ∧
        ∃ awake, s'.changed.futures p = some awake) s₃ := by
      refine wp_op rfl (fun _ _ _ => trivial) fun s₄ q c s₅ r hk _ hexec _ => ?_
      have hbase₄ := hbase₃.keeps hk
      cases hexec
      exact ⟨hbase₄, false, Notify.notified_self⟩
    refine reporting.wp_seq hs₃ hcreate fun _ s₄ hs₄ h₄ => ?_
    refine reporting.wp_seq hs₄ (wp_snapshot h₄.1
      (R := fun s' => ∃ awake, s'.changed.futures p = some awake) fun s' hk => ?_) ?_
    · rcases h₄.2 with ⟨awake, hawake⟩
      exact hk.future awake hawake
    rintro ⟨current, revision⟩ s₅ hs₅ ⟨hhit, hmiss, hbase₅, hfuture⟩
    simp only
    split
    · rename_i hcond
      exact reporting.wp_seq hs₅ (wp_discard fun s' hk => (hhit hcond).keeps hk) fun _ _ _ h => h
    · rename_i hcond
      have hheeds := heeds_of_missed hs₅ (hmiss hcond) hfuture
      refine reporting.wp_seq hs₅ (wp_select hheeds hbase₅) fun branch s₆ hs₆ h₆ => ?_
      cases branch with
      | notified => exact h₆.1
      | deadline =>
          refine reporting.wp_seq hs₆ (wp_snapshot h₆.1
            (R := fun s' => s'.deadline p = some true) fun s' hk => hk.fired (h₆.2 rfl)) ?_
          rintro ⟨current, revision⟩ s₇ hs₇ ⟨hhit, hmiss, -, hfired⟩
          simp only
          by_cases hcond : current = target ∨ revision ≠ baseline
          · have hdone := hhit hcond
            refine reporting.wp_seq hs₇ (wp_discard (R := fun s' => Reports p s' (.waited target (.ok ())))
              fun s' hk => have hstill := hdone.keeps hk; hstill) fun _ _ _ h => ?_
            rw [if_pos hcond]
            exact h
          · have hdone := reports_elapsed hs₇ (hmiss hcond) hfired
            refine reporting.wp_seq hs₇
              (wp_discard (R := fun s' => Reports p s' (.waited target (.error .elapsed)))
                fun s' hk => have hstill := hdone.keeps hk; hstill) fun _ _ _ h => ?_
            rw [if_neg hcond]
            exact h
  · exact reporting.wp_pure trivial

theorem wp_waitFor {p : Party} {target : FiberState} {s : StatePublication} (hs : Inv s)
    (hnone : s.deadline p = none) :
    reporting.wp p (waitFor target) (fun result s' => Reports p s' (.waited target result)) s := by
  have hopen : reporting.wp p (perform (.baseline target))
      (fun r s' => Based p target r.2 s' ∧ s'.deadline p = none) s := by
    refine wp_op rfl (fun s₁ hk _ => hk.unarmed hnone) fun s₁ q c s₂ r hk _ hexec _ => ?_
    have hnone₁ := hk.unarmed hnone
    cases hexec
    exact ⟨⟨.opened s₁.revisions s₁.current, by simp [StatePublication.setWindow], rfl⟩, hnone₁⟩
  refine reporting.wp_seq hs hopen ?_
  rintro ⟨current, baseline⟩ s₁ hs₁ ⟨hbase, hnone₁⟩
  exact wp_waitForAfter hs₁ hbase hnone₁

/-! ## Every routine is verified -/

/-- An operation of a party that is no waiter. -/
theorem wp_plain {p : Party} {op : Op} {s : StatePublication} (hawaits : waiting.awaits op = false)
    (hcheck : ∀ s', check p op s') : reporting.wp p (perform op) (fun _ _ => True) s :=
  wp_op hawaits (fun s' _ _ => hcheck s') fun _ _ _ _ _ _ _ _ _ => trivial

theorem wp_transition {p : Party} {next : FiberState} {s : StatePublication} (hs : Inv s) :
    reporting.wp p (transition next) (fun _ _ => True) s := by
  refine reporting.wp_seq hs (wp_plain rfl fun _ => trivial) fun old s₁ hs₁ _ => ?_
  split
  · trivial
  · refine reporting.wp_seq hs₁ (wp_plain rfl fun _ => trivial) fun published s₂ hs₂ _ => ?_
    cases published with
    | panicked =>
        exact reporting.wp_seq hs₂ (wp_op (Q := fun _ _ => False) rfl (fun _ _ _ => trivial)
          fun _ _ _ _ r _ _ _ _ => nomatch r) nofun
    | unchanged => exact wp_plain rfl fun _ => trivial
    | committed old => exact wp_plain rfl fun _ => trivial

theorem wp_body {p : Party} {routine : Routine} {s : StatePublication} (hs : Inv s)
    (hnone : s.deadline p = none) :
    reporting.wp p (body routine) (fun a s' => Reports p s' a) s := by
  cases routine with
  | transition next => exact reporting.wp_seq hs (wp_transition hs) fun _ _ _ _ => trivial
  | publish next =>
      exact reporting.wp_seq hs (wp_plain rfl fun _ => trivial) fun _ _ _ _ => trivial
  | notify => exact reporting.wp_seq hs (wp_plain rfl fun _ => trivial) fun _ _ _ _ => trivial
  | fire waiter => exact reporting.wp_seq hs (wp_plain rfl fun _ => trivial) fun _ _ _ _ => trivial
  | waitFor target => exact reporting.wp_seq hs (wp_waitFor hs hnone) fun _ _ _ h => h

theorem reporting_verified : reporting.Verified where
  grounded _ _ _ _ _ := trivial
  init := ⟨nofun, fun _ h => absurd rfl h, nofun⟩
  vacant _ := rfl
  body _ _ _ hs hnone := wp_body hs hnone
  enter p routine s s' hs hnone henter := by
    cases henter
    exact ⟨hs, fun t _ => .refl t s, hnone⟩

/-! ## What waits report -/

/-- Every answer tells the truth about the window of its wait, and no broadcast is missed. -/
structure Reported (cfg : Config StatePublication Op Op.Ret Answer) : Prop where
  /-- The target was current at the first poll or became so afterwards. -/
  ok : ∀ p target, cfg.pool p = some (.pure (.waited target (.ok ()))) →
    ∃ w, cfg.shared.latest p = some w ∧ target ∈ w.seen
  /-- The deadline has fired, and the final look found the target neither current nor published
  since the baseline; in particular it was not published before the deadline. -/
  elapsed : ∀ p target, cfg.pool p = some (.pure (.waited target (.error .elapsed))) →
    ∃ w early, cfg.shared.latest p = some w ∧ w.seen.head? ≠ some target ∧
      target ∉ w.published ∧ w.fired = some early ∧ target ∉ early
  /-- A parked waiter whose target was published and broadcast is woken, and can go on. -/
  woken : ∀ p target next, cfg.pool p = some (.act (.select target) next) →
    ∃ w, cfg.shared.window p = some w ∧ (target ∈ w.announced →
      cfg.shared.changed.woken p = true ∧
        ∀ choice, ∃ cfg', waiting.step cfg (.step p p choice) = some cfg')

theorem reported_of_reachable {cfg : Config StatePublication Op Op.Ret Answer}
    (h : waiting.Reachable Machine.anyRun cfg) : Reported cfg where
  ok _ _ hp := Logic.post_of_reachable reporting_verified h hp
  elapsed _ _ hp := Logic.post_of_reachable reporting_verified h hp
  woken p target next hp := by
    have hheeds : Heeds p target cfg.shared := Logic.check_of_reachable reporting_verified h hp
    rcases hheeds with ⟨w, awake, hw, hawake, hmiss⟩
    refine ⟨w, hw, fun hannounced => ?_⟩
    have hwoken : cfg.shared.changed.woken p = true := by
      rw [Notify.woken_iff, hawake]
      cases awake with
      | true => rfl
      | false => exact absurd hannounced (hmiss rfl)
    refine ⟨hwoken, fun choice => ?_⟩
    simp only [Machine.step, hp, waiting, exec, hwoken]
    cases cfg.shared.deadline p == some true <;> exact ⟨_, rfl⟩

/-! ## A superseded publication -/

abbrev Labels := List (Label Routine Choice)

/-- A party enters a routine and takes some steps. -/
def begins (p : Party) (routine : Routine) (n : Nat) : Labels :=
  .enter p routine :: List.replicate n (.step p 0 true)

/-- A waiter parks for Loading, Loading is published and superseded by Active, and the waiter is
polled again. -/
def supersededLoading : Labels :=
  begins 1 (.waitFor .loading) 6 ++ begins 2 (.transition .loading) 3 ++
    begins 3 (.transition .active) 3 ++ List.replicate 5 (.step 1 0 false)

def superseded : Config StatePublication Op Op.Ret Answer :=
  (waiting.run (fun _ _ _ _ => true) supersededLoading waiting.start).get (by decide +kernel)

theorem reachable_superseded : waiting.Reachable Machine.anyRun superseded :=
  Machine.Reachable.of_run waiting (fun _ _ _ _ _ => trivial) supersededLoading .start
    (Option.some_get _).symm

theorem reported_superseded : superseded.shared.current = .active ∧ Reported superseded :=
  ⟨by decide +kernel, reported_of_reachable reachable_superseded⟩

end Publication
end CordisCore
