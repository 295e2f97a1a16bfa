import CordisCore.Interleaving.Alone
import CordisCore.Recheck.Ended

/-!
# Ready on a disposed Fiber — when it answers, and when it spins
-/

namespace CordisCore
namespace Runtime

open Interleaving
open Interleaving.Machine

/-! ## Completed disposals -/

/-- The Fiber is dead and Disposed, and its slot is free. -/
structure Ended (s : Root) (f : FiberId) : Prop where
  allocated : f < s.nextFiber
  alive : (s.fibers f).flags .alive = false
  state : (s.fibers f).state = .disposed
  idle : (s.fibers f).inertia = .idle

@[simp] theorem put_self (s : Root) (f : FiberId) : s.put f (s.fibers f) = s := by
  rcases s with ⟨fibers⟩
  simp only [Root.put, Root.mk.injEq, and_true]
  funext g
  split
  · rename_i hg
    rw [hg]
  · rfl

variable {p : Party} {f : FiberId} {s : Root} {n : Nat}

/-! ## What each look of ready finds -/

/-- An operation that only looks at a Fiber leaves everything as it is. -/
theorem gives_look {op : FiberOp} {r : op.Ret} (hf : f < s.nextFiber)
    (h : ∀ choice, op.exec p choice (s.fibers f) = some (s.fibers f, r)) :
    cordis.Gives p 1 (on f op) s r s := by
  refine Gives.perform rfl fun fresh choice => ?_
  simp [cordis, execAllocated, Op.touches, hf, exec, h choice]

theorem gives_hasCommittedRecheck (hf : f < s.nextFiber) :
    cordis.Gives p 2 (hasCommittedRecheck f) s
      ((s.fibers f).recheckCommitted != (s.fibers f).recheckSettled) s :=
  (gives_look hf fun _ => rfl).bind ((gives_look hf fun _ => rfl).bind (Gives.pure _ s))

theorem gives_waitIdle (hf : f < s.nextFiber) (h : (s.fibers f).inertia = .idle) :
    cordis.Gives p 2 (waitIdle f) s () s := by
  refine Gives.leave (Gives.bind (n := 1) (m := 0) (b := true) ?_ (Gives.pure _ s))
  exact gives_look hf fun _ => by simp [FiberOp.exec, h]

theorem gives_judgeReady_again (hf : f < s.nextFiber) (ho : Outstanding s f) {observed : FiberState × Nat} :
    cordis.Gives p 2 (judgeReady f observed) s (.inl ()) s := by
  have hne : ((s.fibers f).recheckCommitted != (s.fibers f).recheckSettled) = true := by
    simpa [Outstanding] using ho
  refine (gives_hasCommittedRecheck hf).bind (m := 0) ?_
  rw [hne]
  exact Gives.pure _ s

/-- Past the nudge, a disposed Fiber is judged at once. -/
theorem gives_readyRound {s' : Root} {k m : Nat} {o : Unit ⊕ Except ReadyError FiberState}
    (hrenudge : cordis.Gives p k (renudge f) s () s') (he : Ended s' f)
    (hjudge : cordis.Gives p m (judgeReady f (.disposed, (s'.fibers f).sequence)) s' o s') :
    cordis.Gives p (m + 4 + k) (readyRound f) s o s' := by
  have hobserve : cordis.Gives p 1 (on f .observe) s' (.disposed, (s'.fibers f).sequence) s' :=
    gives_look he.allocated fun _ => by simp [FiberOp.exec, he.state]
  have hidle : cordis.Gives p 1 (on f .isIdle) s' true s' :=
    gives_look he.allocated fun _ => by simp [FiberOp.exec, he.idle]
  refine hrenudge.bind (m := m + 4) ?_
  refine (gives_waitIdle he.allocated he.idle).bind (m := m + 2) ?_
  exact hobserve.bind (m := m + 1) (hidle.bind hjudge)

/-- The kick of a dead Fiber leaves only its own mark in the instrumentation. -/
theorem gives_kick_dead (he : Ended s f) :
    cordis.Gives p 2 (kick f 0) s () (s.put f ((s.fibers f).drive 0)) := by
  have hload : cordis.Gives p 1 (on f (.load .alive)) s false s :=
    gives_look he.allocated fun _ => by simp [FiberOp.exec, he.alive]
  have hensure : cordis.Gives p 1 (ensureDriven f 0) s () s :=
    hload.bind (m := 0) (Gives.pure _ s)
  refine hensure.bind (m := 1) ?_
  exact Gives.perform rfl fun _ _ => by
    simp [cordis, execAllocated, Op.touches, he.allocated, exec, FiberOp.exec]

theorem Ended.drive (he : Ended s f) (revision : Nat) :
    Ended (s.put f ((s.fibers f).drive revision)) f := by
  refine ⟨he.allocated, ?_, ?_, ?_⟩ <;> rw [Root.fibers_put]
  · exact he.alive
  · exact he.state
  · exact he.idle

theorem Outstanding.drive (ho : Outstanding s f) (revision : Nat) :
    Outstanding (s.put f ((s.fibers f).drive revision)) f := by
  unfold Outstanding
  rw [Root.fibers_put]
  exact ho

/-- The nudge of a dead Fiber acknowledges nothing. -/
theorem gives_renudge_again (he : Ended s f) (ho : Outstanding s f) :
    ∃ k s', Ended s' f ∧ Outstanding s' f ∧ cordis.Gives p k (renudge f) s () s' := by
  have hne : ((s.fibers f).recheckCommitted != (s.fibers f).recheckSettled) = true := by
    simpa [Outstanding] using ho
  have hinstalled : cordis.Gives p 1 (on f .installed) s (s.fibers f).effectiveInput.isSome s :=
    gives_look he.allocated fun _ => rfl
  cases hin : (s.fibers f).effectiveInput.isSome with
  | true =>
      refine ⟨5, _, he.drive 0, ho.drive 0, (gives_hasCommittedRecheck he.allocated).bind (m := 3) ?_⟩
      rw [hne]
      refine hinstalled.bind (m := 2) ?_
      rw [hin]
      exact gives_kick_dead he
  | false =>
      refine ⟨3, s, he, ho, (gives_hasCommittedRecheck he.allocated).bind (m := 1) ?_⟩
      rw [hne]
      refine hinstalled.bind (m := 0) ?_
      rw [hin]
      exact Gives.pure _ s

/-! ## Nobody acknowledges -/

variable {pool : Party → Option (Prog Answer)} {a : Answer}

theorem not_answers_readyLoop (he : Ended s f) (ho : Outstanding s f)
    {next : Except ReadyError FiberState → Prog Answer} :
    ¬ cordis.AnswersWithin p a n (at_ p pool s ((readyLoop f).bind next)) := by
  refine not_answersWithin_of_again (fun _ s => Ended s f ∧ Outstanding s f) ?_ ⟨he, ho⟩
  rintro _ s ⟨he, ho⟩
  rcases gives_renudge_again he ho with ⟨k, s', he', ho', hrenudge⟩
  exact ⟨_, (), s', ⟨he', ho'⟩, gives_readyRound hrenudge he'
    (gives_judgeReady_again he'.allocated ho')⟩

/-! ## The others move in between -/

/-- The slot was taken. -/
def takes (f : FiberId) (s s' : Root) : Nat :=
  if (s.fibers f).inertia = .idle ∧ (s'.fibers f).inertia ≠ .idle then 1 else 0

/-- Waiting for the slot that somebody holds. -/
def WaitsForSlot (f : FiberId) (op : Op) (s : Root) : Prop :=
  op = .on f .awaitIdle ∧ (s.fibers f).inertia ≠ .idle

/-- Whoever takes the slot costs `ready` another round. -/
def pace (f : FiberId) (sequence revision : Nat) : Pace Root Op where
  inv := Rested f sequence revision
  hits := takes f
  cost := 10
  waits := WaitsForSlot f

/-- What is left of the budget while the slot is free, and while somebody holds it. -/
def Enough (f : FiberId) (free held : Nat) (x : Root × Nat) : Prop :=
  if (x.1.fibers f).inertia = .idle then free ≤ x.2 else held ≤ x.2

variable {sequence revision free held : Nat} {x : Root × Nat}

theorem Enough.meanwhile {y : Root × Nat} (h : Enough f free held x) (hfree : free ≤ held)
    (hheld : held ≤ free + 10) (hxy : (pace f sequence revision).Meanwhile x y) :
    Enough f free held y := by
  induction hxy with
  | refl => exact h
  | @tail u v _ hstep ih =>
      have hbudget : v.2 = u.2 + 10 * takes f u.1 v.1 := hstep.2
      unfold takes at hbudget
      unfold Enough at ih ⊢
      split at ih <;> split <;> simp_all <;> omega

theorem Enough.succ (h : Enough f free held x) (hfree : 0 < free) (hheld : 0 < held) :
    ∃ m, x.2 = m + 1 := by
  refine ⟨x.2 - 1, ?_⟩
  unfold Enough at h
  split at h <;> omega

/-- A budget that does not look at the slot. -/
theorem enough_iff {n : Nat} : Enough f n n x ↔ n ≤ x.2 := by
  unfold Enough
  split <;> rfl

/-- One look at the Fiber costs one step. -/
theorem within_look {op : FiberOp} {K : op.Ret → Root × Nat → Prop}
    (hx : Enough f (free + 1) (held + 1) x) (hfree : free ≤ held) (hheld : held ≤ free + 10)
    (hop : op.reads = true)
    (hable : ∀ s, Rested f sequence revision s →
      (∀ choice, (op.exec p choice (s.fibers f)).isSome = true) ∨ WaitsForSlot f (.on f op) s)
    (h : ∀ s m r choice, Rested f sequence revision s → Enough f free held (s, m) →
      op.exec p choice (s.fibers f) = some (s.fibers f, r) → K r (s, m)) :
    cordis.Within (pace f sequence revision) p (on f op) K x := by
  intro s m hmeanwhile hs
  have hleft := hx.meanwhile (by omega) (by omega) hmeanwhile
  refine ⟨(hable s hs).imp_left fun hsome => ⟨rfl, fun fresh choice => ?_⟩, ?_⟩
  · have hallocated : f < s.nextFiber := hs.allocated
    simpa [cordis, execAllocated, Op.touches, hallocated, exec] using hsome choice
  · intro fresh choice s' r hexec _
    have hexec' := cordis_exec hexec
    simp only [exec, Option.map_eq_some_iff, Prod.mk.injEq] at hexec'
    rcases hexec' with ⟨⟨y, r'⟩, hlook, rfl, rfl⟩
    obtain rfl := FiberOp.exec_reads hop hlook
    rw [put_self]
    obtain ⟨m, rfl⟩ := hleft.succ (by omega) (by omega)
    refine ⟨m, rfl, h s m r' choice hs ?_ hlook⟩
    unfold Enough at hleft ⊢
    split <;> simp_all

/-- A look that is never blocked. -/
theorem within_read {op : FiberOp} {K : op.Ret → Root × Nat → Prop} (answer : Fiber → op.Ret)
    (hx : Enough f (free + 1) (held + 1) x) (hfree : free ≤ held) (hheld : held ≤ free + 10)
    (hop : op.reads = true)
    (hexec : ∀ choice fiber, op.exec p choice fiber = some (fiber, answer fiber))
    (h : ∀ s m, Rested f sequence revision s → Enough f free held (s, m) →
      K (answer (s.fibers f)) (s, m)) :
    cordis.Within (pace f sequence revision) p (on f op) K x := by
  refine within_look hx hfree hheld hop (fun s _ => .inl fun choice => ?_) ?_
  · rw [hexec]
    rfl
  · intro s m r choice hs hleft hlook
    rw [hexec, Option.some.injEq, Prod.mk.injEq] at hlook
    exact hlook.2 ▸ h s m hs hleft

/-- The revision of an ended Fiber is seen acknowledged. -/
theorem within_hasCommittedRecheck (hs : Rested f sequence revision x.1)
    (hx : Enough f (free + 2) (held + 2) x) (hfree : free ≤ held) (hheld : held ≤ free + 10) :
    cordis.Within (pace f sequence revision) p (hasCommittedRecheck f)
      (fun r y => r = false ∧ Enough f free held y) x := by
  have hcommitted : cordis.Within (pace f sequence revision) p (on f .recheckRevision)
      (fun r y => r = revision ∧ Enough f (free + 1) (held + 1) y) x :=
    within_read Fiber.recheckCommitted hx (by omega) (by omega) rfl (fun _ _ => rfl)
      fun s m hs hleft => ⟨hs.committed, hleft⟩
  refine hcommitted.seq hs fun r y hy ⟨hr, hleft⟩ => ?_
  have hsettled : cordis.Within (pace f sequence revision) p (on f .loadSettled)
      (fun r y => r = revision ∧ Enough f free held y) y :=
    within_read Fiber.recheckSettled hleft hfree hheld rfl (fun _ _ => rfl)
      fun s m hs hleft => ⟨hs.settled, hleft⟩
  refine hsettled.seq hy fun r' z hz ⟨hr', hleft'⟩ => ?_
  exact ⟨by simp [hr, hr'], hleft'⟩

/-- Nothing is outstanding that a nudge could drive. -/
theorem within_renudge (free held : Nat) (hs : Rested f sequence revision x.1)
    (hx : Enough f (free + 2) (held + 2) x) (hfree : free ≤ held) (hheld : held ≤ free + 10) :
    cordis.Within (pace f sequence revision) p (renudge f) (fun _ y => Enough f free held y) x := by
  refine (within_hasCommittedRecheck hs hx hfree hheld).seq hs fun r y _ ⟨hr, hleft⟩ => ?_
  rw [hr]
  exact hleft

/-- The wait for the slot: when it is over, only somebody who took the slot holds it. -/
theorem within_waitIdle (hx : Enough f 8 11 x) :
    cordis.Within (pace f sequence revision) p (waitIdle f) (fun _ y => Enough f 6 16 y) x := by
  refine Machine.Within.iterate (fun _ y => Enough f 8 11 y) hx fun _ s m hs hleft => ?_
  obtain ⟨m, rfl⟩ := hleft.succ (by omega) (by omega)
  have hstart : Enough f (6 + 1) (9 + 1) (s, m) := by
    unfold Enough at hleft ⊢
    split <;> simp_all
  refine ⟨m, rfl, ?_⟩
  have hidle : cordis.Within (pace f sequence revision) p (on f .isIdle) (fun r y =>
      ((y.1.fibers f).inertia = .idle ↔ r = true) ∧ Enough f 6 9 y) (s, m) :=
    within_read (fun fiber => fiber.inertia = .idle) hstart (by omega) (by omega) rfl
      (fun _ _ => rfl) fun s m _ hleft => ⟨by simp, hleft⟩
  refine hidle.seq hs fun r y hy ⟨hr, hleft⟩ => ?_
  cases r with
  | true =>
      have hfree := hr.mpr rfl
      unfold Enough at hleft
      rw [if_pos hfree] at hleft
      exact (if_pos hfree).mpr hleft
  | false =>
      have hheld : (y.1.fibers f).inertia ≠ .idle := fun hfree =>
        Bool.false_ne_true (hr.mp hfree)
      have hnine : Enough f (8 + 1) (8 + 1) y := by
        unfold Enough at hleft
        rw [if_neg hheld] at hleft
        exact enough_iff.mpr hleft
      have hawait : cordis.Within (pace f sequence revision) p (on f .awaitIdle)
          (fun _ z => Enough f 8 11 z) y := by
        refine within_look hnine (by omega) (by omega) rfl (fun s _ => ?_) ?_
        · by_cases hfree : (s.fibers f).inertia = .idle
          · exact .inl fun _ => by simp [FiberOp.exec, hfree]
          · exact .inr ⟨rfl, hfree⟩
        · intro s m r choice _ hleft hexec
          have hfree : (s.fibers f).inertia = .idle := by
            by_contra hheld
            simp [FiberOp.exec, hheld] at hexec
          unfold Enough at hleft ⊢
          rw [if_pos hfree] at hleft ⊢
          exact hleft
      exact hawait.seq hy fun _ z _ hleft => hleft

/-- Nothing moved since the observation: it stands. -/
theorem within_judgeReady (hs : Rested f sequence revision x.1) (hx : 4 ≤ x.2) :
    cordis.Within (pace f sequence revision) p (judgeReady f (.disposed, sequence))
      (fun o y => o = .inr (.ok .disposed) ∧ 1 ≤ y.2) x := by
  have hstart : Enough f (2 + 2) (2 + 2) x := enough_iff.mpr hx
  refine (within_hasCommittedRecheck hs hstart (by omega) (by omega)).seq hs
    fun r y hy ⟨hr, hleft⟩ => ?_
  rw [hr]
  have hsequence : cordis.Within (pace f sequence revision) p (on f .sequence)
      (fun r z => r = sequence ∧ Enough f 1 1 z) y :=
    within_read Fiber.sequence hleft (by omega) (by omega) rfl (fun _ _ => rfl)
      fun s m hs hleft => ⟨hs.sequence, hleft⟩
  refine hsequence.seq hy fun r z _ ⟨hr, hleft⟩ => ?_
  rw [if_neg (not_not.mpr hr)]
  exact ⟨rfl, enough_iff.mp hleft⟩

/-- A round goes around only where somebody took the slot during it. -/
theorem within_readyRound (hs : Rested f sequence revision x.1) (hx : Enough f 10 13 x) :
    cordis.Within (pace f sequence revision) p (readyRound f) (fun o y =>
      match o with
      | .inl _ => Enough f 11 14 y
      | .inr result => result = .ok .disposed ∧ 1 ≤ y.2) x := by
  refine (within_renudge 8 11 hs hx (by omega) (by omega)).seq hs
    fun _ y hy hleft => ?_
  refine (within_waitIdle hleft).seq hy fun _ z hz hleft => ?_
  have hobserve : cordis.Within (pace f sequence revision) p (on f .observe)
      (fun r u => r = (.disposed, sequence) ∧ Enough f (4 + 1) (14 + 1) u) z :=
    within_read (fun fiber => (fiber.state, fiber.sequence)) hleft (by omega) (by omega)
      rfl (fun _ _ => rfl) fun s m hs hleft => ⟨by rw [hs.state, hs.sequence], hleft⟩
  refine hobserve.seq hz fun r u hu ⟨hr, hleft⟩ => ?_
  have hidle : cordis.Within (pace f sequence revision) p (on f .isIdle) (fun r v =>
      ((v.1.fibers f).inertia = .idle ↔ r = true) ∧ Enough f 4 14 v) u :=
    within_read (fun fiber => fiber.inertia = .idle) hleft (by omega) (by omega) rfl
      (fun _ _ => rfl) fun s m _ hleft => ⟨by simp, hleft⟩
  refine hidle.seq hu fun free v hv ⟨hfree, hleft⟩ => ?_
  cases free with
  | true =>
      unfold Enough at hleft
      rw [if_pos (hfree.mpr rfl)] at hleft
      rw [hr]
      refine (within_judgeReady hv hleft).mono hv fun o w _ ⟨ho, hone⟩ => ?_
      rw [ho]
      exact ⟨rfl, hone⟩
  | false =>
      have hheld : (v.1.fibers f).inertia ≠ .idle := fun hidle =>
        Bool.false_ne_true (hfree.mp hidle)
      unfold Enough at hleft
      rw [if_neg hheld] at hleft
      exact (if_neg hheld).mpr hleft

theorem within_readyLoop (hx : Enough f 11 14 x) :
    cordis.Within (pace f sequence revision) p (readyLoop f)
      (fun result y => result = .ok .disposed ∧ 1 ≤ y.2) x := by
  refine Machine.Within.iterate (fun _ y => Enough f 11 14 y) hx fun _ s m hs hleft => ?_
  obtain ⟨m, rfl⟩ := hleft.succ (by omega) (by omega)
  have hstart : Enough f 10 13 (s, m) := by
    unfold Enough at hleft ⊢
    split <;> simp_all
  refine ⟨m, rfl, (within_readyRound (x := (s, m)) hs hstart).mono hs fun o y _ ho => ?_⟩
  cases o <;> exact ho

/-! ## The whole call -/

/-- `ready`, once it was not refused. -/
def admittedReady (f : FiberId) : Prog (Except ReadyError FiberState) := do
  let result ← readyLoop f
  on f .leave
  pure result

theorem within_admittedReady (hs : Rested f sequence revision x.1) (hx : 14 ≤ x.2) :
    cordis.Within (pace f sequence revision) p (admittedReady f)
      (fun result _ => result = .ok .disposed) x := by
  have hstart : Enough f 11 14 x := by
    unfold Enough
    split <;> omega
  refine (within_readyLoop hstart).seq hs fun result y hy ⟨hresult, hone⟩ => ?_
  refine Machine.Within.bind hy ?_
  intro s m hmeanwhile hs
  have hleft := (enough_iff.mpr hone).meanwhile (f := f) (by omega) (by omega) hmeanwhile
  obtain ⟨m, rfl⟩ := hleft.succ (by omega) (by omega)
  have hallocated : f < s.nextFiber := hs.allocated
  refine ⟨.inl ⟨rfl, fun _ _ => ?_⟩, fun _ _ s' r _ _ => ⟨m, rfl, hresult⟩⟩
  simp [cordis, execAllocated, Op.touches, hallocated, exec, FiberOp.exec]

/-- The call is under way: its caller has not gone on with the answer, and no recheck of the
Fiber is outstanding. -/
def Undisturbed (f : FiberId) (p : Party) (next : Except ReadyError FiberState → Prog Answer)
    (c : State) : Prop :=
  ¬ Outstanding c.shared f ∧ c.pool p ≠ some (next (.ok .disposed))

section Call

variable {c c' : State} {next : Except ReadyError FiberState → Prog Answer} {k : Nat}

/-- A call that is not refused is past its refusal with its first step. -/
theorem admitted_of_step {ctx : SettleCtx} {q : Party} {choice : Choice}
    (hp : c.pool p = some ((handleReady ctx f).bind next))
    (hadmitted : isDoomed c.shared ctx f .ready = false)
    (moves : cordis.step c (.step p q choice) = some c') :
    c'.pool p = some ((admittedReady f).bind next) := by
  rcases act_of_step moves hp with ⟨r, hexec, hpool⟩
  have hexec' := cordis_exec hexec
  simp only [exec, hadmitted, Bool.false_eq_true, if_false] at hexec'
  split at hexec' <;> simp only [Option.some.injEq, Prod.mk.injEq] at hexec' <;>
    rw [hpool, ← hexec'.2] <;> rfl

/-- In runs without outstanding rechecks the call ends within its budget, and whenever it cannot
move somebody holds the slot. -/
theorem budget_of_polled (h : Reachable tailIdle c) (hcomplete : Complete f c.shared)
    (hp : c.pool p = some ((admittedReady f).bind next))
    (hrun : cordis.Polled tailIdle (Undisturbed f p next) (takes f) p c k n c') :
    n ≤ 14 + 10 * k ∧ cordis.Proceeds (WaitsForSlot f) p c' := by
  have hover := over_of_complete h hcomplete
  have hrest := rested_of_disposed hover.1 hover.2.1 hrun.first.1
  have hinv : ∀ {k n c'}, cordis.Polled tailIdle (Undisturbed f p next) (takes f) p c k n c' →
      Rested f (c.shared.fibers f).sequence (c.shared.fibers f).recheckCommitted c'.shared :=
    fun hrun => hrun.invariant (fun hreach hs _ moves hnext => hs.step hreach moves hnext.1) h hrest
  have hbusy : ∀ {c' : State} {b : Except ReadyError FiberState} {y : Root × Nat},
      b = .ok .disposed → Undisturbed f p next c' → c'.pool p ≠ some (next b) :=
    fun hb hnext => hb ▸ hnext.2
  have hway : cordis.Within (pace f _ _) p (admittedReady f)
      (fun result _ => result = .ok .disposed) (c.shared, 14) :=
    within_admittedReady hrest (Nat.le_refl 14)
  rcases Polled.budget (fun _ {_ _} hK _ => hK) (@hbusy) hinv hp hway hrun with
    ⟨y, m, hpool, hwithin, hbudget⟩
  refine ⟨Nat.le_trans (Nat.le_add_right ..) hbudget, ?_⟩
  exact hwithin.proceeds (hinv hrun) hpool fun b hb => hbusy (y := (c'.shared, m)) hb hrun.within

/-- Once a recheck is outstanding and the slot is free, the call goes around for ever. -/
theorem not_answers_of_outstanding (h : Reachable tailIdle c) (hcomplete : Complete f c.shared)
    (hp : c.pool p = some ((admittedReady f).bind next))
    (hidle : (c.shared.fibers f).inertia = .idle) (ho : Outstanding c.shared f) :
    ¬ cordis.AnswersWithin p a n c := by
  have hover := over_of_complete h hcomplete
  have hloop : c.pool p = some ((readyLoop f).bind fun result =>
      (do
        on f .leave
        pure result : Prog (Except ReadyError FiberState)).bind next) :=
    hp.trans (congrArg some (Program.bind_assoc ..))
  rw [← at_pool c hloop]
  exact not_answers_readyLoop ⟨hover.1, hover.2.2, hover.2.1, hidle⟩ ho

/-- On a disposed Fiber, `ready` answers unless a recheck is left outstanding: in every run without
one it answers Ok(Disposed) after finitely many steps, of which only parties that take the slot can
make it take more, and where it cannot take one somebody holds the slot.  Where one is outstanding
it goes around for ever. -/
theorem ready_answers_unless_outstanding (h : Reachable tailIdle c)
    (hcomplete : Complete f c.shared) (hp : c.pool p = some ((admittedReady f).bind next)) :
    (∀ {k n c'}, cordis.Polled tailIdle (Undisturbed f p next) (takes f) p c k n c' →
      n ≤ 14 + 10 * k ∧ cordis.Proceeds (WaitsForSlot f) p c') ∧
    ((c.shared.fibers f).inertia = .idle → Outstanding c.shared f →
      ∀ a n, ¬ cordis.AnswersWithin p a n c) :=
  ⟨budget_of_polled h hcomplete hp, fun hidle ho _ _ =>
    not_answers_of_outstanding h hcomplete hp hidle ho⟩

/-- A party has just called `ready` and was not refused. -/
theorem admitted_of_called (ctx : SettleCtx) (q : Party) (choice : Choice)
    (h : Reachable tailIdle c) (vacant : (c.pool p).isNone = true)
    (callable : admits c.shared (.ready ctx f) = true)
    (hadmitted : isDoomed c.shared ctx f .ready = false)
    (moves : cordis.step (c.called p (.ready ctx f)) (.step p q choice) = some c') :
    Reachable tailIdle c' ∧
      c'.pool p = some ((admittedReady f).bind fun result => pure (.ready f result)) := by
  have hp : (c.called p (.ready ctx f)).pool p =
      some ((handleReady ctx f).bind fun result => pure (.ready f result)) :=
    State.called_pool c p (.ready ctx f)
  refine ⟨.step (.step p q choice) (reachable_called h vacant callable) ?_ moves,
    admitted_of_step hp hadmitted moves⟩
  intro op rest hop g hprobe
  cases hp.symm.trans hop
  cases hprobe

end Call

/-! ## Two disposals -/

/-- The state in which the fourth party has just entered the loop of `ready` on the Fiber 1. -/
def readyOf (schedule : List Step)
    (enabled : (cordis.run tailIdle? schedule cordis.start).isSome = true)
    (moves : (cordis.step ((after tailIdle? schedule enabled).called 4 (.ready {} 1))
      (.step 4 99 .no)).isSome = true) : State :=
  (cordis.step ((after tailIdle? schedule enabled).called 4 (.ready {} 1)) (.step 4 99 .no)).get moves

theorem admitted_readyOf {schedule : List Step}
    {enabled : (cordis.run tailIdle? schedule cordis.start).isSome = true}
    {moves : (cordis.step ((after tailIdle? schedule enabled).called 4 (.ready {} 1))
      (.step 4 99 .no)).isSome = true}
    (vacant : ((after tailIdle? schedule enabled).pool 4).isNone = true)
    (callable : admits (after tailIdle? schedule enabled).shared (.ready {} 1) = true) :
    Reachable tailIdle (readyOf schedule enabled moves) ∧
      (readyOf schedule enabled moves).pool 4 =
        some ((admittedReady 1).bind fun result => pure (.ready 1 result)) :=
  admitted_of_called {} 99 .no (reachable_after Machine.finds_of_finds? _ _) vacant callable
    (by simp [isDoomed]) (Option.some_get moves).symm

/-- A dependent of a missing service is spawned and disposed. -/
def disposedDependent : List Step :=
  [.enter 1 (.spawn 0 5 [{ service := 7, realm := 0 }])] ++ turns 1 41 ++
    [.enter 3 (.dispose {} 1)] ++ turns 3 31

theorem ready_answers_disposedDependent :
    let c := readyOf disposedDependent (by decide +kernel) (by decide +kernel)
    (∀ {k n c'}, cordis.Polled tailIdle
        (Undisturbed 1 4 fun result => pure (.ready 1 result)) (takes 1) 4 c k n c' →
      n ≤ 14 + 10 * k ∧ cordis.Proceeds (WaitsForSlot 1) 4 c') ∧
    ((c.shared.fibers 1).inertia = .idle → Outstanding c.shared 1 →
      ∀ a n, ¬ cordis.AnswersWithin 4 a n c) := by
  intro c
  have hcalled : Reachable tailIdle c ∧
      c.pool 4 = some ((admittedReady 1).bind fun result => pure (.ready 1 result)) :=
    admitted_readyOf (by decide +kernel) (by decide +kernel)
  exact ready_answers_unless_outstanding hcalled.1 (by unfold Complete; decide +kernel) hcalled.2

/-- Its service is published by a thread without a runtime before the disposal. -/
def unacknowledged : List Step :=
  [.enter 1 (.spawn 0 5 [{ service := 7, realm := 0 }])] ++ turns 1 41 ++
    [.enter 2 (.provide 0 { service := 7, realm := 0 } 3 8)] ++ turns 2 31 ++
    [.enter 3 (.dispose {} 1)] ++ turns 3 31

/-- After it, a call of `ready` that nobody disturbs goes around for ever. -/
theorem ready_spins_unacknowledged :
    let c := readyOf unacknowledged (by decide +kernel) (by decide +kernel)
    Reachable tailIdle c ∧ Complete 1 c.shared ∧
      c.pool 4 = some ((admittedReady 1).bind fun result => pure (.ready 1 result)) ∧
      ∀ a n, ¬ cordis.AnswersWithin 4 a n c := by
  intro c
  have hcalled : Reachable tailIdle c ∧
      c.pool 4 = some ((admittedReady 1).bind fun result => pure (.ready 1 result)) :=
    admitted_readyOf (by decide +kernel) (by decide +kernel)
  have hcomplete : Complete 1 c.shared := by unfold Complete; decide +kernel
  exact ⟨hcalled.1, hcomplete, hcalled.2, fun a n =>
    not_answers_of_outstanding hcalled.1 hcomplete hcalled.2 (by decide +kernel)
      (by unfold Outstanding; decide +kernel)⟩

end Runtime
end CordisCore
