import CordisCore.Tasks.Claims

/-!
# Routines — registration, the task, the join cleanup and the claims of registrations
-/

namespace CordisCore
namespace Tasks

open Interleaving
open CordisCore.Runtime (FiberState Token)

variable {p q : Party} {r : RunId} {s s' : Fiber} {author : Option RunId}

/-! ## The logic -/

/-- The party is in no call. -/
def Silent (p : Party) (s : Fiber) : Prop :=
  ∀ r, (s.run r).caller ≠ some p

structure Idle (p : Party) (s : Fiber) : Prop where
  silent : Silent p s
  slot : s.slot ≠ some p

/-- The teardown can take the slot over. -/
structure Torn (s : Fiber) : Prop where
  hand : s.hand = none
  disposed : s.state = .disposed → Quiet s

/-- The party executes a cleanup that was claimed. -/
structure Executes (p : Party) (t : Token) (cleanup : Cleanup) (s : Fiber) : Prop where
  committed : (s.occurrence t).cleanup = some cleanup
  claimed : (s.occurrence t).claimant ≠ none
  join : ∀ r, cleanup = .join r → (s.run r).joiner = some p ∧ (s.occurrence t).outcome = none ∧
    (s.run r).slot ≠ .done ∧ (s.run r).reports = 0

def joining : Logic protocol Machine.anyRun where
  inv := Sound
  rely := Keeps
  blank p s := Idle p s ∧ (∀ r, (s.run r).worker ≠ some p) ∧ ∀ r, (s.run r).joiner ≠ some p
  pre routine p s := match routine with
    | .run | .register _ | .settle | .dispose | .markReplacing => Idle p s
    | .disposeEffect t => Idle p s ∧ Controls .dispose (s.occurrence t)
    | .disarm t => Idle p s ∧ Controls .disarm (s.occurrence t)
    | .removeListener t => Idle p s ∧ Controls .removeListener (s.occurrence t)
    | .removePublication t => Idle p s ∧ Controls .removePublication (s.occurrence t)
    | .task r => Idle p s ∧ Author p (some r) s
    | .work t cleanup _ => Idle p s ∧ Executes p t cleanup s
    | .teardown => Silent p s ∧ s.slot = some p ∧ Torn s
  post p _ := Silent p
  check := Due
  rely_refl := Keeps.refl
  rely_trans := Keeps.trans
  blank_rely h hk := ⟨⟨fun r hc => h.1.silent r ((hk.run r).caller.mp hc),
    fun hslot => h.1.slot (hk.slot.mp hslot)⟩, fun r hw => h.2.1 r ((hk.run r).worker.mp hw),
    fun r hj => h.2.2 r ((hk.run r).joiner.mp hj)⟩
  post_rely h hk r hc := h r ((hk.run r).caller.mp hc)

theorem Silent.keeps (h : Silent p s) (hk : Keeps p s s') : Silent p s' :=
  fun r hc => h r ((hk.run r).caller.mp hc)

theorem Idle.keeps (h : Idle p s) (hk : Keeps p s s') : Idle p s' :=
  ⟨h.silent.keeps hk, fun hslot => h.slot (hk.slot.mp hslot)⟩

theorem Author.keeps (h : Author p author s) (hk : Keeps p s s') : Author p author s' :=
  fun r hr => ⟨(hk.run r).worker.mpr (h r hr).1, ((hk.run r).working (h r hr).1).trans (h r hr).2⟩

theorem due_of_silent {op : Op} (h : Entitled p s op) (hsilent : Silent p s) : Due p op s :=
  ⟨h, fun r hc => absurd hc (hsilent r)⟩

theorem wp_op {op : Op} {Q : op.Ret → Fiber → Prop} (hforks : forks op = none)
    (hawaits : awaits op = false) (hdue : ∀ s', Keeps p s s' → Sound s' → Due p op s')
    (h : ∀ s' u c s'' ret, Keeps p s s' → Sound s' → exec p u c op s' = some (s'', ret) → Q ret s'') :
    joining.wp p (perform op) Q s := by
  refine joining.wp_perform fun s' hk hs' => ⟨hdue s' hk hs', ?_, fun ha => ?_⟩
  · refine Logic.Performs.of_step hforks fun u c s'' ret _ _ hexec => ?_
    have hexec : exec p u c op s' = some (s'', ret) := hexec
    exact ⟨sound_exec hs' (hdue s' hk hs') hexec,
      fun t ht => exec_keeps hs' (hdue s' hk hs') hexec ht fun hne => absurd hforks hne,
      h s' u c s'' ret hk hs' hexec⟩
  · cases hawaits.symm.trans ha

/-- Where the party waits it may be dropped. -/
theorem wp_wait {op : Op} {Q : op.Ret → Fiber → Prop} (hforks : forks op = none)
    (hdue : ∀ s', Keeps p s s' → Sound s' → Due p op s')
    (hdrop : ∀ s', Keeps p s s' → Sound s' → Silent p s' ∧ (s'.slot = some p → Torn s'))
    (h : ∀ s' u c s'' ret, Keeps p s s' → Sound s' → exec p u c op s' = some (s'', ret) → Q ret s'') :
    joining.wp p (perform op) Q s := by
  refine joining.wp_perform fun s' hk hs' => ⟨hdue s' hk hs', ?_, fun _ _ s'' next hdropped => ?_⟩
  · refine Logic.Performs.of_step hforks fun u c s'' ret _ _ hexec => ?_
    have hexec : exec p u c op s' = some (s'', ret) := hexec
    exact ⟨sound_exec hs' (hdue s' hk hs') hexec,
      fun t ht => exec_keeps hs' (hdue s' hk hs') hexec ht fun hne => absurd hforks hne,
      h s' u c s'' ret hk hs' hexec⟩
  · have hgone := hdrop s' hk hs'
    cases hdropped
    refine ⟨hs', fun t _ => .refl t s', ?_⟩
    by_cases hslot : s'.slot = some p
    · rw [if_pos hslot]
      exact ⟨hgone.1, hslot, hgone.2 hslot⟩
    · rw [if_neg hslot]
      exact hgone.1

theorem wp_fork {op : Op} {routine : Routine} {Q : op.Ret → Fiber → Prop}
    (hforks : forks op = some routine) (hawaits : awaits op = false)
    (hdue : ∀ s', Keeps p s s' → Sound s' → Due p op s')
    (h : ∀ s' u c s'' ret, Keeps p s s' → Sound s' → exec p u c op s' = some (s'', ret) → u ≠ p →
      joining.blank u s' → joining.pre routine u s'' ∧ Q ret s'') :
    joining.wp p (perform op) Q s := by
  refine joining.wp_perform fun s' hk hs' => ⟨hdue s' hk hs', ?_, fun ha => ?_⟩
  · refine Logic.Performs.of_fork hforks fun u c s'' ret _ _ hexec hu hblank => ?_
    have hexec : exec p u c op s' = some (s'', ret) := hexec
    have hstep := h s' u c s'' ret hk hs' hexec hu hblank
    exact ⟨sound_exec hs' (hdue s' hk hs') hexec,
      fun t ht htu => exec_keeps hs' (hdue s' hk hs') hexec ht fun _ => htu, hstep.1, hstep.2⟩
  · cases hawaits.symm.trans ha

/-! ## Registration -/

/-- The steps of a call. -/
inductive Phase where
  | called
  | pushed
  | spawned
  | parked
  | notified

def Phase.Holds : Phase → Run → Prop
  | called, u => u.token = none
  | pushed, u => u.token ≠ none ∧ u.task = .absent
  | spawned, u => u.task ≠ .absent ∧ u.slot = .pending
  | parked, u => u.slot ≠ .pending ∧ u.notified = false
  | notified, u => u.notified = true

/-- The party is in this call and in no other. -/
structure InCall (phase : Phase) (r : RunId) (author : Option RunId) (p : Party) (s : Fiber) :
    Prop where
  caller : (s.run r).caller = some p
  only : ∀ x, x ≠ r → (s.run x).caller ≠ some p
  registers : Author p author s
  /-- A task that calls is another one. -/
  other : ∀ x, author = some x → x ≠ r
  slot : s.slot ≠ some p
  phase : phase.Holds (s.run r)

theorem Phase.Holds.keeps {phase : Phase} {u u' : Run} (h : phase.Holds u)
    (hcaller : u.caller = some p) (hk : CallKeeps p u u') : phase.Holds u' := by
  rcases hk.calling hcaller with ⟨htoken, htask, hslot, hnotified⟩
  cases phase with
  | called => exact htoken.trans h
  | pushed => exact ⟨htoken ▸ h.1, htask.mpr h.2⟩
  | spawned => exact ⟨fun ha => h.1 (htask.mp ha), hslot.mpr h.2⟩
  | parked => exact ⟨fun hp => h.1 (hslot.mp hp), hnotified.trans h.2⟩
  | notified => exact hnotified.trans h

theorem InCall.keeps {phase : Phase} (h : InCall phase r author p s) (hk : Keeps p s s') :
    InCall phase r author p s' where
  caller := (hk.run r).caller.mpr h.caller
  only x hx hc := h.only x hx ((hk.run x).caller.mp hc)
  registers := h.registers.keeps hk
  other := h.other
  slot hslot := h.slot (hk.slot.mp hslot)
  phase := h.phase.keeps h.caller (hk.run r)

theorem InCall.due {phase : Phase} {op : Op} (h : InCall phase r author p s)
    (hentitled : Entitled p s op) (hparks : (s.run r).token ≠ none → (s.run r).notified = false →
      op = .spawn r ∨ op = .park r ∨ op = .notifyWaiters r) : Due p op s := by
  refine ⟨hentitled, fun x hx => ?_⟩
  by_cases heq : x = r
  · subst heq
    exact hparks
  · exact absurd hx (h.only x heq)

/-- The call moves on. -/
theorem InCall.modify {phase phase' : Phase} {change : Run → Run} (h : InCall phase r author p s)
    (hcaller : (change (s.run r)).caller = (s.run r).caller)
    (hphase : phase'.Holds (change (s.run r))) :
    InCall phase' r author p (s.modify r change) where
  caller := by
    rw [run_modify_self, hcaller]
    exact h.caller
  only x hx := by
    rw [run_modify_of_ne hx]
    exact h.only x hx
  registers x hx := by
    rw [run_modify_of_ne (h.other x hx)]
    exact h.registers x hx
  other := h.other
  slot := h.slot
  phase := by
    rw [run_modify_self]
    exact hphase

theorem wp_call (h : Idle p s) (ha : Author p author s) :
    joining.wp p (perform .call) (fun r s' => InCall .called r author p s') s := by
  refine wp_op rfl rfl (fun s' hk _ => due_of_silent trivial (h.silent.keeps hk))
    fun s' u c s'' ret hk hs' hexec => ?_
  have h' := h.keeps hk
  have ha' := ha.keeps hk
  have hblank : s'.run s'.calls = {} := hs'.uncalled _ (Nat.le_refl _)
  have hne : ∀ x, author = some x → x ≠ s'.calls := by
    rintro x hx rfl
    have hlive := (ha' _ hx).2
    rw [hblank] at hlive
    cases hlive
  cases hexec
  have hself : (s'.call p).run s'.calls = { s'.run s'.calls with caller := some p } :=
    run_modify_self (s := { s' with calls := s'.calls + 1 })
      (g := fun u => { u with caller := some p })
  have hother : ∀ x, x ≠ s'.calls → (s'.call p).run x = s'.run x := fun x hx =>
    run_modify_of_ne (s := { s' with calls := s'.calls + 1 }) hx
  refine ⟨?_, fun x hx => ?_, fun x hx => ?_, hne, h'.slot, ?_⟩
  · rw [hself]
  · rw [hother x hx]
    exact h'.silent x
  · rw [hother x (hne x hx)]
    exact ha' x hx
  · rw [hself, hblank]
    rfl

theorem wp_assertCanRegister {phase : Phase} (h : InCall phase r author p s)
    (hphase : phase = .called) : joining.wp p (perform .assertCanRegister)
      (fun _ s' => InCall phase r author p s') s := by
  refine wp_op rfl rfl (fun s' hk _ => (h.keeps hk).due trivial fun ht _ => ?_)
    fun s' u c s'' ret hk _ hexec => ?_
  · have hphase' := (h.keeps hk).phase
    rw [hphase] at hphase'
    exact absurd hphase' ht
  · have h' := h.keeps hk
    cases hexec
    exact h'

/-- A registration is admitted for good or leaves nothing behind. -/
theorem wp_pushJoin (hs : Sound s) (h : InCall .called r author p s) :
    joining.wp p (pushGated (.join r) author) (fun token s' => match token with
      | some _ => InCall .pushed r author p s'
      | none => InCall .called r author p s') s := by
  refine joining.wp_seq hs (wp_assertCanRegister h rfl) fun admitted s₁ hs₁ h₁ => ?_
  cases admitted with
  | false => exact h₁
  | true =>
      refine wp_op rfl rfl (fun s' hk _ => (h₁.keeps hk).due
        ⟨(h₁.keeps hk).registers, fun x hx => ?_⟩ fun ht _ => absurd (h₁.keeps hk).phase ht)
        fun s' u c s'' ret hk hs' hexec => ?_
      · cases hx
        exact ⟨(h₁.keeps hk).caller, (h₁.keeps hk).phase⟩
      · have h' := h₁.keeps hk
        have heq := Option.some.inj hexec
        by_cases ha : s'.accepts (.join r) c.refuses = true
        · rcases pushed_push (.join r) author hs' ha with ⟨hpushed, htoken⟩
          have habsent : (s'.run r).task = .absent :=
            Decidable.by_contra fun hne => (hs'.call r).spawned hne h'.phase
          have hother : ∀ x, x ≠ r → (s'.push (.join r) author c.refuses).1.run x = s'.run x := fun x hx =>
            hpushed.run x fun hjoin => hx (Cleanup.join.inj hjoin).symm
          have hnext : s'' = (s'.push (.join r) author c.refuses).1 := (congrArg Prod.fst heq).symm
          have hret : ret = some (s'.sn + 1) := (congrArg Prod.snd heq).symm.trans htoken
          subst hnext hret
          refine ⟨?_, fun x hx => ?_, fun x hx => ?_, h'.other, ?_, ?_⟩
          · rw [hpushed.join r rfl]
            exact h'.caller
          · rw [hother x hx]
            exact h'.only x hx
          · rw [hother x (h'.other x hx)]
            exact h'.registers x hx
          · rw [hpushed.slot]
            exact h'.slot
          · rw [hpushed.join r rfl]
            exact ⟨nofun, habsent⟩
        · rw [push_refused (Bool.eq_false_iff.mpr ha)] at heq
          cases heq
          exact h'

/-- The task starts with nothing but itself. -/
theorem wp_spawn (h : InCall .pushed r author p s) :
    joining.wp p (perform (.spawn r)) (fun _ s' => InCall .spawned r author p s') s := by
  refine wp_fork rfl rfl (fun s' hk _ => (h.keeps hk).due
    ⟨(h.keeps hk).caller, (h.keeps hk).phase⟩ fun _ _ => .inl rfl)
    fun s' u c s'' ret hk hs' hexec _ hblank => ?_
  have h' := h.keeps hk
  have hslot := (hs'.call r).slot_of_absent h'.phase.2
  cases hexec
  refine ⟨⟨⟨fun x => ?_, hblank.1.slot⟩, fun x hx => ?_⟩, h'.modify rfl ⟨nofun, hslot⟩⟩
  · rw [modify_same Run.caller rfl]
    exact hblank.1.silent x
  · cases hx
    rw [run_modify_self]
    exact ⟨rfl, rfl⟩

theorem wp_park (h : InCall .spawned r author p s) :
    joining.wp p (perform (.park r)) (fun _ s' => InCall .parked r author p s') s := by
  refine wp_op rfl rfl (fun s' hk _ => (h.keeps hk).due
    ⟨(h.keeps hk).caller, (h.keeps hk).phase⟩ fun _ _ => .inr (.inl rfl))
    fun s' u c s'' ret hk hs' hexec => ?_
  have h' := h.keeps hk
  have hunnotified := (hs'.call r).unnotified h'.phase.2
  cases hexec
  exact h'.modify rfl ⟨nofun, hunnotified⟩

theorem wp_notifyWaiters (h : InCall .parked r author p s) :
    joining.wp p (perform (.notifyWaiters r)) (fun _ s' => InCall .notified r author p s') s := by
  refine wp_op rfl rfl (fun s' hk _ => (h.keeps hk).due
    ⟨(h.keeps hk).caller, (h.keeps hk).phase.1⟩ fun _ _ => .inr (.inr rfl))
    fun s' u c s'' ret hk _ hexec => ?_
  have h' := h.keeps hk
  cases hexec
  exact h'.modify rfl rfl

/-- After a call. -/
structure Returned (author : Option RunId) (p : Party) (s : Fiber) : Prop where
  idle : Idle p s
  registers : Author p author s

theorem Returned.keeps (h : Returned author p s) (hk : Keeps p s s') : Returned author p s' :=
  ⟨h.idle.keeps hk, h.registers.keeps hk⟩

theorem wp_answer {phase : Phase} {result : Except TaskRegistrationError Unit}
    (h : InCall phase r author p s) (hphase : match result with
      | .ok _ => phase = .notified
      | .error _ => phase = .called) :
    joining.wp p (perform (.answer r result)) (fun _ s' => Returned author p s') s := by
  refine wp_op rfl rfl (fun s' hk _ => ?_) fun s' u c s'' ret hk _ hexec => ?_
  · have h' := h.keeps hk
    cases result with
    | ok _ =>
        subst hphase
        exact h'.due ⟨h'.caller, nofun, fun _ => h'.phase⟩ fun _ hn =>
          nomatch hn.symm.trans h'.phase
    | error _ =>
        subst hphase
        exact h'.due ⟨h'.caller, fun _ _ => h'.phase, nofun⟩ fun ht _ => absurd h'.phase ht
  · have h' := h.keeps hk
    cases hexec
    refine ⟨⟨fun x => ?_, h'.slot⟩, fun x hx => ?_⟩
    · by_cases heq : x = r
      · subst heq
        rw [run_modify_self]
        nofun
      · rw [run_modify_of_ne heq]
        exact h'.only x heq
    · rw [run_modify_of_ne (h'.other x hx)]
      exact h'.registers x hx

theorem wp_run (hs : Sound s) (h : Returned author p s) :
    joining.wp p (run author) (fun _ s' => Returned author p s') s := by
  refine joining.wp_seq hs (wp_call h.idle h.registers) fun r s₁ hs₁ h₁ => ?_
  refine joining.wp_seq hs₁ (wp_assertCanRegister h₁ rfl) fun admitted s₂ hs₂ h₂ => ?_
  cases admitted with
  | false => exact wp_answer h₂ rfl
  | true =>
      have hcurrent : joining.wp p (perform .tryCurrent) (fun _ s' => InCall .called r author p s')
          s₂ := by
        refine wp_op rfl rfl (fun s' hk _ => (h₂.keeps hk).due trivial fun ht _ =>
          absurd (h₂.keeps hk).phase ht) fun s' u c s'' ret hk _ hexec => ?_
        have h' := h₂.keeps hk
        cases hexec
        exact h'
      refine joining.wp_seq hs₂ hcurrent fun available s₃ hs₃ h₃ => ?_
      cases available with
      | false => exact wp_answer h₃ rfl
      | true =>
          refine joining.wp_seq hs₃ (wp_pushJoin hs₃ h₃) fun token s₄ hs₄ h₄ => ?_
          cases token with
          | none => exact wp_answer h₄ rfl
          | some token =>
              refine joining.wp_seq hs₄ (wp_spawn h₄) fun _ s₅ hs₅ h₅ => ?_
              refine joining.wp_seq hs₅ (wp_park h₅) fun _ s₆ hs₆ h₆ => ?_
              refine joining.wp_seq hs₆ (wp_notifyWaiters h₆) fun _ s₇ _ h₇ => ?_
              exact wp_answer h₇ rfl

theorem wp_registerCleanup {control : Control} (hs : Sound s) (h : Returned author p s) :
    joining.wp p (registerCleanup control author) (fun _ s' => Returned author p s') s := by
  have hassert : joining.wp p (perform .assertCanRegister) (fun _ s' => Returned author p s') s := by
    refine wp_op rfl rfl (fun s' hk _ => due_of_silent trivial (h.keeps hk).idle.silent)
      fun s' u c s'' ret hk _ hexec => ?_
    have h' := h.keeps hk
    cases hexec
    exact h'
  refine joining.wp_seq hs (joining.wp_seq hs hassert fun admitted s₁ hs₁ h₁ => ?_)
    fun _ _ _ h => h
  cases admitted with
  | false => exact h₁
  | true =>
      refine wp_op rfl rfl (fun s' hk _ => due_of_silent ⟨(h₁.keeps hk).registers, nofun⟩
        (h₁.keeps hk).idle.silent) fun s' u c s'' ret hk hs' hexec => ?_
      have h' := h₁.keeps hk
      have heq : s'' = (s'.push (.registered control) author c.refuses).1 :=
        (congrArg Prod.fst (Option.some.inj hexec)).symm
      subst heq
      by_cases ha : s'.accepts (.registered control) c.refuses = true
      · have hpushed := (pushed_push (.registered control) author hs' ha).1
        have hrun : ∀ x, (s'.push (.registered control) author c.refuses).1.run x = s'.run x :=
          fun x => hpushed.run x nofun
        refine ⟨⟨fun x => ?_, ?_⟩, fun x hx => ?_⟩
        · rw [hrun]
          exact h'.idle.silent x
        · rw [hpushed.slot]
          exact h'.idle.slot
        · rw [hrun]
          exact h'.registers x hx
      · rw [push_refused (Bool.eq_false_iff.mpr ha)]
        exact h'

/-! ## The task -/

theorem wp_runTask (h : Returned (some r) p s) :
    joining.wp p (runTask r) (fun _ s' => Silent p s') s := by
  refine joining.wp_iterate (fun _ s' => Returned (some r) p s') h fun _ s₁ hs₁ h₁ => ?_
  have hdecide : joining.wp p (perform (.decide r)) (fun _ s' => Returned (some r) p s') s₁ := by
    refine wp_op rfl rfl (fun s' hk _ => due_of_silent trivial (h₁.keeps hk).idle.silent)
      fun s' u c s'' ret hk _ hexec => ?_
    have h' := h₁.keeps hk
    cases hexec
    exact h'
  refine joining.wp_seq hs₁ hdecide fun decision s₂ hs₂ h₂ => ?_
  cases decision with
  | proceed => exact h₂
  | register control =>
      exact joining.wp_seq hs₂ (wp_registerCleanup hs₂ h₂) fun _ _ _ h => h
  | run => exact joining.wp_seq hs₂ (wp_run hs₂ h₂) fun _ _ _ h => h
  | finish outcome =>
      have hended : joining.wp p (perform (.ended r outcome)) (fun _ s' => Silent p s') s₂ := by
        refine wp_op rfl rfl (fun s' hk _ => due_of_silent ((h₂.keeps hk).registers r rfl)
          (h₂.keeps hk).idle.silent) fun s' u c s'' ret hk _ hexec => ?_
        have h' := h₂.keeps hk
        cases hexec
        intro x
        rw [modify_same Run.caller rfl]
        exact h'.idle.silent x
      exact joining.wp_seq hs₂ hended fun _ _ _ h => h

end Tasks
end CordisCore
