import CordisCore.Interleaving.Logic
import CordisCore.Tasks.Run

/-!
# Joining — what holds of the calls, the journal and the passes in every state

An obligation that the drain has claimed is executed, or it is the one that the
drain is at.  A generation is closed while the drain is under way, so that a task
whose join obligation is claimed cannot register any more.
-/

namespace CordisCore
namespace Tasks

open Interleaving
open CordisCore.Runtime (FiberState Token)

/-! ## Invariants -/

/-- The steps of one call, in their order. -/
structure Consistent (r : RunId) (u : Run) : Prop where
  spawned : u.task ≠ .absent → u.token ≠ none
  parked : u.slot ≠ .pending → u.task ≠ .absent
  notified : u.notified = true → u.slot ≠ .pending
  handle : ∀ join, u.slot = .running join → join = r
  unstarted : u.task = .absent → u.worker = none
  unjoined : u.joiner = none → u.slot ≠ .done ∧ u.reports = 0
  woken : ∀ q, u.parked.futures q = some true → u.notified = true
  calling : u.token ≠ none → u.notified = false → u.caller ≠ none
  answered : u.result ≠ none → u.caller = none
  refused : ∀ e, u.result = some (.error e) → u.token = none
  accepted : u.result = some (.ok ()) → u.notified = true

/-- The join cleanup ran: the task is over and its panic was reported. -/
def Finished (u : Run) : Prop :=
  u.slot = .done ∧ ∃ o, u.task = .ended o ∧ u.reports = if o = .panicked then 1 else 0

/-- The drain executes what it claims. -/
def Settled (o : Occurrence) : Prop :=
  o.claimant = some .drain → o.outcome ≠ none

/-- Nothing that the drain claimed is still to be executed. -/
def Quiet (s : Fiber) : Prop :=
  ∀ t, Settled (s.occurrence t)

/-- Its own control claims this obligation. -/
def Controls (claimant : Claimant) (o : Occurrence) : Prop :=
  ∃ control, o.cleanup = some (.registered control) ∧ control.claims claimant = true

structure Sound (s : Fiber) : Prop where
  call : ∀ r, Consistent r (s.run r)
  uncalled : ∀ r, s.calls ≤ r → s.run r = {}
  uncommitted : ∀ t, s.sn < t → s.occurrence t = {}
  sorted : s.tokens.Pairwise (· < ·)
  registered : ∀ t c, (t, c) ∈ s.disposables ↔
    (s.occurrence t).cleanup = some c ∧ (s.occurrence t).claimant = none
  joins : ∀ t r, (s.occurrence t).cleanup = some (.join r) ↔ (s.run r).token = some t
  author : ∀ t r, (s.occurrence t).author = some r → (s.occurrence t).cleanup ≠ none ∧
    ∃ j, (s.run r).token = some j ∧ j < t
  unclaimed : ∀ t, (s.occurrence t).claimant = none → (s.occurrence t).outcome = none
  claimed : ∀ t, Settled (s.occurrence t) ∨ s.drainCleanup = some t ∨ s.hand = some t
  completed : ∀ t, (s.occurrence t).completed = true → (s.occurrence t).outcome ≠ none
  joiner : ∀ r, (s.run r).joiner ≠ none → ∃ j, (s.run r).token = some j ∧
    (s.occurrence j).claimant ≠ none
  executed : ∀ r j out, (s.run r).token = some j → (s.occurrence j).outcome = some out →
    (s.run r).joiner ≠ none ∧ Finished (s.run r) ∧ out = none
  controlled : ∀ t c, (s.occurrence t).claimant = some c →
    c = .drain ∨ Controls c (s.occurrence t)
  shut : ∀ r j, (s.run r).token = some j → (s.occurrence j).claimant ≠ none →
    (∀ o, (s.run r).task ≠ .ended o) → s.admits = false
  drained : ∀ r j t, (s.run r).token = some j → (s.occurrence j).claimant ≠ none →
    (s.occurrence t).author = some r → (s.occurrence t).claimant ≠ none ∧
      Settled (s.occurrence t)
  free : s.slot = none → s.hand = none ∧ Quiet s
  registrations : ∀ e ∈ s.registrations, (s.occurrence e.1).cleanup = some (.registered e.2)

/-- Only a drain claims a join obligation. -/
theorem Sound.exclusive {s : Fiber} (h : Sound s) {r : RunId} {j : Token}
    (hj : (s.run r).token = some j) (hc : (s.occurrence j).claimant ≠ none) :
    (s.occurrence j).claimant = some .drain := by
  rcases Option.ne_none_iff_exists'.mp hc with ⟨c, hclaimant⟩
  rcases h.controlled j c hclaimant with rfl | ⟨control, hcleanup, -⟩
  · exact hclaimant
  · cases ((h.joins j r).mpr hj).symm.trans hcleanup

/-! ## What the others leave a party -/

/-- What is left to the caller, the task and the join cleanup of a call. -/
structure CallKeeps (p : Party) (u u' : Run) : Prop where
  token : ∀ j, u.token = some j → u'.token = some j
  caller : u'.caller = some p ↔ u.caller = some p
  calling : u.caller = some p → u'.token = u.token ∧ (u'.task = .absent ↔ u.task = .absent) ∧
    (u'.slot = .pending ↔ u.slot = .pending) ∧ u'.notified = u.notified
  ended : ∀ o, u.task = .ended o → u'.task = .ended o
  worker : u'.worker = some p ↔ u.worker = some p
  working : u.worker = some p → u'.task = u.task
  joiner : u'.joiner = some p ↔ u.joiner = some p
  joining : u.joiner = some p → (u'.slot = .done ↔ u.slot = .done) ∧ u'.reports = u.reports
  parked : u.slot ≠ .pending → u'.slot ≠ .pending
  future : u.parked.futures p ≠ none → u'.parked.futures p ≠ none
  wake : u.parked.futures p ≠ none → (u.notified = true → u.parked.futures p = some true) →
    u'.notified = true → u'.parked.futures p = some true

/-- What is left to whoever holds the slot. -/
structure Held (s s' : Fiber) : Prop where
  state : s'.state = s.state
  drainCleanup : s'.drainCleanup = s.drainCleanup
  hand : s'.hand = s.hand
  claims : ∀ t, (s'.occurrence t).claimant = some .drain ↔ (s.occurrence t).claimant = some .drain
  joiner : ∀ r, (s'.run r).joiner = (s.run r).joiner
  gate : s.admits = false → s'.admits = false
  closed : s.admits = false → ∀ e ∈ s'.disposables, e ∈ s.disposables

structure Keeps (p : Party) (s s' : Fiber) : Prop where
  run : ∀ r, CallKeeps p (s.run r) (s'.run r)
  cleanup : ∀ t c, (s.occurrence t).cleanup = some c → (s'.occurrence t).cleanup = some c
  claimant : ∀ t c, (s.occurrence t).claimant = some c → (s'.occurrence t).claimant = some c
  outcome : ∀ t, (s.occurrence t).outcome ≠ none → (s'.occurrence t).outcome ≠ none
  unsent : ∀ r j, (s.run r).joiner = some p → (s.run r).token = some j →
    (s'.occurrence j).outcome = (s.occurrence j).outcome
  slot : s'.slot = some p ↔ s.slot = some p
  held : s.slot = some p → Held s s'

theorem CallKeeps.refl (p : Party) (u : Run) : CallKeeps p u u :=
  ⟨fun _ h => h, Iff.rfl, fun _ => ⟨rfl, Iff.rfl, Iff.rfl, rfl⟩, fun _ h => h, Iff.rfl,
    fun _ => rfl, Iff.rfl, fun _ => ⟨Iff.rfl, rfl⟩, id, id, fun _ h => h⟩

theorem CallKeeps.trans {p : Party} {u u' u'' : Run} (h : CallKeeps p u u')
    (h' : CallKeeps p u' u'') : CallKeeps p u u'' where
  token j hj := h'.token j (h.token j hj)
  caller := h'.caller.trans h.caller
  calling hc := by
    rcases h.calling hc with ⟨htoken, htask, hslot, hnotified⟩
    rcases h'.calling (h.caller.mpr hc) with ⟨htoken', htask', hslot', hnotified'⟩
    exact ⟨htoken'.trans htoken, htask'.trans htask, hslot'.trans hslot,
      hnotified'.trans hnotified⟩
  ended o ho := h'.ended o (h.ended o ho)
  worker := h'.worker.trans h.worker
  working hw := (h'.working (h.worker.mpr hw)).trans (h.working hw)
  joiner := h'.joiner.trans h.joiner
  joining hj := by
    rcases h.joining hj with ⟨hslot, hreports⟩
    rcases h'.joining (h.joiner.mpr hj) with ⟨hslot', hreports'⟩
    exact ⟨hslot'.trans hslot, hreports'.trans hreports⟩
  parked hp := h'.parked (h.parked hp)
  future hf := h'.future (h.future hf)
  wake hf hw := h'.wake (h.future hf) (h.wake hf hw)

theorem Held.refl (s : Fiber) : Held s s :=
  ⟨rfl, rfl, rfl, fun _ => Iff.rfl, fun _ => rfl, id, fun _ _ h => h⟩

theorem Held.trans {s s' s'' : Fiber} (h : Held s s') (h' : Held s' s'') : Held s s'' where
  state := h'.state.trans h.state
  drainCleanup := h'.drainCleanup.trans h.drainCleanup
  hand := h'.hand.trans h.hand
  claims t := (h'.claims t).trans (h.claims t)
  joiner r := (h'.joiner r).trans (h.joiner r)
  gate hg := h'.gate (h.gate hg)
  closed hg e he := h.closed hg e (h'.closed (h.gate hg) e he)

theorem Keeps.refl (p : Party) (s : Fiber) : Keeps p s s :=
  ⟨fun _ => .refl p _, fun _ _ h => h, fun _ _ h => h, fun _ h => h, fun _ _ _ _ => rfl, Iff.rfl,
    fun _ => .refl s⟩

theorem Keeps.trans {p : Party} {s s' s'' : Fiber} (h : Keeps p s s') (h' : Keeps p s' s'') :
    Keeps p s s'' where
  run r := (h.run r).trans (h'.run r)
  cleanup t c hc := h'.cleanup t c (h.cleanup t c hc)
  claimant t c hc := h'.claimant t c (h.claimant t c hc)
  outcome t ho := h'.outcome t (h.outcome t ho)
  unsent r j hj ht :=
    (h'.unsent r j ((h.run r).joiner.mpr hj) ((h.run r).token j ht)).trans (h.unsent r j hj ht)
  slot := h'.slot.trans h.slot
  held hs := (h.held hs).trans (h'.held (h.slot.mpr hs))

/-! ## What a party is entitled to -/

/-- A party that registers for a task runs it. -/
def Author (p : Party) (author : Option RunId) (s : Fiber) : Prop :=
  ∀ r, author = some r → (s.run r).worker = some p ∧ (s.run r).task = .live

/-- What must hold when a party performs an operation. -/
def Entitled (p : Party) (s : Fiber) : Op → Prop
  | .push cleanup author => Author p author s ∧
      ∀ r, cleanup = .join r → (s.run r).caller = some p ∧ (s.run r).token = none
  | .spawn r => (s.run r).caller = some p ∧ (s.run r).token ≠ none ∧ (s.run r).task = .absent
  | .park r => (s.run r).caller = some p ∧ (s.run r).task ≠ .absent ∧ (s.run r).slot = .pending
  | .notifyWaiters r => (s.run r).caller = some p ∧ (s.run r).slot ≠ .pending
  | .answer r result => (s.run r).caller = some p ∧
      (∀ e, result = .error e → (s.run r).token = none) ∧
      (result = .ok () → (s.run r).notified = true)
  | .ended r _ => (s.run r).worker = some p ∧ (s.run r).task = .live
  | .notified r | .takeSlot r => (s.run r).joiner = some p
  | .awaitParked r => (s.run r).joiner = some p ∧ (s.run r).slot ≠ .done ∧
      (s.run r).parked.futures p ≠ none ∧
      ((s.run r).notified = true → (s.run r).parked.futures p = some true)
  | .join r => (s.run r).slot = .done
  | .reportPanic r => (s.run r).joiner = some p ∧
      ∀ j, (s.run r).token = some j → (s.occurrence j).outcome = none
  | .removeDisposable t .drain => s.slot = some p ∧ s.hand = none ∧ s.admits = false ∧ Quiet s ∧
      ∀ e ∈ s.disposables, e.1 ≤ t
  | .removeDisposable t claimant => Controls claimant (s.occurrence t)
  | .setDrainCleanup t => s.slot = some p ∧ ∀ q, ¬ Settled (s.occurrence q) → q = t
  | .detach t cleanup _ => (s.occurrence t).cleanup = some cleanup ∧
      ∀ r, cleanup = .join r → s.slot = some p ∧ (s.run r).joiner = none ∧
        (s.occurrence t).claimant ≠ none
  | .send t out => (s.occurrence t).claimant ≠ none ∧
      ∀ r, (s.run r).token = some t → (s.run r).joiner = some p ∧ Finished (s.run r) ∧ out = none
  | .complete t => (s.occurrence t).outcome ≠ none
  | .setDraining false => s.disposables = []
  | .claimSlot => s.slot ≠ some p
  | .abandon => s.slot = some p ∧ s.hand = none ∧ Quiet s
  | .transition next => s.slot = some p ∧ (next = .loading ∨ next = .active → Quiet s)
  | .reopen => s.slot = some p ∧ Quiet s
  | .kill | .claimTerminal => s.slot = some p
  | _ => True

/-- Whoever has pushed the join obligation spawns, parks and notifies next. -/
structure Due (p : Party) (op : Op) (s : Fiber) : Prop where
  entitled : Entitled p s op
  parks : ∀ r, (s.run r).caller = some p → (s.run r).token ≠ none → (s.run r).notified = false →
    op = .spawn r ∨ op = .park r ∨ op = .notifyWaiters r

/-! ## Calls -/

section Calls

variable {p q : Party} {r : RunId} {s : Fiber} {u : Run} {g : Run → Run}

@[simp] theorem run_modify_self : (s.modify r g).run r = g (s.run r) := by
  simp [Fiber.modify]

theorem run_modify_of_ne {x : RunId} (h : x ≠ r) : (s.modify r g).run x = s.run x := by
  simp [Fiber.modify, h]

/-- A property of every call, when one of them changes. -/
theorem forall_modify {P : RunId → Run → Prop} (h : ∀ x, P x (s.run x))
    (hr : P r (g (s.run r))) (x : RunId) : P x ((s.modify r g).run x) := by
  by_cases heq : x = r
  · subst heq
    rw [run_modify_self]
    exact hr
  · rw [run_modify_of_ne heq]
    exact h x

theorem modify_same {α : Type} (f : Run → α) (h : f (g (s.run r)) = f (s.run r)) (x : RunId) :
    f ((s.modify r g).run x) = f (s.run x) :=
  forall_modify (P := fun x u => f u = f (s.run x)) (fun _ => rfl) h x

/-- A call moves on and neither its obligation nor its join cleanup changes. -/
theorem Sound.modify (h : Sound s) (hne : s.run r ≠ {}) (hcall : Consistent r (g (s.run r)))
    (htoken : (g (s.run r)).token = (s.run r).token)
    (hjoiner : (g (s.run r)).joiner = (s.run r).joiner ∨ (g (s.run r)).joiner ≠ none ∧
      ∃ j, (s.run r).token = some j ∧ (s.occurrence j).claimant ≠ none)
    (hended : ∀ o, (s.run r).task = .ended o → ∃ o', (g (s.run r)).task = .ended o')
    (hexecuted : ∀ j, (s.run r).token = some j → (s.occurrence j).outcome ≠ none →
      Finished (g (s.run r))) : Sound (s.modify r g) := by
  have htoken := modify_same (s := s) Run.token htoken
  refine {
    call := forall_modify h.call hcall
    uncalled := fun x hx => ?uncalled
    uncommitted := h.uncommitted
    sorted := h.sorted
    registered := h.registered
    joins := fun t x => (h.joins t x).trans (by rw [htoken])
    author := fun t x ha => ?author
    unclaimed := h.unclaimed
    claimed := h.claimed
    completed := h.completed
    joiner := fun x hx => ?joiner
    executed := fun x j out hj hout => ?executed
    controlled := h.controlled
    shut := fun x j hj hc hn => ?shut
    drained := fun x j t hj => h.drained x j t (by rw [← htoken, hj])
    free := h.free
    registrations := h.registrations }
  case uncalled =>
    rw [run_modify_of_ne]
    · exact h.uncalled x hx
    · rintro rfl
      exact hne (h.uncalled x hx)
  case author =>
    rw [htoken]
    exact h.author t x ha
  case joiner =>
    rw [htoken]
    by_cases heq : x = r
    · subst heq
      rw [run_modify_self] at hx
      rcases hjoiner with hsame | hclaimed
      · exact h.joiner x (hsame ▸ hx)
      · exact hclaimed.2
    · rw [run_modify_of_ne heq] at hx
      exact h.joiner x hx
  case executed =>
    rw [htoken] at hj
    have hold := h.executed x j out hj hout
    -- an executed join still finds its own task over
    by_cases heq : x = r
    · subst heq
      rw [run_modify_self]
      refine ⟨?_, hexecuted j hj ?_, hold.2.2⟩
      · rcases hjoiner with hsame | hclaimed
        · exact hsame ▸ hold.1
        · exact hclaimed.1
      · rw [show (s.occurrence j).outcome = some out from hout]
        nofun
    · rw [run_modify_of_ne heq]
      exact hold
  case shut =>
    rw [htoken] at hj
    refine h.shut x j hj hc fun o ho => ?_
    by_cases heq : x = r
    · subst heq
      rcases hended o ho with ⟨o', ho'⟩
      rw [run_modify_self] at hn
      exact hn o' ho'
    · rw [run_modify_of_ne heq] at hn
      exact hn o ho

/-- A step inside one call, seen by the others. -/
theorem keeps_modify {t : Party} (h : CallKeeps t (s.run r) (g (s.run r)))
    (hjoiner : (g (s.run r)).joiner = (s.run r).joiner) : Keeps t s (s.modify r g) where
  run := forall_modify (P := fun x u => CallKeeps t (s.run x) u) (fun _ => .refl t _) h
  cleanup _ _ hc := hc
  claimant _ _ hc := hc
  outcome _ ho := ho
  unsent _ _ _ _ := rfl
  slot := Iff.rfl
  held _ := { Held.refl s with joiner := modify_same Run.joiner hjoiner }

end Calls

end Tasks
end CordisCore
