import CordisCore.Tasks.Cleanups

/-!
# Drain — the obligations of a closed generation, the latest one first
-/

namespace CordisCore
namespace Tasks

open Interleaving
open CordisCore.Runtime (FiberState Token)

variable {p q : Party} {r : RunId} {t : Token} {s s' : Fiber} {rest : List Token}

/-! ## Whoever holds the slot -/

/-- Between the steps of a pass. -/
structure Holds (p : Party) (s : Fiber) : Prop where
  silent : Silent p s
  slot : s.slot = some p
  hand : s.hand = none

theorem Holds.keeps (h : Holds p s) (hk : Keeps p s s') : Holds p s' where
  silent := h.silent.keeps hk
  slot := hk.slot.mpr h.slot
  hand := (hk.held h.slot).hand.trans h.hand

theorem Quiet.keeps (h : Quiet s) (hslot : s.slot = some p) (hk : Keeps p s s') : Quiet s' :=
  fun y hy => hk.outcome y (h y (((hk.held hslot).claims y).mp hy))

/-- The generation is closed and drained; `current` is the one obligation that was claimed and may
not be executed yet, and no other than `rest` are left. -/
structure Draining (current : Option Token) (rest : List Token) (p : Party) (s : Fiber) : Prop
    extends Holds p s where
  state : s.state = .unloading
  unsettled : ∀ y, ¬ Settled (s.occurrence y) → current = some y
  rest : ∀ e ∈ s.disposables, e.1 ∈ rest

theorem closed_of_unloading (h : s.state = .unloading) : s.admits = false :=
  admits_of_state (by rw [h]; nofun) (by rw [h]; nofun)

theorem unsettled_of_held {current : Option Token} (h : ∀ y, ¬ Settled (s.occurrence y) →
      current = some y)
    (hclaims : ∀ y, (s'.occurrence y).claimant = some .drain ↔
      (s.occurrence y).claimant = some .drain)
    (hout : ∀ y, (s.occurrence y).outcome ≠ none → (s'.occurrence y).outcome ≠ none) (y : Token)
    (hy : ¬ Settled (s'.occurrence y)) : current = some y :=
  h y fun hsettled => hy fun hc => hout y (hsettled ((hclaims y).mp hc))

theorem Draining.keeps {current : Option Token} (h : Draining current rest p s)
    (hk : Keeps p s s') : Draining current rest p s' := by
  have held := hk.held h.slot
  exact {
    toHolds := h.toHolds.keeps hk
    state := held.state.trans h.state
    unsettled := unsettled_of_held h.unsettled held.claims hk.outcome
    rest := fun e he => h.rest e (held.closed (closed_of_unloading h.state) e he) }

theorem stable_draining {current : Option Token} : Stable p (Draining current rest p) where
  silent h := h.silent
  torn h _ := ⟨h.hand, fun hd => nomatch h.state.symm.trans hd⟩
  keeps h hk := h.keeps hk
  mark h hclaimant hout := {
    silent := h.silent
    slot := h.slot
    hand := h.hand
    state := h.state
    unsettled := unsettled_of_held h.unsettled
      (forall_mark (P := fun y o => o.claimant = some .drain ↔ _) (fun _ => Iff.rfl)
        (by rw [hclaimant]))
      (forall_mark (P := fun y o => _ → o.outcome ≠ none) (fun _ => id) hout)
    rest := h.rest }

theorem Draining.quiet (h : Draining none rest p s) : Quiet s :=
  fun y => Classical.not_not.mp fun hy => nomatch h.unsettled y hy

/-! ## One obligation -/

/-- An obligation that the drain has claimed and not started. -/
structure Taken (t : Token) (cleanup : Cleanup) (s : Fiber) : Prop where
  committed : (s.occurrence t).cleanup = some cleanup
  claimed : (s.occurrence t).claimant = some .drain
  unjoined : ∀ r, cleanup = .join r → (s.run r).joiner = none

theorem Taken.keeps {cleanup : Cleanup} (h : Taken t cleanup s) (hslot : s.slot = some p)
    (hk : Keeps p s s') : Taken t cleanup s' where
  committed := hk.cleanup t _ h.committed
  claimed := hk.claimant t _ h.claimed
  unjoined r hr := ((hk.held hslot).joiner r).trans (h.unjoined r hr)

/-- What the party has claimed is in its hand. -/
structure InHand (t : Token) (cleanup : Cleanup) (rest : List Token) (p : Party) (s : Fiber) : Prop
    extends Taken t cleanup s where
  silent : Silent p s
  slot : s.slot = some p
  state : s.state = .unloading
  unsettled : ∀ y, ¬ Settled (s.occurrence y) → some t = some y
  rest : ∀ e ∈ s.disposables, e.1 ∈ rest

theorem InHand.keeps {cleanup : Cleanup} (h : InHand t cleanup rest p s) (hk : Keeps p s s') :
    InHand t cleanup rest p s' := by
  have held := hk.held h.slot
  exact {
    toTaken := h.toTaken.keeps h.slot hk
    silent := h.silent.keeps hk
    slot := hk.slot.mpr h.slot
    state := held.state.trans h.state
    unsettled := unsettled_of_held h.unsettled held.claims hk.outcome
    rest := fun e he => h.rest e (held.closed (closed_of_unloading h.state) e he) }

/-- The obligation is claimed before it runs, and nothing behind it is left. -/
theorem wp_claimNext (h : Draining none (t :: rest) p s) (hlast : ∀ y ∈ rest, y < t) :
    joining.wp p (perform (.removeDisposable t .drain)) (fun found s' => match found with
      | some cleanup => InHand t cleanup rest p s'
      | none => Draining none rest p s') s := by
  refine wp_op rfl rfl (fun s' hk _ => ?_) fun s' u c s'' ret hk hs' hexec => ?_
  · have h' := h.keeps hk
    refine due_of_silent ⟨h'.slot, h'.hand, closed_of_unloading h'.state, h'.quiet, fun e he => ?_⟩
      h'.silent
    rcases List.mem_cons.mp (h'.rest e he) with heq | hrest
    · exact Nat.le_of_eq heq
    · exact Nat.le_of_lt (hlast _ hrest)
  · have h' := h.keeps hk
    have heq := Option.some.inj hexec
    have hnext : s'' = (s'.removeDisposable t .drain).1 := (congrArg Prod.fst heq).symm
    have hret : ret = (s'.removeDisposable t .drain).2 := (congrArg Prod.snd heq).symm
    subst hnext hret
    cases hout : (s'.removeDisposable t .drain).2 with
    | none =>
        have hnone := removeDisposable_none hout
        rw [hnone.2]
        refine { h' with rest := fun e he => ?_ }
        exact (List.mem_cons.mp (h'.rest e he)).resolve_left (hnone.1 e he)
    | some cleanup =>
        have hclaim := removeDisposable_some hout
        have hregistered := (hs'.registered t cleanup).mp hclaim.1
        rw [hclaim.2]
        refine ⟨⟨?_, ?_, fun r hr => ?_⟩, h'.silent, h'.slot, h'.state, fun y hy => ?_, fun e he => ?_⟩
        · rw [(occurrence_claim t).1]
          exact hregistered.1
        · rw [occurrence_claim_self]
        · subst hr
          refine Decidable.by_contra fun hjoiner => ?_
          rcases hs'.joiner r hjoiner with ⟨j, hj, hclaimed⟩
          cases ((hs'.joins t r).mp hregistered.1).symm.trans hj
          exact hclaimed hregistered.2
        · refine congrArg some (Decidable.by_contra fun hne => hy ?_)
          rw [occurrence_claim_of_ne fun heq => hne heq.symm]
          exact h'.quiet y
        · have hmem := List.mem_filter.mp he
          exact (List.mem_cons.mp (h'.rest e hmem.1)).resolve_left (of_decide_eq_true hmem.2)

theorem wp_setDrainCleanup {cleanup : Cleanup} (h : InHand t cleanup rest p s) :
    joining.wp p (perform (.setDrainCleanup t)) (fun _ s' => Draining (some t) rest p s' ∧
      Taken t cleanup s') s := by
  refine wp_op rfl rfl (fun s' hk _ => due_of_silent ⟨(h.keeps hk).slot, fun y hy =>
    (Option.some.inj ((h.keeps hk).unsettled y hy)).symm⟩ (h.keeps hk).silent)
    fun s' u c s'' ret hk _ hexec => ?_
  have h' := h.keeps hk
  cases hexec
  exact ⟨⟨⟨h'.silent, h'.slot, rfl⟩, h'.state, h'.unsettled, h'.rest⟩, { h'.toTaken with }⟩

theorem wp_detach {cleanup : Cleanup} (h : Draining (some t) rest p s) (htaken : Taken t cleanup s) :
    joining.wp p (perform (.detach t cleanup true)) (fun _ s' => Draining (some t) rest p s') s := by
  have hclaimed : ∀ {s : Fiber}, Taken t cleanup s → (s.occurrence t).claimant ≠ none := by
    intro s h
    rw [h.claimed]
    nofun
  refine wp_fork rfl rfl (fun s' hk _ => ?_) fun s' u c s'' ret hk hs' hexec _ hblank => ?_
  · have htaken' := htaken.keeps h.slot hk
    exact due_of_silent ⟨htaken'.committed, fun r hr => ⟨(h.keeps hk).slot, htaken'.unjoined r hr,
      hclaimed htaken'⟩⟩ (h.keeps hk).silent
  · have h' := h.keeps hk
    have htaken' := htaken.keeps h.slot hk
    have hclaimed' := hclaimed htaken'
    cases hexec
    cases cleanup with
    | registered control => exact ⟨⟨hblank.1, htaken'.committed, hclaimed', nofun⟩, h'⟩
    | join r =>
        have hjoiner := htaken'.unjoined r rfl
        have hfresh := (hs'.call r).unjoined hjoiner
        have hunsent : (s'.occurrence t).outcome = none := by
          cases hout : (s'.occurrence t).outcome with
          | none => rfl
          | some out =>
              exact absurd hjoiner (hs'.executed r t out ((hs'.joins t r).mp htaken'.committed) hout).1
        have hcaller : ∀ x, ((s'.modify r fun u' => { u' with joiner := some u }).run x).caller =
            (s'.run x).caller := modify_same Run.caller rfl
        refine ⟨⟨⟨fun x => ?_, hblank.1.slot⟩, htaken'.committed, hclaimed', fun x hx => ?_⟩,
          { h' with silent := fun x => ?_ }⟩
        · show ((s'.modify r fun u' => { u' with joiner := some u }).run x).caller ≠ some u
          rw [hcaller x]
          exact hblank.1.silent x
        · cases hx
          show ((s'.modify r fun u' => { u' with joiner := some u }).run r).joiner = some u ∧ _ ∧
            ((s'.modify r fun u' => { u' with joiner := some u }).run r).slot ≠ .done ∧
            ((s'.modify r fun u' => { u' with joiner := some u }).run r).reports = 0
          rw [run_modify_self]
          exact ⟨rfl, hunsent, hfresh⟩
        · show ((s'.modify r fun u' => { u' with joiner := some u }).run x).caller ≠ some p
          rw [hcaller x]
          exact h'.silent x

theorem wp_startCleanup {cleanup : Cleanup} (hs : Sound s) (h : Draining (some t) rest p s)
    (htaken : Taken t cleanup s) : joining.wp p (startCleanup t cleanup)
      (fun _ s' => Draining (some t) rest p s') s := by
  unfold startCleanup
  split
  · exact wp_detach h htaken
  · rename_i hsync
    cases cleanup with
    | join r => exact absurd rfl hsync
    | registered control =>
        have hclaimed : (s.occurrence t).claimant ≠ none := by
          rw [htaken.claimed]
          nofun
        exact joining.wp_mono hs (wp_workEffect stable_draining hs h htaken.committed hclaimed)
          fun _ _ _ h => h.1

/-- The drain goes on when the cleanup it claimed is executed. -/
theorem wp_runCleanupContained {cleanup : Cleanup} (hs : Sound s) (h : InHand t cleanup rest p s) :
    joining.wp p (runCleanupContained t cleanup) (fun _ s' => Draining none rest p s') s := by
  refine joining.wp_seq hs (wp_setDrainCleanup h) fun _ s₁ hs₁ h₁ => ?_
  refine joining.wp_seq hs₁ (wp_startCleanup hs₁ h₁.1 h₁.2) fun _ s₂ hs₂ h₂ => ?_
  refine joining.wp_mono hs₂ (wp_awaitOutcome stable_draining hs₂ h₂) fun _ s₃ _ h₃ => ?_
  refine { h₃.1 with unsettled := fun y hy => ?_ }
  cases h₃.1.unsettled y hy
  exact absurd (fun _ => h₃.2) hy

theorem wp_runToken (hs : Sound s) (h : Draining none (t :: rest) p s) (hlast : ∀ y ∈ rest, y < t) :
    joining.wp p (runToken t) (fun _ s' => Draining none rest p s') s := by
  refine joining.wp_seq hs (wp_claimNext h hlast) fun found s₁ hs₁ h₁ => ?_
  cases found with
  | none => exact h₁
  | some cleanup => exact wp_runCleanupContained hs₁ h₁

theorem wp_runTokensContained (hs : Sound s) (h : Draining none rest p s)
    (hsorted : rest.Pairwise (· > ·)) : joining.wp p (runTokensContained rest)
      (fun _ s' => Draining none [] p s') s := by
  induction rest generalizing s with
  | nil => exact h
  | cons t rest ih =>
      rw [List.pairwise_cons] at hsorted
      exact joining.wp_seq hs (wp_runToken hs h hsorted.1) fun _ s₁ hs₁ h₁ => ih hs₁ h₁ hsorted.2

/-! ## The drain -/

/-- The generation is closed. -/
structure Closed (p : Party) (s : Fiber) : Prop extends Holds p s where
  state : s.state = .unloading

theorem Closed.keeps (h : Closed p s) (hk : Keeps p s s') : Closed p s' :=
  ⟨h.toHolds.keeps hk, (hk.held h.slot).state.trans h.state⟩

theorem Closed.torn (h : Closed p s) : Torn s :=
  ⟨h.hand, fun hd => nomatch h.state.symm.trans hd⟩

/-- What a cancelled drain has claimed is executed before the next one goes on. -/
theorem wp_waitClaimedDrainCleanup (hs : Sound s) (h : Closed p s) :
    joining.wp p waitClaimedDrainCleanup (fun _ s' => Closed p s' ∧ Quiet s') s := by
  have hread : joining.wp p (perform .drainCleanup) (fun pending s' => Closed p s' ∧
      s'.drainCleanup = pending) s := by
    refine wp_op rfl rfl (fun s' hk _ => due_of_silent trivial (h.keeps hk).silent)
      fun s' u c s'' ret hk _ hexec => ?_
    have h' := h.keeps hk
    cases hexec
    exact ⟨h', rfl⟩
  refine joining.wp_seq hs hread fun pending s₁ hs₁ h₁ => ?_
  have hclaimed : ∀ {s : Fiber}, Sound s → Closed p s → ∀ y, ¬ Settled (s.occurrence y) →
      s.drainCleanup = some y := by
    intro s hs h y hy
    rcases hs.claimed y with hsettled | hcurrent | hhand
    · exact absurd hsettled hy
    · exact hcurrent
    · cases h.hand.symm.trans hhand
  cases pending with
  | none =>
      refine ⟨h₁.1, fun y => Classical.not_not.mp fun hy => ?_⟩
      cases h₁.2.symm.trans (hclaimed hs₁ h₁.1 y hy)
  | some t =>
      refine wp_wait rfl (fun s' hk _ => due_of_silent trivial (h₁.1.keeps hk).silent)
        (fun s' hk _ => ⟨(h₁.1.keeps hk).silent, fun _ => (h₁.1.keeps hk).torn⟩)
        fun s' u c s'' ret hk hs' hexec => ?_
      have h' := h₁.1.keeps hk
      have hcurrent := ((hk.held h₁.1.slot).drainCleanup).trans h₁.2
      simp only [exec] at hexec
      split at hexec
      · rename_i hcompleted
        cases hexec
        refine ⟨h', fun y => Classical.not_not.mp fun hy => ?_⟩
        cases hcurrent.symm.trans (hclaimed hs' h' y hy)
        exact hy fun _ => hs'.completed t hcompleted
      · cases hexec

theorem wp_setDraining {draining : Bool} {current : Option Token} (h : Draining current rest p s)
    (hrest : draining = false → rest = []) : joining.wp p (perform (.setDraining draining))
      (fun _ s' => Draining current rest p s') s := by
  refine wp_op rfl rfl (fun s' hk _ => due_of_silent ?_ (h.keeps hk).silent)
    fun s' u c s'' ret hk _ hexec => ?_
  · cases draining with
    | true => trivial
    | false =>
        refine List.eq_nil_iff_forall_not_mem.mpr fun e he => ?_
        have hmem := (h.keeps hk).rest e he
        rw [hrest rfl] at hmem
        cases hmem
  · have h' := h.keeps hk
    cases hexec
    exact { h' with }

/-- At the end nothing is left of the generation. -/
theorem wp_drainDisposables (hs : Sound s) (h : Closed p s) :
    joining.wp p drainDisposables (fun _ s' => Draining none [] p s') s := by
  refine joining.wp_seq hs (wp_waitClaimedDrainCleanup hs h) fun _ s₁ hs₁ h₁ => ?_
  have htokens : joining.wp p (perform .tokens) (fun tokens s' =>
      Draining none tokens.reverse p s' ∧ tokens.Pairwise (· < ·)) s₁ := by
    refine wp_op rfl rfl (fun s' hk _ => due_of_silent trivial (h₁.1.keeps hk).silent)
      fun s' u c s'' ret hk hs' hexec => ?_
    have h' := h₁.1.keeps hk
    have hquiet := h₁.2.keeps h₁.1.slot hk
    cases hexec
    refine ⟨⟨h'.toHolds, h'.state, fun y hy => absurd (hquiet y) hy, fun e he => ?_⟩, hs'.sorted⟩
    exact List.mem_reverse.mpr (List.mem_map_of_mem he)
  refine joining.wp_seq hs₁ htokens fun tokens s₂ hs₂ h₂ => ?_
  refine joining.wp_seq hs₂ (wp_setDraining h₂.1 nofun) fun _ s₃ hs₃ h₃ => ?_
  refine joining.wp_seq hs₃ (wp_runTokensContained hs₃ h₃ (List.pairwise_reverse.mpr h₂.2))
    fun _ s₄ hs₄ h₄ => ?_
  exact wp_setDraining h₄ fun _ => rfl

end Tasks
end CordisCore
