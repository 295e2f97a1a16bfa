import CordisCore.Tasks.Steps

/-!
# Claims — obligations leave the journal, and the passes open and close the generation
-/

namespace CordisCore
namespace Tasks

open Interleaving
open CordisCore.Runtime (FiberState Token)

variable {p q t : Party} {r : RunId} {s s' : Fiber} {x : Token}

/-! ## Claims -/

/-- The state after an obligation was taken out of the journal. -/
def Fiber.claim (s : Fiber) (x : Token) (claimant : Claimant) : Fiber :=
  { s with
      disposables := s.disposables.filter fun entry => entry.1 ≠ x
      hand := match claimant with
        | .drain => some x
        | .dispose | .disarm | .removeListener | .removePublication => s.hand }.mark x
    fun o => { o with claimant := some claimant }

theorem removeDisposable_some {claimant : Claimant} {cleanup : Cleanup}
    (h : (s.removeDisposable x claimant).2 = some cleanup) :
    (x, cleanup) ∈ s.disposables ∧ (s.removeDisposable x claimant).1 = s.claim x claimant := by
  unfold Fiber.removeDisposable at h ⊢
  split
  · rename_i found hlookup
    simp only [hlookup, Option.some.injEq] at h
    rcases List.lookup_eq_some_iff.mp hlookup with ⟨before, after, heq, -⟩
    refine ⟨?_, rfl⟩
    rw [heq, h]
    exact List.mem_append_right _ List.mem_cons_self
  · rename_i hlookup
    simp only [hlookup] at h
    cases h

theorem removeDisposable_none {claimant : Claimant} (h : (s.removeDisposable x claimant).2 = none) :
    (∀ e ∈ s.disposables, e.1 ≠ x) ∧ (s.removeDisposable x claimant).1 = s := by
  unfold Fiber.removeDisposable at h ⊢
  split
  · rename_i found hlookup
    simp only [hlookup] at h
    cases h
  · rename_i hlookup
    refine ⟨fun e he heq => ?_, rfl⟩
    have hne := List.lookup_eq_none_iff.mp hlookup e he
    rw [heq] at hne
    simp at hne

/-- What entitles to a claim: a drain that has executed all it claimed, of the latest obligation,
or the registration of an effect. -/
def MayClaim (s : Fiber) (x : Token) (claimant : Claimant) : Prop :=
  claimant = .drain ∧ (∃ p, s.slot = some p) ∧ s.admits = false ∧ Quiet s ∧
      (∀ e ∈ s.disposables, e.1 ≤ x) ∨
    claimant ≠ .drain ∧ Controls claimant (s.occurrence x)

theorem mayClaim {claimant : Claimant} (h : Entitled p s (.removeDisposable x claimant)) :
    MayClaim s x claimant := by
  cases claimant with
  | drain => exact .inl ⟨rfl, ⟨p, h.1⟩, h.2.2⟩
  | dispose | disarm | removeListener | removePublication => exact .inr ⟨nofun, h⟩

/-- A registration is not the join obligation of a call. -/
theorem Sound.not_join (h : Sound s) {control : Control}
    (hc : (s.occurrence x).cleanup = some (.registered control)) : (s.run r).token ≠ some x := by
  intro htoken
  cases hc.symm.trans ((h.joins x r).mpr htoken)

section Claim

variable {claimant : Claimant} {cleanup : Cleanup}

theorem occurrence_claim_self :
    (s.claim x claimant).occurrence x = { s.occurrence x with claimant := some claimant } :=
  occurrence_mark_self

theorem occurrence_claim_of_ne {y : Token} (h : y ≠ x) :
    (s.claim x claimant).occurrence y = s.occurrence y :=
  occurrence_mark_of_ne h

/-- All that a claim changes in an occurrence is its claimant. -/
theorem occurrence_claim (y : Token) :
    ((s.claim x claimant).occurrence y).cleanup = (s.occurrence y).cleanup ∧
      ((s.claim x claimant).occurrence y).author = (s.occurrence y).author ∧
      ((s.claim x claimant).occurrence y).outcome = (s.occurrence y).outcome ∧
      ((s.claim x claimant).occurrence y).completed = (s.occurrence y).completed := by
  by_cases heq : y = x
  · subst heq
    rw [occurrence_claim_self]
    exact ⟨rfl, rfl, rfl, rfl⟩
  · rw [occurrence_claim_of_ne heq]
    exact ⟨rfl, rfl, rfl, rfl⟩

theorem sound_claim (h : Sound s) (hmem : (x, cleanup) ∈ s.disposables)
    (hmay : MayClaim s x claimant) : Sound (s.claim x claimant) := by
  have hx := (h.registered x cleanup).mp hmem
  have hle : x ≤ s.sn := h.sn_lt (by rw [hx.1]; nofun)
  have hself : (s.claim x claimant).occurrence x =
      { s.occurrence x with claimant := some claimant } := occurrence_claim_self
  have hother : ∀ {y}, y ≠ x → (s.claim x claimant).occurrence y = s.occurrence y :=
    fun hy => occurrence_claim_of_ne hy
  have hsame : ∀ y, ((s.claim x claimant).occurrence y).cleanup = (s.occurrence y).cleanup ∧
      ((s.claim x claimant).occurrence y).author = (s.occurrence y).author ∧
      ((s.claim x claimant).occurrence y).outcome = (s.occurrence y).outcome ∧
      ((s.claim x claimant).occurrence y).completed = (s.occurrence y).completed :=
    occurrence_claim
  refine {
    call := h.call
    uncalled := h.uncalled
    uncommitted := fun y hy => ?uncommitted
    sorted := ?sorted
    registered := fun y c => ?registered
    joins := fun y z => ?joins
    author := fun y z hy => ?author
    unclaimed := fun y hy => ?unclaimed
    claimed := fun y => ?claimed
    completed := fun y hy => ?completed
    joiner := fun z hz => ?joiner
    executed := fun z j out hj hout => ?executed
    controlled := fun y c hc => ?controlled
    shut := fun z j hj hc hn => ?shut
    drained := fun z j y hj hc hy => ?drained
    free := fun hfree => ?free
    registrations := fun y hy => ?registrations }
  case uncommitted =>
    rw [hother (Nat.ne_of_gt (Nat.lt_of_le_of_lt hle hy))]
    exact h.uncommitted y hy
  case sorted => exact h.sorted.sublist (List.filter_sublist.map Prod.fst)
  case registered =>
    -- the claimed obligation is all that leaves the journal
    show (y, c) ∈ s.disposables.filter _ ↔ _
    rw [List.mem_filter, (hsame y).1]
    by_cases heq : y = x
    · subst heq
      rw [hself]
      refine ⟨fun hpair => ?_, fun hpair => nomatch hpair.2⟩
      exact absurd hpair.2 (by simp)
    · rw [hother heq, ← h.registered y c]
      refine ⟨And.left, fun hpair => ⟨hpair, ?_⟩⟩
      exact decide_eq_true heq
  case joins =>
    rw [(hsame y).1]
    exact h.joins y z
  case author =>
    rw [(hsame y).2.1] at hy
    rw [(hsame y).1]
    exact h.author y z hy
  case unclaimed =>
    by_cases heq : y = x
    · subst heq
      rw [hself] at hy
      cases hy
    · rw [hother heq] at hy ⊢
      exact h.unclaimed y hy
  case claimed =>
    by_cases heq : y = x
    · subst heq
      cases claimant with
      | drain => exact .inr (.inr rfl)
      | dispose | disarm | removeListener | removePublication =>
          refine .inl fun hc => ?_
          rw [hself] at hc
          cases hc
    · rw [hother heq]
      -- a drain claims the next obligation only when it is done with all it claimed before
      rcases hmay with ⟨-, -, -, hquiet, -⟩ | ⟨hne, -⟩
      · exact .inl (hquiet y)
      · cases claimant with
        | drain => exact absurd rfl hne
        | dispose | disarm | removeListener | removePublication => exact h.claimed y
  case completed =>
    rw [(hsame y).2.2.2] at hy
    rw [(hsame y).2.2.1]
    exact h.completed y hy
  case joiner =>
    rcases h.joiner z hz with ⟨j, hj, hc⟩
    refine ⟨j, hj, ?_⟩
    by_cases heq : j = x
    · subst heq
      rw [hself]
      nofun
    · rw [hother heq]
      exact hc
  case executed =>
    rw [(hsame j).2.2.1] at hout
    exact h.executed z j out hj hout
  case controlled =>
    by_cases heq : y = x
    · subst heq
      rw [hself] at hc ⊢
      cases hc
      rcases hmay with ⟨rfl, -⟩ | ⟨-, hcontrols⟩
      · exact .inl rfl
      · exact .inr hcontrols
    · rw [hother heq] at hc ⊢
      exact h.controlled y c hc
  case shut =>
    show s.admits = false
    -- only a drain claims join obligations, and it runs with the gate shut
    rcases hmay with ⟨-, -, hshut, -, -⟩ | ⟨-, control, heffect, -⟩
    · exact hshut
    · have heq : j ≠ x := by
        rintro rfl
        exact h.not_join heffect hj
      rw [hother heq] at hc
      exact h.shut z j hj hc hn
  case drained =>
    rw [(hsame y).2.1] at hy
    have hbehind := h.author y z hy
    by_cases heq : j = x
    · -- all that the task registered is behind the obligation that the drain is at
      subst heq
      rcases hmay with ⟨-, -, -, hquiet, hlast⟩ | ⟨-, control, heffect, -⟩
      · rcases hbehind with ⟨hcommitted, j', hj', hlt⟩
        cases hj.symm.trans hj'
        rw [hother (Nat.ne_of_gt hlt)]
        refine ⟨fun hnone => ?_, hquiet y⟩
        rcases Option.ne_none_iff_exists'.mp hcommitted with ⟨c, hc⟩
        exact absurd (hlast _ ((h.registered y c).mpr ⟨hc, hnone⟩)) (Nat.not_le_of_lt hlt)
      · exact absurd hj (h.not_join heffect)
    · rw [hother heq] at hc
      have hold := h.drained z j y hj hc hy
      have hne : y ≠ x := by
        rintro rfl
        exact hold.1 hx.2
      rw [hother hne]
      exact hold
  case free =>
    have hfree : s.slot = none := hfree
    -- a drain holds the slot, so it does not claim while the slot is free
    rcases hmay with ⟨-, ⟨p, hp⟩, -⟩ | ⟨hne, -⟩
    · cases hfree.symm.trans hp
    · have hold := h.free hfree
      refine ⟨?_, fun y => ?_⟩
      · cases claimant with
        | drain => exact absurd rfl hne
        | dispose | disarm | removeListener | removePublication => exact hold.1
      · by_cases heq : y = x
        · subst heq
          rw [hself]
          exact fun hc => absurd (Option.some.inj hc) hne
        · rw [hother heq]
          exact hold.2 y
  case registrations =>
    rw [(hsame y.1).1]
    exact h.registrations y hy

theorem keeps_claim (h : Sound s) (hmem : (x, cleanup) ∈ s.disposables)
    (hentitled : Entitled p s (.removeDisposable x claimant)) (ht : t ≠ p) :
    Keeps t s (s.claim x claimant) where
  run _ := .refl t _
  cleanup y c hc := by
    rw [(occurrence_claim y).1]
    exact hc
  claimant y c hc := by
    have hne : y ≠ x := by
      rintro rfl
      cases ((h.registered y cleanup).mp hmem).2.symm.trans hc
    rw [occurrence_claim_of_ne hne]
    exact hc
  outcome y ho := by
    rw [(occurrence_claim y).2.2.1]
    exact ho
  unsent _ j _ _ := (occurrence_claim j).2.2.1
  slot := Iff.rfl
  held hslot := by
    -- the drain that owns the hand is the holder of the slot, not the claiming party
    have hne : claimant ≠ .drain := by
      rintro rfl
      exact ht (Option.some.inj (hslot.symm.trans hentitled.1))
    refine { Held.refl s with
      hand := ?_
      claims := fun y => ?_
      closed := fun _ e he => (List.mem_filter.mp he).1 }
    · cases claimant with
      | drain => exact absurd rfl hne
      | dispose | disarm | removeListener | removePublication => rfl
    · by_cases heq : y = x
      · subst heq
        rw [occurrence_claim_self, ((h.registered y cleanup).mp hmem).2]
        exact ⟨fun hc => absurd (Option.some.inj hc) hne, nofun⟩
      · rw [occurrence_claim_of_ne heq]

end Claim

/-! ## Executions -/

theorem sound_setDrainCleanup (h : Sound s) (hslot : s.slot = some p)
    (hlast : ∀ y, ¬ Settled (s.occurrence y) → y = x) :
    Sound { s with drainCleanup := some x, hand := none } :=
  { h with
    claimed := fun y => by
      by_cases hy : Settled (s.occurrence y)
      · exact .inl hy
      · exact .inr (.inl (congrArg some (hlast y hy).symm))
    free := fun hfree => by
      have hfree : s.slot = none := hfree
      cases hslot.symm.trans hfree }

theorem sound_detach {cleanup : Cleanup} {drains : Bool} (h : Sound s)
    (hentitled : Entitled p s (.detach x cleanup drains)) : Sound (s.detach q cleanup) := by
  cases cleanup with
  | registered control => exact h
  | join r =>
      rcases hentitled with ⟨hc, hjoin⟩
      rcases hjoin r rfl with ⟨-, hnone, hclaimed⟩
      have htoken := (h.joins x r).mp hc
      have hne : s.run r ≠ {} := by
        intro heq
        rw [heq] at htoken
        cases htoken
      show Sound (s.modify r fun u => { u with joiner := some q })
      refine h.modify hne { h.call r with unjoined := nofun } rfl (.inr ⟨nofun, x, htoken, hclaimed⟩)
        (fun o ho => ⟨o, ho⟩) fun _ hj ho => h.finished hj ho

theorem keeps_detach {cleanup : Cleanup} {drains : Bool}
    (hentitled : Entitled p s (.detach x cleanup drains)) (ht : t ≠ p) (htq : t ≠ q) :
    Keeps t s (s.detach q cleanup) := by
  cases cleanup with
  | registered control => exact .refl t s
  | join r =>
      rcases hentitled.2 r rfl with ⟨hslot, hnone, -⟩
      show Keeps t s (s.modify r fun u => { u with joiner := some q })
      refine { Keeps.refl t s with
        run := forall_modify (P := fun y u => CallKeeps t (s.run y) u) (fun _ => .refl t _) ?_
        unsent := fun _ _ _ _ => rfl
        held := fun hslot' => absurd (Option.some.inj (hslot'.symm.trans hslot)) ht }
      refine { CallKeeps.refl t (s.run r) with joiner := ?_ }
      rw [hnone]
      exact ⟨fun heq => absurd (Option.some.inj heq).symm htq, nofun⟩

/-- The execution of a claimed cleanup moves on. -/
theorem Sound.mark (h : Sound s) {change : Occurrence → Occurrence}
    (hcleanup : (change (s.occurrence x)).cleanup = (s.occurrence x).cleanup)
    (hauthor : (change (s.occurrence x)).author = (s.occurrence x).author)
    (hclaimant : (change (s.occurrence x)).claimant = (s.occurrence x).claimant)
    (hclaimed : (s.occurrence x).claimant ≠ none)
    (hout : (change (s.occurrence x)).outcome ≠ none)
    (hjoin : ∀ z, (s.run z).token = some x → (s.run z).joiner ≠ none ∧ Finished (s.run z) ∧
      (change (s.occurrence x)).outcome = some none) : Sound (s.mark x change) := by
  -- only the outcome and the completion of `x` move
  have hsame : ∀ y, ((s.mark x change).occurrence y).cleanup = (s.occurrence y).cleanup ∧
      ((s.mark x change).occurrence y).author = (s.occurrence y).author ∧
      ((s.mark x change).occurrence y).claimant = (s.occurrence y).claimant :=
    forall_mark (P := fun y o => o.cleanup = (s.occurrence y).cleanup ∧
      o.author = (s.occurrence y).author ∧ o.claimant = (s.occurrence y).claimant)
      (fun _ => ⟨rfl, rfl, rfl⟩) ⟨hcleanup, hauthor, hclaimant⟩
  have hsettled : ∀ y, Settled (s.occurrence y) → Settled ((s.mark x change).occurrence y) :=
    forall_mark (P := fun y o => Settled (s.occurrence y) → Settled o) (fun _ => id)
      fun _ _ => hout
  refine { h with
    uncommitted := fun y hy => ?uncommitted
    registered := fun y c => ?registered
    joins := fun y z => ?joins
    author := fun y z hy => ?author
    unclaimed := fun y hy => ?unclaimed
    claimed := fun y => (h.claimed y).imp_left (hsettled y)
    completed := ?completed
    joiner := fun z hz => ?joiner
    executed := fun z j out hj hout' => ?executed
    controlled := fun y c hc => ?controlled
    shut := fun z j hj hc hn => ?shut
    drained := fun z j y hj hc hy => ?drained
    free := fun hfree => ⟨(h.free hfree).1, fun y => hsettled y ((h.free hfree).2 y)⟩
    registrations := fun y hy => ?registrations }
  case uncommitted =>
    rw [occurrence_mark_of_ne (Nat.ne_of_gt (Nat.lt_of_le_of_lt (h.committed hclaimed) hy))]
    exact h.uncommitted y hy
  case registered =>
    rw [(hsame y).1, (hsame y).2.2]
    exact h.registered y c
  case joins =>
    rw [(hsame y).1]
    exact h.joins y z
  case author =>
    rw [(hsame y).2.1] at hy
    rw [(hsame y).1]
    exact h.author y z hy
  case unclaimed =>
    rw [(hsame y).2.2] at hy
    by_cases heq : y = x
    · subst heq
      exact absurd hy hclaimed
    · rw [occurrence_mark_of_ne heq]
      exact h.unclaimed y hy
  case completed =>
    exact forall_mark (P := fun _ o => o.completed = true → o.outcome ≠ none) h.completed
      fun _ => hout
  case joiner =>
    rcases h.joiner z hz with ⟨j, hj, hc⟩
    refine ⟨j, hj, ?_⟩
    rw [(hsame j).2.2]
    exact hc
  case executed =>
    -- a join carries no panic: that of the task is contained in it
    by_cases heq : j = x
    · subst heq
      have hdone := hjoin z hj
      rw [occurrence_mark_self, hdone.2.2] at hout'
      exact ⟨hdone.1, hdone.2.1, (Option.some.inj hout').symm⟩
    · rw [occurrence_mark_of_ne heq] at hout'
      exact h.executed z j out hj hout'
  case controlled =>
    rw [(hsame y).2.2] at hc
    rcases h.controlled y c hc with rfl | ⟨control, hy, hclaims⟩
    · exact .inl rfl
    · exact .inr ⟨control, (hsame y).1.trans hy, hclaims⟩
  case shut =>
    rw [(hsame j).2.2] at hc
    exact h.shut z j hj hc hn
  case drained =>
    rw [(hsame j).2.2] at hc
    rw [(hsame y).2.1] at hy
    rw [(hsame y).2.2]
    exact ⟨(h.drained z j y hj hc hy).1, hsettled y (h.drained z j y hj hc hy).2⟩
  case registrations =>
    rw [(hsame y.1).1]
    exact h.registrations y hy

theorem keeps_mark {change : Occurrence → Occurrence}
    (hcleanup : (change (s.occurrence x)).cleanup = (s.occurrence x).cleanup)
    (hclaimant : (change (s.occurrence x)).claimant = (s.occurrence x).claimant)
    (hout : (s.occurrence x).outcome ≠ none → (change (s.occurrence x)).outcome ≠ none)
    (hunsent : ∀ z, (s.run z).joiner = some t → (s.run z).token = some x →
      (change (s.occurrence x)).outcome = (s.occurrence x).outcome) : Keeps t s (s.mark x change) := by
  have hclaims : ∀ y, ((s.mark x change).occurrence y).claimant = (s.occurrence y).claimant :=
    forall_mark (P := fun y o => o.claimant = (s.occurrence y).claimant) (fun _ => rfl) hclaimant
  refine { Keeps.refl t s with
    cleanup := fun y c hc => ?_
    claimant := fun y c hc => ?_
    outcome := forall_mark (P := fun y o => (s.occurrence y).outcome ≠ none → o.outcome ≠ none)
      (fun _ => id) hout
    unsent := fun z j hz hj => ?_
    held := fun _ => { Held.refl s with claims := fun y => by rw [hclaims y] } }
  · by_cases heq : y = x
    · subst heq
      rw [occurrence_mark_self, hcleanup]
      exact hc
    · rw [occurrence_mark_of_ne heq]
      exact hc
  · rw [hclaims y]
    exact hc
  · by_cases heq : j = x
    · subst heq
      rw [occurrence_mark_self]
      exact hunsent z hz hj
    · rw [occurrence_mark_of_ne heq]

/-! ## The passes -/

/-- The generation is closed, or nothing is left of the drain. -/
theorem Sound.lifecycle (h : Sound s) {alive disposing replacing : Bool} {state : FiberState}
    (hadmits : (s.admits = false → { s with
        alive := alive, disposing := disposing, generationReplacing := replacing,
        state := state }.admits = false) ∨ Quiet s) :
    Sound { s with
      alive := alive, disposing := disposing, generationReplacing := replacing, state := state } :=
  { h with
    shut := fun z j hj hc hn => by
      rcases hadmits with hclosed | hquiet
      · exact hclosed (h.shut z j hj hc hn)
      · rcases Option.ne_none_iff_exists'.mp (hquiet j (h.exclusive hj hc)) with ⟨out, hout⟩
        rcases (h.executed z j out hj hout).2.1.2 with ⟨o, ho, -⟩
        exact absurd ho (hn o) }

/-- Only the two states between which a generation lives admit. -/
theorem admits_of_state (h : s.state ≠ .loading) (h' : s.state ≠ .active) : s.admits = false := by
  unfold Fiber.admits
  cases hstate : s.state <;> simp_all

theorem admits_markReplacing : { s with generationReplacing := true }.admits = false := by
  simp [Fiber.admits]

/-! ## What every operation preserves -/

section Preserved

variable {u : Party} {c : Choice}

theorem sound_exec {op : Op} {ret : op.Ret} (hs : Sound s) (hdue : Due p op s)
    (hexec : exec p u c op s = some (s', ret)) : Sound s' := by
  have h := hdue.entitled
  cases op with
  | call =>
      cases hexec
      exact sound_call hs
  | push cleanup author =>
      -- a refused cleanup leaves the fiber as it was
      have heq : s' = (s.push cleanup author c.refuses).1 :=
        (congrArg Prod.fst (Option.some.inj hexec)).symm
      subst heq
      by_cases ha : s.accepts cleanup c.refuses = true
      · exact sound_pushed hs (pushed_push _ _ hs ha).1 h.1 h.2 (admits_of_accepts ha)
      · rw [push_refused (Bool.eq_false_iff.mpr ha)]
        exact hs
  | spawn r =>
      cases hexec
      exact sound_spawn hs h.1 h.2.1 h.2.2
  | park r =>
      cases hexec
      exact sound_park hs h.1 h.2.1 h.2.2
  | notifyWaiters r =>
      cases hexec
      exact sound_notifyWaiters hs h.1 h.2
  | answer r result =>
      cases hexec
      exact sound_answer hs h.1 h.2.1 h.2.2
  | ended r outcome =>
      cases hexec
      exact sound_ended hs h.1 h.2
  | notified r =>
      cases hexec
      exact sound_notified hs h
  | takeSlot r =>
      cases hexec
      exact sound_takeSlot hs h
  | awaitParked r =>
      simp only [exec] at hexec
      split at hexec
      · cases hexec
        exact sound_awaitParked hs h.1
      · cases hexec
  | join r =>
      simp only [exec] at hexec
      split at hexec
      · cases hexec
        exact hs
      · cases hexec
  | reportPanic r =>
      cases hexec
      exact sound_reportPanic hs h.1 h.2
  | removeDisposable x claimant =>
      -- an occurrence that another party claimed stays as it is
      have heq : s' = (s.removeDisposable x claimant).1 :=
        (congrArg Prod.fst (Option.some.inj hexec)).symm
      subst heq
      cases hout : (s.removeDisposable x claimant).2 with
      | none =>
          rw [(removeDisposable_none hout).2]
          exact hs
      | some cleanup =>
          rw [(removeDisposable_some hout).2]
          exact sound_claim hs (removeDisposable_some hout).1 (mayClaim h)
  | setDrainCleanup x =>
      cases hexec
      exact sound_setDrainCleanup hs h.1 h.2
  | detach x cleanup drains =>
      cases hexec
      exact sound_detach hs h
  | send x out =>
      cases hexec
      -- who executes a join sends its outcome once the task is over
      refine hs.mark rfl rfl rfl h.1 nofun fun z hz => ?_
      rcases h.2 z hz with ⟨hjoiner, hfinished, rfl⟩
      refine ⟨?_, hfinished, rfl⟩
      rw [hjoiner]
      nofun
  | complete x =>
      cases hexec
      -- the outcome has been sent, so the completion adds nothing
      refine hs.mark rfl rfl rfl (fun hnone => h (hs.unclaimed x hnone)) h fun z hz => ?_
      cases hout : (s.occurrence x).outcome with
      | none => exact absurd hout h
      | some out =>
          have hdone := hs.executed z x out hz hout
          exact ⟨hdone.1, hdone.2.1, congrArg some hdone.2.2⟩
  | outcome x =>
      simp only [exec, Option.map_eq_some_iff] at hexec
      rcases hexec with ⟨out, -, heq⟩
      cases heq
      exact hs
  | waitCompleted x =>
      simp only [exec] at hexec
      split at hexec
      · cases hexec
        exact hs
      · cases hexec
  | setDraining draining =>
      cases hexec
      exact { hs with }
  | claimSlot =>
      simp only [exec] at hexec
      split at hexec
      · cases hexec
        exact { hs with free := nofun }
      · cases hexec
  | abandon =>
      cases hexec
      exact { hs with free := fun _ => h.2 }
  | transition next =>
      cases hexec
      refine hs.lifecycle ?_
      -- only the two open states let the gate admit a registration
      by_cases hopen : next = .loading ∨ next = .active
      · exact .inr (h.2 hopen)
      · rw [not_or] at hopen
        exact .inl fun _ => admits_of_state hopen.1 hopen.2
  | reopen =>
      cases hexec
      exact hs.lifecycle (.inr h.2)
  | kill =>
      cases hexec
      exact hs.lifecycle (.inl fun _ => rfl)
  | claimTerminal =>
      cases hexec
      exact hs.lifecycle (.inl fun _ => by simp [Fiber.admits])
  | markReplacing =>
      cases hexec
      exact hs.lifecycle (.inl fun _ => admits_markReplacing)
  | assertCanRegister | tryCurrent | decide | invoke | reportFailure | drainCleanup | tokens
  | isAlive | state | hasMissing | awaitsFirstApply | apply | unregister | removeExact =>
      cases hexec
      exact hs

/-- Whoever changes the lifecycle holds the slot. -/
theorem keeps_lifecycle {alive disposing replacing : Bool} {state : FiberState}
    (hslot : s.slot = some p) (ht : t ≠ p) : Keeps t s { s with
      alive := alive, disposing := disposing, generationReplacing := replacing, state := state } :=
  { Keeps.refl t s with
    held := fun hslot' => absurd (Option.some.inj (hslot'.symm.trans hslot)) ht }

theorem exec_keeps {op : Op} {ret : op.Ret} (hs : Sound s) (hdue : Due p op s)
    (hexec : exec p u c op s = some (s', ret)) (ht : t ≠ p) (hfork : forks op ≠ none → t ≠ u) :
    Keeps t s s' := by
  have h := hdue.entitled
  cases op with
  | call =>
      cases hexec
      exact keeps_call hs ht
  | push cleanup author =>
      have heq : s' = (s.push cleanup author c.refuses).1 :=
        (congrArg Prod.fst (Option.some.inj hexec)).symm
      subst heq
      by_cases ha : s.accepts cleanup c.refuses = true
      · exact keeps_pushed hs (pushed_push _ _ hs ha).1 h.2 (admits_of_accepts ha) ht
      · rw [push_refused (Bool.eq_false_iff.mpr ha)]
        exact .refl t s
  | spawn r =>
      cases hexec
      exact keeps_spawn hs h.1 h.2.2 ht (hfork nofun)
  | park r =>
      cases hexec
      exact keeps_park h.1 h.2.2 ht
  | notifyWaiters r =>
      cases hexec
      exact keeps_notifyWaiters h.1 ht
  | answer r result =>
      cases hexec
      exact keeps_answer h.1 ht
  | ended r outcome =>
      cases hexec
      exact keeps_ended h.1 h.2 ht
  | notified r =>
      cases hexec
      exact keeps_futures (m := fun n => n.notified p) (Notify.notified_of_ne ht)
  | takeSlot r =>
      cases hexec
      exact keeps_takeSlot h ht
  | awaitParked r =>
      simp only [exec] at hexec
      split at hexec
      · cases hexec
        exact keeps_futures (m := fun n => n.discard p) (Notify.discard_of_ne ht)
      · cases hexec
  | join r =>
      simp only [exec] at hexec
      split at hexec
      · cases hexec
        exact .refl t s
      · cases hexec
  | reportPanic r =>
      cases hexec
      exact keeps_reportPanic h.1 ht
  | removeDisposable x claimant =>
      have heq : s' = (s.removeDisposable x claimant).1 :=
        (congrArg Prod.fst (Option.some.inj hexec)).symm
      subst heq
      cases hout : (s.removeDisposable x claimant).2 with
      | none =>
          rw [(removeDisposable_none hout).2]
          exact .refl t s
      | some cleanup =>
          rw [(removeDisposable_some hout).2]
          exact keeps_claim hs (removeDisposable_some hout).1 h ht
  | setDrainCleanup x =>
      cases hexec
      exact { Keeps.refl t s with
        held := fun hslot => absurd (Option.some.inj (hslot.symm.trans h.1)) ht }
  | detach x cleanup drains =>
      cases hexec
      exact keeps_detach h ht (hfork nofun)
  | send x out =>
      cases hexec
      -- the outcome of a join is sent by its joiner alone
      refine keeps_mark rfl rfl (fun _ => nofun) fun z hz hj => ?_
      exact absurd (Option.some.inj (hz.symm.trans (h.2 z hj).1)) ht
  | complete x =>
      cases hexec
      exact keeps_mark rfl rfl id fun _ _ _ => rfl
  | outcome x =>
      simp only [exec, Option.map_eq_some_iff] at hexec
      rcases hexec with ⟨out, -, heq⟩
      cases heq
      exact .refl t s
  | waitCompleted x =>
      simp only [exec] at hexec
      split at hexec
      · cases hexec
        exact .refl t s
      · cases hexec
  | setDraining draining =>
      cases hexec
      exact { Keeps.refl t s with held := fun _ => { Held.refl s with } }
  | claimSlot =>
      simp only [exec] at hexec
      split at hexec
      -- a free slot was not the other's, and it does not become the other's
      · rename_i hfree
        cases hexec
        refine { Keeps.refl t s with slot := ?_, held := fun hslot => ?_ }
        · rw [hfree]
          exact ⟨fun heq => absurd (Option.some.inj heq).symm ht, nofun⟩
        · cases hfree.symm.trans hslot
      · cases hexec
  | abandon =>
      cases hexec
      -- the one who gives the slot up is the one who holds it
      have hne : ¬ s.slot = some t := fun hslot => ht (Option.some.inj (hslot.symm.trans h.1))
      exact { Keeps.refl t s with
        slot := ⟨nofun, fun hslot => absurd hslot hne⟩
        held := fun hslot => absurd hslot hne }
  | transition next =>
      cases hexec
      exact keeps_lifecycle h.1 ht
  | reopen =>
      cases hexec
      exact keeps_lifecycle h.1 ht
  | kill =>
      cases hexec
      exact keeps_lifecycle h ht
  | claimTerminal =>
      cases hexec
      exact keeps_lifecycle h ht
  | markReplacing =>
      cases hexec
      exact { Keeps.refl t s with
        held := fun _ => { Held.refl s with gate := fun _ => admits_markReplacing } }
  | assertCanRegister | tryCurrent | decide | invoke | reportFailure | drainCleanup | tokens
  | isAlive | state | hasMissing | awaitsFirstApply | apply | unregister | removeExact =>
      cases hexec
      exact .refl t s

end Preserved

end Tasks
end CordisCore
