import CordisCore.Slot.Recheck

/-!
# Verdicts — the callers of the exit recheck, and what holds in every run
-/

namespace CordisCore
namespace Slot

open Interleaving
open CordisCore.Runtime (SemanticTarget)

variable {p : Party} {s : InertiaSlot}

/-! ## Taking and giving back the slot -/

theorem wp_claimOnce (h : ¬ Holds p s) : rechecking.wp p (perform .claim)
    (fun won s' => (won = true → Owns p s') ∧ (won = false → ¬ Holds p s')) s := by
  refine wp_op (by simp) rfl (fun _ _ _ => trivial) fun s' q c s'' r hl _ _ hexec => ?_
  have h' := (steady_not_holds p).rely hl h
  simp only [exec] at hexec
  split at hexec
  · cases hexec
    exact ⟨fun _ => ⟨rfl, rfl⟩, by simp⟩
  · cases hexec
    exact ⟨by simp, fun _ => h'⟩

theorem wp_claim (h : ¬ Holds p s) :
    rechecking.wp p claim (fun _ s' => Owns p s') s := by
  refine rechecking.wp_iterate (fun _ s' => ¬ Holds p s') h fun _ s₁ hs₁ h₁ => ?_
  refine rechecking.wp_seq hs₁ (wp_quiet (steady_not_holds p) rfl rfl (fun _ => trivial) h₁) ?_
  intro _ s₂ hs₂ h₂
  refine rechecking.wp_seq hs₂ (wp_claimOnce h₂) fun won s₃ hs₃ h₃ => ?_
  cases won with
  | true =>
      exact rechecking.wp_seq hs₃
        (wp_quiet (steady_owns p) rfl rfl (fun _ => trivial) (h₃.1 rfl)) fun _ _ _ h => h
  | false => exact rechecking.wp_seq hs₃ (wp_await (h₃.2 rfl)) fun _ _ _ h => h

/-- The exchange by which a kick or the initial pass takes the idle slot. -/
theorem wp_tryClaim (h : ¬ Holds p s) :
    rechecking.wp p (perform (.compareExchange INERTIA_IDLE INERTIA_ACTIVE)) (fun r s' =>
      match r with
      | .ok _ => Owns p s'
      | .error _ => ¬ Holds p s') s := by
  refine wp_op nofun rfl (fun _ _ _ => .inl ⟨rfl, rfl⟩) fun s' q c s'' r hl _ _ hexec => ?_
  have h' := (steady_not_holds p).rely hl h
  have hout : s'.compareExchange p INERTIA_IDLE INERTIA_ACTIVE = (s'', r) := Option.some.inj hexec
  unfold InertiaSlot.compareExchange at hout
  split at hout
  · cases hout
    exact ⟨rfl, rfl⟩
  · cases hout
    exact h'

theorem wp_claimInitial (hs : Sound s) (h : ¬ Holds p s) :
    rechecking.wp p claimInitial (fun _ s' => Owns p s') s := by
  refine rechecking.wp_seq hs (wp_tryClaim h) fun r s₁ hs₁ h₁ => ?_
  cases r with
  | ok word => exact h₁
  | error word => exact wp_claim h₁

theorem wp_abandon (hs : Sound s) (h : Holds p s) :
    rechecking.wp p abandon (fun _ s' => ¬ Holds p s') s := by
  have hstore : rechecking.wp p (perform .abandon) (fun _ s' => ¬ Holds p s') s := by
    refine wp_op nofun rfl (fun s' hl _ => hl.holder.mpr h) fun s' q c s'' r hl _ _ hexec => ?_
    cases hexec
    nofun
  refine rechecking.wp_seq hs hstore fun _ s₁ _ h₁ => ?_
  exact wp_quiet (steady_not_holds p) rfl rfl (fun _ => trivial) h₁

/-! ## Writing the target -/

theorem wp_recordTarget {target : SemanticTarget} {revision : Nat} (h : Owns p s)
    (hrev : revision ≤ s.recheckCommitted) : rechecking.wp p (perform (.recordTarget target))
      (fun _ s' => Aims p s' ∧ revision ≤ s'.recheckCommitted) s := by
  refine wp_op nofun rfl (fun s' hl _ => hl.holder.mpr h.1) fun s' q c s'' r hl _ _ hexec => ?_
  have h' := (steady_owns p).rely hl h
  have hrev' := Nat.le_trans hrev hl.committed
  cases hexec
  exact ⟨⟨h'.1, h'.2, nofun⟩, hrev'⟩

theorem wp_markPending {target : SemanticTarget} {revision : Nat} (h : Owns p s)
    (hrev : revision ≤ s.recheckCommitted) :
    rechecking.wp p (perform (.markPendingIfUntouched target))
      (fun _ s' => Owns p s' ∧ revision ≤ s'.recheckCommitted) s := by
  refine wp_op nofun rfl (fun s' hl _ => hl.holder.mpr h.1) fun s' q c s'' r hl _ _ hexec => ?_
  have h' := (steady_owns p).rely hl h
  have hrev' := Nat.le_trans hrev hl.committed
  cases hexec
  exact ⟨h', hrev'⟩

theorem wp_pinInactive (h : Owns p s) :
    rechecking.wp p (perform .pinInactive) (fun _ s' => Owns p s') s := by
  refine wp_op nofun rfl (fun s' hl _ => hl.holder.mpr h.1) fun s' q c s'' r hl _ _ hexec => ?_
  have h' := (steady_owns p).rely hl h
  cases hexec
  exact h'

/-- The holder's own read of the target cell. -/
theorem wp_readTarget {D : InertiaSlot → Prop} (hD : Steady p D) (h : D s) :
    rechecking.wp p (perform .readTarget) (fun r s' => D s' ∧ r = s'.target) s := by
  refine wp_op nofun rfl (fun _ _ _ => trivial) fun s' q c s'' r hl _ _ hexec => ?_
  have h' := hD.rely hl h
  cases hexec
  exact ⟨h', rfl⟩

/-- The convergence task takes the slot over from its kick. -/
theorem wp_fork (h : Aims p s) :
    rechecking.wp p (perform (.fork .convergencePass)) (fun _ s' => ¬ Holds p s') s := by
  refine rechecking.wp_perform fun s' hl hs' => ?_
  have h' := (steady_aims p).rely hl h
  refine ⟨⟨rfl, h'⟩, ?_, nofun⟩
  refine Logic.Performs.of_fork rfl fun q c s'' r _ _ hexec hqp hblank => ?_
  cases hexec
  have hq : (s'.track fun trace => { trace with holder := some q }).trace.holder = some q := rfl
  refine ⟨⟨⟨fun hidle => absurd hidle (hs'.not_idle h'.1), nofun⟩, hs'.word, hs'.settled⟩, ?_, ?_, ?_⟩
  · intro t htp htq
    exact .of_not_holds (h'.1.ne htp) (fun ht => htq (Option.some.inj ht).symm) rfl
      (Nat.le_refl _) (Nat.le_refl _)
  · exact ⟨hq, h'.2.1, h'.2.2⟩
  · exact fun hp => hqp (Option.some.inj hp)

/-! ## Waiting -/

theorem wp_waitIdle (h : ¬ Holds p s) :
    rechecking.wp p waitIdle (fun _ s' => ¬ Holds p s') s := by
  have hD := steady_not_holds p
  refine rechecking.wp_iterate (fun _ s' => ¬ Holds p s') h fun _ s₁ hs₁ h₁ => ?_
  refine rechecking.wp_seq hs₁ (wp_quiet hD rfl rfl (fun _ => trivial) h₁) fun _ s₂ hs₂ h₂ => ?_
  refine rechecking.wp_seq hs₂ (wp_quiet hD rfl rfl (fun _ => trivial) h₂) fun word s₃ hs₃ h₃ => ?_
  split
  · exact rechecking.wp_seq hs₃ (wp_quiet hD rfl rfl (fun _ => trivial) h₃) fun _ _ _ h => h
  · exact rechecking.wp_seq hs₃ (wp_await h₃) fun _ _ _ h => h

theorem wp_waitDisposeComplete (h : ¬ Holds p s) :
    rechecking.wp p waitDisposeComplete (fun _ s' => ¬ Holds p s') s := by
  have hD := steady_not_holds p
  refine rechecking.wp_iterate (fun _ s' => ¬ Holds p s') h fun _ s₁ hs₁ h₁ => ?_
  refine rechecking.wp_seq hs₁ (wp_quiet hD rfl rfl (fun _ => trivial) h₁) fun _ s₂ hs₂ h₂ => ?_
  refine rechecking.wp_seq hs₂ (wp_quiet hD rfl rfl (fun _ => trivial) h₂) fun r s₃ hs₃ h₃ => ?_
  cases r with
  | true => exact rechecking.wp_seq hs₃ (wp_quiet hD rfl rfl (fun _ => trivial) h₃) fun _ _ _ h => h
  | false => exact rechecking.wp_seq hs₃ (wp_await h₃) fun _ _ _ h => h

/-! ## Kicks -/

theorem wp_kickClaimed (hs : Sound s) (h : Owns p s) :
    rechecking.wp p kickClaimed (fun _ s' => ¬ Holds p s') s := by
  refine rechecking.wp_seq hs (wp_recheckRevision (steady_owns p) h) fun revision s₁ hs₁ h₁ => ?_
  refine rechecking.wp_seq hs₁
    (wp_readTarget ((steady_owns p).and (steady_revision p revision)) h₁) fun r s₂ hs₂ h₂ => ?_
  cases r with
  | some settled =>
      refine rechecking.wp_seq hs₂ (wp_exitRecheck hs₂ h₂.1.1.1 h₂.1.2) fun kept s₃ hs₃ h₃ => ?_
      cases kept with
      | true => exact wp_fork (h₃.1 rfl)
      | false => exact h₃.2 rfl
  | none =>
      refine rechecking.wp_seq hs₂
        (wp_quiet (steady_owns p) rfl rfl (fun _ => trivial) h₂.1.1) fun live s₃ hs₃ h₃ => ?_
      refine rechecking.wp_seq hs₃ (wp_recordTarget h₃ (Nat.zero_le _)) fun _ s₄ hs₄ h₄ => ?_
      exact wp_fork h₄.1

/-- A kick takes back the releasing slot for its holder. -/
theorem wp_reclaim (h : ¬ Holds p s) :
    rechecking.wp p (perform (.compareExchange INERTIA_RELEASING INERTIA_ACTIVE))
      (fun _ s' => ¬ Holds p s') s := by
  refine wp_op nofun rfl (fun _ _ _ => .inr (.inl ⟨rfl, rfl⟩)) fun s' q c s'' r hl _ _ hexec => ?_
  have h' := (steady_not_holds p).rely hl h
  have hout : s'.compareExchange p INERTIA_RELEASING INERTIA_ACTIVE = (s'', r) :=
    Option.some.inj hexec
  unfold InertiaSlot.compareExchange at hout
  split at hout <;> (cases hout; exact h')

theorem wp_kickOnce (hs : Sound s) (h : ¬ Holds p s) :
    rechecking.wp p kickOnce (fun _ s' => ¬ Holds p s') s := by
  have hD := steady_not_holds p
  have hload : rechecking.wp p (perform .load)
      (fun word s' => word ≤ INERTIA_RELEASING ∧ ¬ Holds p s') s := by
    refine wp_op nofun rfl (fun _ _ _ => trivial) fun s' q c s'' r hl hs' _ hexec => ?_
    have h' := hD.rely hl h
    cases hexec
    exact ⟨hs'.word, h'⟩
  refine rechecking.wp_seq hs hload fun word s₁ hs₁ h₁ => ?_
  split
  · exact h₁.2
  · rename_i hactive
    split
    · refine rechecking.wp_seq hs₁ (wp_reclaim h₁.2) fun r s₂ hs₂ h₂ => ?_
      cases r <;> exact h₂
    · rename_i hreleasing
      split
      · refine rechecking.wp_seq hs₁ (wp_quiet hD rfl rfl (fun _ => trivial) h₁.2) ?_
        intro current s₂ hs₂ h₂
        cases current with
        | false => exact h₂
        | true =>
            refine rechecking.wp_seq hs₂ (wp_tryClaim h₂) fun r s₃ hs₃ h₃ => ?_
            cases r with
            | error word => exact h₃
            | ok word => exact rechecking.wp_seq hs₃ (wp_kickClaimed hs₃ h₃) fun _ _ _ h => h
      · rename_i hidle
        -- no other word is ever written
        have hwords : ∀ n : Nat, n ≤ 2 → n = 0 ∨ n = 1 ∨ n = 2 := by omega
        rcases hwords word h₁.1 with h0 | h1 | h2
        · exact absurd h0 hidle
        · exact absurd h1 hactive
        · exact absurd h2 hreleasing

theorem wp_kick (hs : Sound s) (h : ¬ Holds p s) :
    rechecking.wp p kick (fun _ s' => ¬ Holds p s') s := by
  have hD := steady_not_holds p
  refine rechecking.wp_seq hs (wp_quiet hD rfl rfl (fun _ => trivial) h) fun alive s₁ hs₁ h₁ => ?_
  cases alive with
  | false => exact h₁
  | true =>
      refine rechecking.wp_seq hs₁ (wp_quiet hD rfl rfl (fun _ => trivial) h₁) ?_
      intro committed s₂ hs₂ h₂
      refine rechecking.wp_seq hs₂ (wp_quiet hD rfl rfl (fun _ => trivial) h₂) ?_
      intro settled s₃ hs₃ h₃
      split
      · refine rechecking.wp_iterate (fun _ s' => ¬ Holds p s') h₃ fun _ s₄ hs₄ h₄ => ?_
        refine rechecking.wp_mono hs₄ (wp_kickOnce hs₄ h₄) fun o s₅ _ h₅ => ?_
        cases o <;> exact h₅
      · exact h₃

/-! ## Passes -/

theorem wp_publishDisposeComplete {D : InertiaSlot → Prop} (hD : Steady p D) (hs : Sound s)
    (h : D s) : rechecking.wp p publishDisposeComplete (fun _ s' => D s') s := by
  refine rechecking.wp_seq hs (wp_quiet hD rfl rfl (fun _ => trivial) h) fun _ s₁ _ h₁ => ?_
  exact wp_quiet hD rfl rfl (fun _ => trivial) h₁

theorem wp_initialRound (hs : Sound s) (h : Owns p s) : rechecking.wp p initialRound (fun o s' =>
    match o with
    | .inl _ => Owns p s'
    | .inr outcome => (outcome.released = true → ¬ Holds p s') ∧
        (outcome.released = false → Owns p s')) s := by
  refine rechecking.wp_seq hs (wp_recheckRevision (steady_owns p) h) fun revision s₁ hs₁ h₁ => ?_
  have hD := (steady_owns p).and (steady_revision p revision)
  refine rechecking.wp_seq hs₁ (wp_quiet hD rfl rfl (fun _ => trivial) h₁) ?_
  intro target s₂ hs₂ h₂
  split
  · refine rechecking.wp_seq hs₂ (wp_markPending h₂.1 h₂.2) fun _ s₃ hs₃ h₃ => ?_
    refine rechecking.wp_seq hs₃ (wp_exitRecheck hs₃ h₃.1.1 h₃.2) fun kept s₄ hs₄ h₄ => ?_
    cases kept with
    | true => exact ⟨(h₄.1 rfl).1, (h₄.1 rfl).2.1⟩
    | false => exact ⟨fun _ => h₄.2 rfl, nofun⟩
  · refine rechecking.wp_seq hs₂ (wp_recordTarget h₂.1 h₂.2) fun _ s₃ hs₃ h₃ => ?_
    have hD₃ := (steady_aims p).and (steady_revision p revision)
    refine rechecking.wp_seq hs₃ (wp_quiet hD₃ rfl rfl (fun _ => trivial) h₃) ?_
    intro failed s₄ hs₄ h₄
    have howns : Owns p s₄ := ⟨h₄.1.1, h₄.1.2.1⟩
    cases failed with
    | true =>
        have hteardown : rechecking.wp p creationTeardown (fun _ s' => Owns p s') s₄ :=
          rechecking.wp_seq hs₄ (wp_pinInactive howns) fun _ s₅ hs₅ h₅ =>
            wp_publishDisposeComplete (steady_owns p) hs₅ h₅
        exact rechecking.wp_seq hs₄ hteardown fun _ _ _ h => ⟨nofun, fun _ => h⟩
    | false =>
        refine rechecking.wp_seq hs₄ (wp_exitRecheck hs₄ howns.1 h₄.2) fun kept s₅ hs₅ h₅ => ?_
        cases kept with
        | true => exact ⟨(h₅.1 rfl).1, (h₅.1 rfl).2.1⟩
        | false => exact ⟨fun _ => h₅.2 rfl, nofun⟩

/-- The tail gives back only what the pass still holds. -/
theorem wp_releaseInitial {released : Bool} (hs : Sound s)
    (h : (released = true → ¬ Holds p s) ∧ (released = false → Owns p s)) :
    rechecking.wp p (releaseInitial released) (fun _ s' => ¬ Holds p s') s := by
  have hprobe : rechecking.wp p (perform (.probeIdle released)) (fun idle s' =>
      (idle = true → ¬ Holds p s') ∧ (idle = false → Holds p s')) s := by
    refine wp_op nofun rfl (fun _ _ _ => trivial) fun s' q c s'' r hl hs' hok hexec => ?_
    cases hexec
    cases released with
    | true =>
        have hidle := hok () rfl
        refine ⟨fun _ => (steady_not_holds p).rely hl (h.1 rfl), fun hbusy => ?_⟩
        rw [decide_eq_false_iff_not] at hbusy
        exact absurd hidle hbusy
    | false =>
        have howns := (steady_owns p).rely hl (h.2 rfl)
        refine ⟨fun hidle => ?_, fun _ => howns.1⟩
        rw [decide_eq_true_eq] at hidle
        exact absurd hidle (hs'.not_idle howns.1)
  refine rechecking.wp_seq hs hprobe fun idle s₁ hs₁ h₁ => ?_
  cases idle with
  | true => exact h₁.1 rfl
  | false => exact wp_abandon hs₁ (h₁.2 rfl)

theorem wp_initialSpawnPass (hs : Sound s) (h : ¬ Holds p s) :
    rechecking.wp p initialSpawnPass (fun _ s' => ¬ Holds p s') s := by
  refine rechecking.wp_seq hs (wp_claimInitial hs h) fun _ s₁ hs₁ h₁ => ?_
  refine rechecking.wp_seq hs₁ (wp_quiet (steady_owns p) rfl rfl (fun _ => trivial) h₁) ?_
  intro alive s₂ hs₂ h₂
  cases alive with
  | false => exact wp_abandon hs₂ h₂.1
  | true =>
      have hrounds : rechecking.wp p (Program.iterate () fun _ => initialRound)
          (fun outcome s' => (outcome.released = true → ¬ Holds p s') ∧
            (outcome.released = false → Owns p s')) s₂ := by
        refine rechecking.wp_iterate (fun _ s' => Owns p s') h₂ fun _ s₃ hs₃ h₃ => ?_
        refine rechecking.wp_mono hs₃ (wp_initialRound hs₃ h₃) fun o s₄ _ h₄ => ?_
        cases o <;> exact h₄
      exact rechecking.wp_seq hs₂ hrounds fun outcome s₃ hs₃ h₃ => wp_releaseInitial hs₃ h₃

theorem wp_convergencePass (h : Aims p s) :
    rechecking.wp p convergencePass (fun _ s' => ¬ Holds p s') s := by
  refine rechecking.wp_iterate (fun _ s' => Aims p s') h fun _ s₁ hs₁ h₁ => ?_
  refine rechecking.wp_seq hs₁ (wp_recheckRevision (steady_aims p) h₁) fun revision s₂ hs₂ h₂ => ?_
  have hD := (steady_aims p).and (steady_revision p revision)
  refine rechecking.wp_seq hs₂ (wp_readTarget hD h₂) fun r s₃ hs₃ h₃ => ?_
  cases r with
  | none => exact absurd h₃.2.symm h₃.1.1.2.2
  | some target =>
      refine rechecking.wp_seq hs₃ (wp_quiet hD rfl rfl (fun _ => trivial) h₃.1) ?_
      intro live s₄ hs₄ h₄
      have howns : Owns p s₄ := ⟨h₄.1.1, h₄.1.2.1⟩
      split
      · exact rechecking.wp_seq hs₄ (wp_recordTarget howns h₄.2) fun _ _ _ h => h.1
      · refine rechecking.wp_seq hs₄ (wp_exitRecheck hs₄ howns.1 h₄.2) fun kept s₅ hs₅ h₅ => ?_
        cases kept with
        | true => exact h₅.1 rfl
        | false => exact h₅.2 rfl

theorem wp_replacementCommitted {target : SemanticTarget} {revision : Nat} (h : Owns p s)
    (hrev : revision ≤ s.recheckCommitted) :
    rechecking.wp p (replacementCommitted target revision) (fun _ s' => ¬ Holds p s') s := by
  refine rechecking.wp_iterate (fun round s' => Owns p s' ∧ round.2 ≤ s'.recheckCommitted)
    ⟨h, hrev⟩ ?_
  rintro ⟨target, revision⟩ s₁ hs₁ h₁
  refine rechecking.wp_seq hs₁ (wp_exitRecheck hs₁ h₁.1.1 h₁.2) fun kept s₂ hs₂ h₂ => ?_
  cases kept with
  | false => exact h₂.2 rfl
  | true =>
      have howns : Owns p s₂ := ⟨(h₂.1 rfl).1, (h₂.1 rfl).2.1⟩
      refine rechecking.wp_seq hs₂ (wp_recheckRevision (steady_owns p) howns) ?_
      intro revision s₃ hs₃ h₃
      have hD := (steady_owns p).and (steady_revision p revision)
      refine rechecking.wp_seq hs₃ (wp_quiet hD rfl rfl (fun _ => trivial) h₃) ?_
      intro target s₄ hs₄ h₄
      refine rechecking.wp_seq hs₄ (wp_recordTarget h₄.1 h₄.2) fun _ s₅ _ h₅ => ?_
      exact ⟨⟨h₅.1.1, h₅.1.2.1⟩, h₅.2⟩

theorem wp_replacementPass (hs : Sound s) (h : ¬ Holds p s) :
    rechecking.wp p replacementPass (fun _ s' => ¬ Holds p s') s := by
  refine rechecking.wp_seq hs (wp_claim h) fun _ s₁ hs₁ h₁ => ?_
  refine rechecking.wp_seq hs₁ (wp_quiet (steady_owns p) rfl rfl (fun _ => trivial) h₁) ?_
  intro alive s₂ hs₂ h₂
  cases alive with
  | false => exact wp_abandon hs₂ h₂.1
  | true =>
      refine rechecking.wp_seq hs₂ (wp_recheckRevision (steady_owns p) h₂) ?_
      intro revision s₃ hs₃ h₃
      have hD := (steady_owns p).and (steady_revision p revision)
      refine rechecking.wp_seq hs₃ (wp_quiet hD rfl rfl (fun _ => trivial) h₃) ?_
      intro target s₄ hs₄ h₄
      refine rechecking.wp_seq hs₄ (wp_recordTarget h₄.1 h₄.2) fun _ s₅ _ h₅ => ?_
      exact wp_replacementCommitted ⟨h₅.1.1, h₅.1.2.1⟩ h₅.2

theorem wp_completeClaimedDispose (hs : Sound s) (h : Owns p s) :
    rechecking.wp p completeClaimedDispose (fun _ s' => ¬ Holds p s') s := by
  refine rechecking.wp_seq hs (wp_pinInactive h) fun _ s₁ hs₁ h₁ => ?_
  refine rechecking.wp_seq hs₁ (wp_abandon hs₁ h₁.1) fun _ s₂ hs₂ h₂ => ?_
  exact wp_publishDisposeComplete (steady_not_holds p) hs₂ h₂

theorem wp_handoff (hs : Sound s) (h : ¬ Holds p s) :
    rechecking.wp p handoff (fun _ s' => ¬ Holds p s') s := by
  refine rechecking.wp_seq hs (wp_claim h) fun _ s₁ hs₁ h₁ => ?_
  refine rechecking.wp_seq hs₁ (wp_quiet (steady_owns p) rfl rfl (fun _ => trivial) h₁) ?_
  exact fun _ s₂ hs₂ h₂ => wp_abandon hs₂ h₂.1

theorem wp_dispose (hs : Sound s) (h : ¬ Holds p s) :
    rechecking.wp p dispose (fun _ s' => ¬ Holds p s') s := by
  have hD := steady_not_holds p
  have hO := steady_owns p
  refine rechecking.wp_seq hs (wp_quiet hD rfl rfl (fun _ => trivial) h) fun r s₁ hs₁ h₁ => ?_
  cases r with
  | true => exact h₁
  | false =>
      refine rechecking.wp_seq hs₁ (wp_claim h₁) fun _ s₂ hs₂ h₂ => ?_
      refine rechecking.wp_seq hs₂ (wp_quiet hO rfl rfl (fun _ => trivial) h₂) ?_
      intro complete s₃ hs₃ h₃
      cases complete with
      | true => exact wp_abandon hs₃ h₃.1
      | false =>
          refine rechecking.wp_seq hs₃ (wp_quiet hO rfl rfl (fun _ => trivial) h₃) ?_
          intro already s₄ hs₄ h₄
          cases already with
          | true =>
              exact rechecking.wp_seq hs₄ (wp_abandon hs₄ h₄.1) fun _ s₅ hs₅ h₅ =>
                wp_waitDisposeComplete h₅
          | false => exact wp_completeClaimedDispose hs₄ h₄

theorem wp_eraSwap (hs : Sound s) (h : ¬ Holds p s) :
    rechecking.wp p eraSwap (fun _ s' => ¬ Holds p s') s := by
  have hO := steady_owns p
  refine rechecking.wp_seq hs (wp_claim h) fun _ s₁ hs₁ h₁ => ?_
  refine rechecking.wp_seq hs₁ (wp_quiet hO rfl rfl (fun _ => trivial) h₁) fun alive s₂ hs₂ h₂ => ?_
  cases alive with
  | false => exact wp_abandon hs₂ h₂.1
  | true =>
      refine rechecking.wp_seq hs₂ (wp_quiet hO rfl rfl (fun _ => trivial) h₂) ?_
      intro refused s₃ hs₃ h₃
      cases refused with
      | true => exact wp_abandon hs₃ h₃.1
      | false =>
          refine rechecking.wp_seq hs₃ (wp_quiet hO rfl rfl (fun _ => trivial) h₃) ?_
          intro already s₄ hs₄ h₄
          cases already with
          | true => exact wp_abandon hs₄ h₄.1
          | false => exact wp_completeClaimedDispose hs₄ h₄

theorem wp_creationInterruptedTeardown (hs : Sound s) (h : ¬ Holds p s) :
    rechecking.wp p creationInterruptedTeardown (fun _ s' => ¬ Holds p s') s := by
  have hD := steady_not_holds p
  refine rechecking.wp_seq hs (wp_quiet hD rfl rfl (fun _ => trivial) h) fun r s₁ hs₁ h₁ => ?_
  cases r with
  | true => exact wp_waitDisposeComplete h₁
  | false =>
      refine rechecking.wp_seq hs₁ (wp_claim h₁) fun _ s₂ hs₂ h₂ => ?_
      refine rechecking.wp_seq hs₂ (wp_quiet (steady_owns p) rfl rfl (fun _ => trivial) h₂) ?_
      intro alive s₃ hs₃ h₃
      cases alive with
      | true => exact wp_completeClaimedDispose hs₃ h₃
      | false => exact wp_abandon hs₃ h₃.1

theorem wp_code {routine : Routine} (hs : Sound s) (h : entry routine p s) :
    rechecking.wp p (code routine) (fun _ s' => ¬ Holds p s') s := by
  cases routine with
  | convergencePass => exact wp_convergencePass h
  | initialSpawnPass => exact wp_initialSpawnPass hs h
  | replacementPass => exact wp_replacementPass hs h
  | handoff => exact wp_handoff hs h
  | dispose => exact wp_dispose hs h
  | eraSwap => exact wp_eraSwap hs h
  | creationInterruptedTeardown => exact wp_creationInterruptedTeardown hs h
  | publishDisposeComplete => exact wp_publishDisposeComplete (steady_not_holds p) hs h
  | waitIdle => exact wp_waitIdle h
  | waitDisposeComplete => exact wp_waitDisposeComplete h
  | commitRecheck => exact wp_quiet (steady_not_holds p) rfl rfl (fun _ => trivial) h
  | kick => exact wp_kick hs h

theorem rechecking_verified : rechecking.Verified where
  grounded _ _ _ _ _ := trivial
  init := ⟨⟨fun _ => rfl, fun _ => rfl⟩, Nat.zero_le _, Nat.le_refl _⟩
  vacant p := nofun
  body routine p s hs h := rechecking.wp_seq hs (wp_code hs h) fun _ _ _ h' => h'
  enter p routine s s' hs hblank henter := by
    simp only [protocol, Option.ite_none_right_eq_some, Option.some.injEq] at henter
    rcases henter with ⟨houtside, rfl⟩
    refine ⟨hs, fun t _ => .refl t s, ?_⟩
    cases routine with
    | convergencePass => cases houtside
    | _ => exact hblank

/-! ## Truthful verdicts -/

/-- What holds of the exit recheck in a state. -/
structure Truthful (cfg : State) : Prop where
  /-- An iteration is begun by the holder, and all before it are paid for by commits and kicks. -/
  charged : ∀ p revision next, cfg.pool p = some (.act (.storeReleasing revision) next) →
    Holds p cfg.shared ∧ Charged p cfg.shared
  verdict : ∀ p settled kept next, cfg.pool p = some (.act (.verdict settled kept) next) →
    Verdict p settled cfg.shared kept
  settled_le : cfg.shared.recheckSettled ≤ cfg.shared.recheckCommitted
  settled_mono : ∀ label cfg', protocol.step cfg label = some cfg' →
    cfg.shared.recheckSettled ≤ cfg'.shared.recheckSettled
  no_panic : ∀ p arm next, cfg.pool p ≠ some (.act (.panic arm) next)

theorem exec_settled {q : Party} {c : Choice} {op : Op} {s' : InertiaSlot} {r : op.Ret}
    (hcheck : check p op s) (hexec : exec p q c op s = some (s', r)) :
    s.recheckSettled ≤ s'.recheckSettled := by
  by_cases hquiet : op.quiet = true
  · exact Nat.le_of_eq (exec_quiet hquiet hexec).settled.symm
  cases op with
  | storeSettled revision =>
      cases hexec
      exact hcheck.2.1
  | compareExchange expected new =>
      have hout : s.compareExchange p expected new = (s', r) := Option.some.inj hexec
      obtain rfl : (s.compareExchange p expected new).1 = s' := congrArg Prod.fst hout
      unfold InertiaSlot.compareExchange
      split
      · split
        · exact Nat.le_refl _
        · split <;> exact Nat.le_refl _
      · exact Nat.le_refl _
  | claim =>
      simp only [exec] at hexec
      split at hexec <;> (cases hexec; exact Nat.le_refl _)
  | abandon | storeActive | storeReleasing | recordTarget | markPendingIfUntouched | pinInactive
  | fork =>
      cases hexec
      exact Nat.le_refl _
  | notified | awaitNotified | discard | notifyWaiters | load | probeIdle | commitRecheck
  | recheckRevision | loadSettled | computeTarget | readTarget | disposeComplete
  | completeDispose | isAlive | applyFailed | tryCurrent | claimTerminal | refused
  | enterRecheck | verdict | panic => exact absurd rfl hquiet

/-- In every run whose tail probes find the slot idle, exit rechecks are paid for and truthful. -/
theorem truthful_of_reachable {cfg : State} (h : protocol.Reachable tailIdle cfg) :
    Truthful cfg where
  charged _ _ _ hp := Logic.check_of_reachable rechecking_verified h hp
  verdict _ _ _ _ hp := Logic.check_of_reachable rechecking_verified h hp
  settled_le := (Logic.inv_of_reachable rechecking_verified h).settled
  settled_mono label cfg' hstep := by
    cases Machine.changes_of_step protocol hstep with
    | performed hpool hexec =>
        exact exec_settled (Logic.check_of_reachable rechecking_verified h hpool) hexec
    | unfolded hsame => exact hsame ▸ Nat.le_refl _
    | entered henter =>
        simp only [protocol, Option.ite_none_right_eq_some, Option.some.injEq] at henter
        rcases henter with ⟨-, hsame⟩
        exact hsame ▸ Nat.le_refl _
    | dropped hdropped =>
        simp only [protocol, Option.some.injEq, Prod.mk.injEq] at hdropped
        rcases hdropped with ⟨hsame, -⟩
        exact hsame ▸ Nat.le_refl _
  no_panic p arm next hp := Logic.check_of_reachable rechecking_verified h hp

/-! ## Runs -/

/-- A creation whose Active exit released the slot, up to its tail probe. -/
def released : Labels :=
  [.enter 1 .initialSpawnPass] ++ turns 1 6 yes ++ turns 1 1 {} ++ turns 1 9 yes

/-- A kick after a commit, up to its final exchange. -/
def kicked : Labels :=
  [.enter 2 .commitRecheck] ++ turns 2 1 yes ++ [.enter 3 .kick] ++ turns 3 15 yes

def quietTail : State :=
  (protocol.run tailIdle? (released ++ turns 1 1 yes ++ kicked) protocol.start).get
    (by decide +kernel)

theorem reachable_quietTail : protocol.Reachable tailIdle quietTail :=
  Machine.Reachable.of_run protocol Machine.finds_of_finds?
    (released ++ turns 1 1 yes ++ kicked) .start (Option.some_get _).symm

theorem truthful_quietTail : quietTail.shared.recheckSettled = 1 ∧ Truthful quietTail :=
  ⟨by decide +kernel, truthful_of_reachable reachable_quietTail⟩

/-- The kick's recheck is under way when the tail stores IDLE under it. -/
def stolenRecheck : State :=
  (protocol.run (fun _ _ _ _ => true) (released ++ kicked ++ turns 1 2 yes ++ turns 3 1 yes)
    protocol.start).get (by decide +kernel)

theorem not_truthful_stolenRecheck :
    ∃ cfg, protocol.Reachable Machine.anyRun cfg ∧ ¬ Truthful cfg := by
  refine ⟨stolenRecheck, Machine.Reachable.of_run protocol (fun _ _ _ _ _ => trivial)
    (released ++ kicked ++ turns 1 2 yes ++ turns 3 1 yes) .start (Option.some_get _).symm, ?_⟩
  intro h
  have hhead : (stolenRecheck.pool 3).bind Program.head = some (.panic .invalidReleaseState) := by
    decide +kernel
  rw [Option.bind_eq_some_iff] at hhead
  rcases hhead with ⟨prog, hpool, hop⟩
  cases prog with
  | act op next =>
      cases hop
      exact h.no_panic 3 _ next hpool
  | pure a => cases hop
  | loop body start next => cases hop

end Slot
end CordisCore
