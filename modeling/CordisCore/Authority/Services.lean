import CordisCore.Authority.Calls

/-!
# Authority of service control, effects, cleanups and tasks
-/

namespace CordisCore
namespace Runtime

open Interleaving
open Interleaving.Program (iterate)

variable {p : Party} {f : FiberId} {s : Root}

/-! ## Service sections -/

theorem wp_ownerDrift {key : DependencyEdge} (hs : SlotInv s) :
    authority.wp p (ownerDrift f key) (fun drift s' => Drift s' drift ∧ Keeps p s s') s := by
  refine authority.wp_seq hs (wp_quiet hs rfl) ?_
  intro state s₁ hs₁ hk₁
  split
  · refine authority.wp_mono hs₁ (wp_commitDrift hs₁) ?_
    rintro drift s₂ _ ⟨hdrift, hk₂⟩
    exact ⟨hdrift, hk₁.trans hk₂⟩
  · exact ⟨nofun, hk₁⟩

/-- What a publication answers: the drift to kick, or a refusal. -/
def Published {ε : Type} (p : Party) (s : Root) (r : Except ε (List (FiberId × Nat)))
    (s' : Root) : Prop :=
  (∀ drift, r = .ok drift → Drift s' drift) ∧ Keeps p s s'

theorem Published.refused {ε : Type} {refusal : ε} {s' : Root} (hk : Keeps p s s') :
    Published p s (.error refusal) s' :=
  ⟨nofun, hk⟩

theorem Published.drifts {ε : Type} {drift : List (FiberId × Nat)} {s' : Root}
    (hdrift : Drift s' drift) (hk : Keeps p s s') :
    Published (ε := ε) p s (.ok drift) s' :=
  ⟨fun _ h => by cases h; exact hdrift, hk⟩

theorem wp_installSlot {slot : ServiceSlot} (hs : SlotInv s) :
    authority.wp p (installSlot f slot) (Published p s) s := by
  refine authority.wp_seq hs (wp_quiet hs rfl) ?_
  intro _ s₁ hs₁ hk₁
  refine authority.wp_seq hs₁ (wp_quiet hs₁ rfl) ?_
  intro bound s₂ hs₂ hk₂
  have hk : Keeps p s s₂ := hk₁.trans hk₂
  cases bound with
  | false =>
      refine authority.wp_seq hs₂ (wp_quiet hs₂ rfl) ?_
      intro _ s₃ _ hk₃
      exact .refused (hk.trans hk₃)
  | true =>
      refine authority.wp_seq hs₂ (wp_quiet hs₂ rfl) ?_
      intro occupied s₃ hs₃ hk₃
      have hk : Keeps p s s₃ := hk.trans hk₃
      cases occupied with
      | true =>
          refine authority.wp_seq hs₃ (wp_quiet hs₃ rfl) ?_
          intro _ s₄ _ hk₄
          exact .refused (hk.trans hk₄)
      | false =>
          refine authority.wp_seq hs₃ (wp_ownerDrift hs₃) ?_
          rintro drift s₄ hs₄ ⟨hdrift, hk₄⟩
          refine authority.wp_seq hs₄ (wp_quiet hs₄ rfl) ?_
          intro _ s₅ hs₅ hk₅
          refine authority.wp_seq hs₅ (wp_quiet hs₅ rfl) ?_
          intro _ s₆ _ hk₆
          exact .drifts (hdrift.keeps (hk₅.trans hk₆)) (hk.trans (hk₄.trans (hk₅.trans hk₆)))

theorem wp_removeExact {publication : ServicePublication} (hs : SlotInv s) :
    authority.wp p (removeExact publication) (Published p s) s := by
  refine authority.wp_seq hs (wp_quiet hs rfl) ?_
  intro _ s₁ hs₁ hk₁
  refine authority.wp_seq hs₁ (wp_quiet hs₁ rfl) ?_
  intro current s₂ hs₂ hk₂
  have hk : Keeps p s s₂ := hk₁.trans hk₂
  cases current with
  | false =>
      refine authority.wp_seq hs₂ (wp_quiet hs₂ rfl) ?_
      intro _ s₃ _ hk₃
      exact .refused (hk.trans hk₃)
  | true =>
      refine authority.wp_seq hs₂ (wp_quiet hs₂ rfl) ?_
      intro _ s₃ hs₃ hk₃
      refine authority.wp_seq hs₃ (neutral_assertCanRegister s₃ hs₃ trivial) ?_
      intro admitted s₄ hs₄ hk₄
      have hk : Keeps p s s₄ := hk.trans (hk₃.trans hk₄)
      cases admitted with
      | false =>
          refine authority.wp_seq hs₄ (wp_quiet hs₄ rfl) ?_
          intro _ s₅ hs₅ hk₅
          refine authority.wp_seq hs₅ (wp_quiet hs₅ rfl) ?_
          intro _ s₆ _ hk₆
          exact .refused (hk.trans (hk₅.trans hk₆))
      | true =>
          refine authority.wp_seq hs₄ (wp_ownerDrift hs₄) ?_
          rintro drift s₅ hs₅ ⟨hdrift, hk₅⟩
          refine authority.wp_seq hs₅ (wp_quiet hs₅ rfl) ?_
          intro _ s₆ hs₆ hk₆
          refine authority.wp_seq hs₆ (wp_quiet hs₆ rfl) ?_
          intro _ s₇ hs₇ hk₇
          refine authority.wp_seq hs₇ (wp_quiet hs₇ rfl) ?_
          intro _ s₈ _ hk₈
          have hk' : Keeps p s₅ s₈ := hk₆.trans (hk₇.trans hk₈)
          exact .drifts (hdrift.keeps hk') (hk.trans (hk₅.trans hk'))

theorem neutral_setExact {publication : ServicePublication} {value : Nat} :
    authority.Neutral (fun _ => True) p (setExact publication value) := by
  refine neutral_seq (neutral_quiet rfl) fun _ => ?_
  refine neutral_seq (neutral_quiet rfl) fun current => ?_
  cases current with
  | false => exact neutral_seq (neutral_quiet rfl) fun _ => Logic.Neutral.pure _
  | true =>
      refine neutral_seq (neutral_quiet rfl) fun _ => ?_
      refine neutral_seq neutral_assertCanRegister fun admitted => ?_
      cases admitted with
      | false =>
          refine neutral_seq (neutral_quiet rfl) fun _ => ?_
          exact neutral_seq (neutral_quiet rfl) fun _ => Logic.Neutral.pure _
      | true =>
          refine neutral_seq (neutral_quiet rfl) fun _ => ?_
          refine neutral_seq (neutral_quiet rfl) fun _ => ?_
          exact neutral_seq (neutral_quiet rfl) fun _ => Logic.Neutral.pure _

/-! ## The gated registration seam -/

/-- What the publication established survives the push. -/
theorem wp_pushGated {ε α : Type} {cleanup : Cleanup} {inactive : ε}
    {publish : Prog (Except ε α)} {G : α → Root → Prop}
    (hG : ∀ {a s s'}, G a s → Keeps p s s' → G a s')
    (hpublish : ∀ {s}, SlotInv s → authority.wp p publish
      (fun r s' => (∀ a, r = .ok a → G a s') ∧ Keeps p s s') s) (hs : SlotInv s) :
    authority.wp p (pushGated f cleanup inactive publish)
      (fun r s' => (∀ a token, r = .ok (a, token) → G a s') ∧ Keeps p s s') s := by
  refine authority.wp_seq hs (neutral_assertCanRegister s hs trivial) ?_
  intro open₁ s₁ hs₁ hk₁
  cases open₁ with
  | false => exact ⟨nofun, hk₁⟩
  | true =>
      refine authority.wp_seq hs₁ (wp_quiet hs₁ rfl) ?_
      intro _ s₂ hs₂ hk₂
      refine authority.wp_seq hs₂ (neutral_assertCanRegister s₂ hs₂ trivial) ?_
      intro open₂ s₃ hs₃ hk₃
      have hk : Keeps p s s₃ := hk₁.trans (hk₂.trans hk₃)
      cases open₂ with
      | false =>
          refine authority.wp_seq hs₃ (wp_quiet hs₃ rfl) ?_
          intro _ s₄ _ hk₄
          exact ⟨nofun, hk.trans hk₄⟩
      | true =>
          refine authority.wp_seq hs₃ (hpublish hs₃) ?_
          rintro published s₄ hs₄ ⟨hok, hk₄⟩
          cases published with
          | error refused =>
              refine authority.wp_seq hs₄ (wp_quiet hs₄ rfl) ?_
              intro _ s₅ _ hk₅
              exact ⟨nofun, hk.trans (hk₄.trans hk₅)⟩
          | ok published =>
              refine authority.wp_seq hs₄ (wp_quiet hs₄ rfl) ?_
              intro token s₅ hs₅ hk₅
              refine authority.wp_seq hs₅ (wp_quiet hs₅ rfl) ?_
              intro _ s₆ _ hk₆
              refine ⟨fun a token' h => ?_, hk.trans (hk₄.trans (hk₅.trans hk₆))⟩
              cases h
              exact hG (hok published rfl) (hk₅.trans hk₆)

theorem neutral_pushNothing {ε : Type} {cleanup : Cleanup} {inactive : ε} :
    authority.Neutral (fun _ => True) p (pushGated f cleanup inactive noPublish) := by
  intro s hs _
  refine authority.wp_mono hs (wp_pushGated (G := fun _ _ => True) (fun _ _ => trivial)
    (fun _ => ⟨fun _ _ => trivial, Keeps.refl p _⟩) hs) ?_
  exact fun _ _ _ h => h.2

theorem wp_provide {key : DependencyEdge} {contract : Contract} {value : Nat} (hs : SlotInv s) :
    authority.wp p (provide f key contract value) (fun _ s' => Keeps p s s') s := by
  refine authority.wp_seq hs (neutral_assertCanRegister s hs trivial) ?_
  intro admitted s₁ hs₁ hk₁
  cases admitted with
  | false => exact hk₁
  | true =>
      refine authority.wp_seq hs₁ (wp_quiet hs₁ rfl) ?_
      intro occurrence s₂ hs₂ hk₂
      refine authority.wp_seq hs₂
        (wp_pushGated (G := fun drift s => Drift s drift) (fun h hk => h.keeps hk)
          (fun hs => wp_installSlot hs) hs₂) ?_
      rintro pushed s₃ hs₃ ⟨hdrift, hk₃⟩
      have hk : Keeps p s s₃ := hk₁.trans (hk₂.trans hk₃)
      cases pushed with
      | error refusal => exact hk
      | ok pushed =>
          refine authority.wp_seq hs₃
            (neutral_kickAll s₃ hs₃ (hdrift pushed.1 pushed.2 rfl)) ?_
          intro _ s₄ _ hk₄
          exact hk.trans hk₄

theorem wp_removePublication {publication : ServicePublication} (hs : SlotInv s) :
    authority.wp p (removePublication publication) (fun _ s' => Keeps p s s') s := by
  refine authority.wp_seq hs (wp_removeExact hs) ?_
  rintro removed s₁ hs₁ ⟨hdrift, hk₁⟩
  cases removed with
  | error refusal => exact hk₁
  | ok drift =>
      refine authority.wp_seq hs₁ (wp_quiet hs₁ rfl) ?_
      intro _ s₂ hs₂ hk₂
      refine authority.wp_seq hs₂
        (neutral_kickAll s₂ hs₂ ((hdrift drift rfl).keeps hk₂)) ?_
      intro _ s₃ _ hk₃
      exact hk₁.trans (hk₂.trans hk₃)

/-! ## Effects and cleanups -/

theorem neutral_effect : authority.Neutral (fun _ => True) p (effect f) := by
  refine neutral_seq neutral_pushNothing fun pushed => ?_
  cases pushed <;> exact Logic.Neutral.pure _

theorem neutral_disarm {token : Token} :
    authority.Neutral (fun _ => True) p (disarm f token) := by
  have hremove : authority.Neutral (fun _ => True) p (on f (.removeDisposable token)) :=
    neutral_quiet rfl
  exact neutral_seq hremove fun _ => Logic.Neutral.pure _

theorem wp_disposeEffect {token : Token} (hs : SlotInv s) :
    authority.wp p (disposeEffect f token) (fun _ s' => Returns p s s') s := by
  refine authority.wp_seq hs (wp_quiet hs rfl) ?_
  intro claimed s₁ hs₁ hk₁
  cases claimed with
  | none => exact .of_keeps hk₁
  | some cleanup =>
      refine authority.wp_seq hs₁ wp_handOff ?_
      intro _ s₂ hs₂ hdriven
      refine authority.wp_seq hs₂ (wp_quiet hs₂ rfl) ?_
      intro _ s₃ _ hk₃
      exact (Returns.of_keeps hk₁).trans ((Returns.of_driven hdriven).trans (.of_keeps hk₃))

theorem neutral_run : authority.Neutral (fun _ => True) p (run f) := by
  have hcurrent : authority.Neutral (fun _ => True) p (perform (.tryCurrent 0)) :=
    neutral_quiet rfl
  have hcell : authority.Neutral (fun _ => True) p (perform .freshCell) :=
    neutral_quiet rfl
  have hpark : ∀ cell task, authority.Neutral (fun _ => True) p (perform (.park cell task)) :=
    fun _ _ => neutral_quiet rfl
  refine neutral_seq neutral_assertCanRegister fun admitted => ?_
  cases admitted with
  | false => exact Logic.Neutral.pure _
  | true =>
      refine neutral_seq hcurrent fun current => ?_
      cases current with
      | false => exact Logic.Neutral.pure _
      | true =>
          refine neutral_seq hcell fun cell => ?_
          refine neutral_seq neutral_pushNothing fun pushed => ?_
          cases pushed with
          | error refusal => exact Logic.Neutral.pure _
          | ok _ =>
              refine neutral_seq neutral_forkTask fun task => ?_
              exact neutral_seq (hpark cell task) fun _ => Logic.Neutral.pure _

theorem neutral_cleanupBody {cleanup : Cleanup} :
    authority.Neutral (fun _ => True) p (cleanupBody cleanup) := by
  cases cleanup with
  | effect => exact neutral_quiet rfl
  | withdraw key occurrence =>
      refine neutral_seq (neutral_quiet rfl) fun _ => ?_
      refine neutral_seq ?_ fun _ => neutral_quiet rfl
      refine neutral_seq (neutral_quiet rfl) fun current => ?_
      cases current with
      | true => exact neutral_quiet rfl
      | false => exact Logic.Neutral.pure _
  | join cell =>
      exact neutral_seq (neutral_quiet rfl) fun _ => neutral_quiet rfl

theorem neutral_runCleanup {id : CleanupId} {cleanup : Cleanup} :
    authority.Neutral (fun _ => True) p (runCleanup f id cleanup) := by
  refine neutral_seq (neutral_quiet rfl) fun _ => ?_
  refine neutral_seq neutral_cleanupBody fun _ => ?_
  refine neutral_seq (neutral_quiet rfl) fun _ => ?_
  refine neutral_seq (neutral_quiet rfl) fun _ => ?_
  exact neutral_quiet rfl

/-! ## Run tasks -/

/-- The Fiber whose handle a task call uses. -/
def TaskCall.handle : TaskCall → Option FiberId
  | .ready f | .waitState f _ _ | .dispose f | .restart f | .update f _ | .eraSwap f _ => some f
  | .finish | .removePlugins _ => none

theorem wp_nextCall : authority.wp p (perform (.nextCall f))
    (fun call s' => (∀ g, call.handle = some g → Spawned s' g) ∧ Keeps p s s') s := by
  refine wp_look rfl rfl nofun nofun ?_
  intro c q s' s'' call _ hs' hexec hk
  have hun : Unmoved s' s'' := exec_unmoved rfl hexec
  refine ⟨fun g hg => hun.spawned ?_, hk⟩
  simp only [exec] at hexec
  split at hexec
  · simp only [guarded, Option.ite_none_right_eq_some, Option.some.injEq,
      Prod.mk.injEq] at hexec
    rcases hexec with ⟨hcallable, -, rfl⟩
    cases hcall : (‹TaskCall› : TaskCall) <;>
      simp only [hcall, TaskCall.handle, reduceCtorEq, Option.some.injEq] at hg <;>
      (subst hg; rw [hcall] at hcallable; exact hs'.delivered _ hcallable)
  · cases hexec

/-- A task keeps no guard from one call to the next. -/
theorem wp_taskCall {call : TaskCall} (hs : SlotInv s) (hp : (s.driving p).guard = none)
    (hcall : ∀ g, call.handle = some g → Spawned s g) :
    authority.wp p (taskCall f call) (fun _ s' => (s'.driving p).guard = none) s := by
  have hfree : Free p s := fun _ => hp
  have hkeep : ∀ {t}, Keeps p s t → (t.driving p).guard = none := fun hk =>
    (congrArg Driving.guard hk.driving).trans hp
  cases call with
  | finish => exact hp
  | ready g =>
      exact authority.wp_seq hs
        (neutral_handleReady s hs ⟨hfree.droppable, hcall g rfl⟩) fun _ _ _ hk => hkeep hk
  | waitState g state bounded =>
      exact authority.wp_seq hs
        (neutral_handleWaitState s hs ⟨hfree.droppable, hcall g rfl⟩) fun _ _ _ hk => hkeep hk
  | dispose g =>
      exact authority.wp_seq hs (wp_handleDispose hs (hcall g rfl) hfree)
        fun _ _ _ hr => hr.guard.trans hp
  | restart g =>
      exact authority.wp_seq hs (wp_handleRestart hs (hcall g rfl) hfree)
        fun _ _ _ hr => hr.guard.trans hp
  | update g change =>
      exact authority.wp_seq hs (wp_handleUpdate hs (hcall g rfl) hfree)
        fun _ _ _ hr => hr.guard.trans hp
  | eraSwap g change =>
      exact authority.wp_seq hs (wp_eraSwap hs (hcall g rfl) hp) fun _ _ _ hg => hg
  | removePlugins key =>
      exact authority.wp_seq hs (wp_removePlugins hs hfree) fun _ _ _ hr => hr.guard.trans hp

theorem wp_taskBody (hs : SlotInv s) (hp : (s.driving p).guard = none) :
    authority.wp p (taskBody f) (fun _ _ => True) s := by
  refine authority.wp_seq (R := fun _ _ => True) hs ?_ fun _ s₁ hs₁ _ =>
    authority.wp_mono hs₁ (wp_quiet hs₁ rfl) fun _ _ _ _ => trivial
  refine authority.wp_iterate (fun _ s' => (s'.driving p).guard = none) hp ?_
  intro _ s₁ hs₁ hp₁
  refine authority.wp_seq hs₁ wp_nextCall ?_
  rintro call s₂ hs₂ ⟨hcall, hk₂⟩
  have hp₂ : (s₂.driving p).guard = none := (congrArg Driving.guard hk₂.driving).trans hp₁
  split
  · trivial
  · exact authority.wp_seq hs₂ (wp_taskCall hs₂ hp₂ hcall) fun _ _ _ hp₃ => hp₃

end Runtime
end CordisCore
