import CordisCore.Authority.Settling

/-!
# Authority of passes, disposals and the spawn transaction
-/

namespace CordisCore
namespace Runtime

open Interleaving
open Interleaving.Program (iterate)

variable {p : Party} {f : FiberId} {s : Root}

/-! ## Who drives a party -/

/-- The party keeps its slots and is driven like this now. -/
structure Driven (p : Party) (driving : Driving) (s s' : Root) : Prop where
  nextFiber : s.nextFiber ≤ s'.nextFiber
  driving : s'.driving p = driving
  part : part p s' = part p s

theorem Driven.spawned {driving : Driving} {s' : Root} (h : Driven p driving s s')
    (hf : Spawned s f) : Spawned s' f :=
  hf.mono h.nextFiber

theorem Driven.after {driving : Driving} {s₁ s₂ s₃ : Root} (h : Driven p driving s₁ s₂)
    (hk : Keeps p s s₁) (hk' : Keeps p s₂ s₃) : Driven p driving s s₃ :=
  ⟨Nat.le_trans hk.nextFiber (Nat.le_trans h.nextFiber hk'.nextFiber),
    hk'.driving.trans h.driving, hk'.part.trans (h.part.trans hk.part)⟩

theorem driven_of_drive {s' : Root} (hk : Keeps p s s') (driving : Driving) :
    Driven p driving s (s'.drive p driving) :=
  ⟨hk.nextFiber, by simp [Root.drive], hk.part⟩

theorem wp_arm : authority.wp p (perform (.arm f))
    (fun _ s' => Driven p { s.driving p with guard := some f } s s') s := by
  refine authority.wp_perform fun s₁ hr hs₁ => ?_
  refine ⟨⟨nofun, nofun, nofun, nofun⟩, .of_step rfl ?_, drops_of_droppable hs₁ nofun⟩
  intro q c s' r _ _ hexec
  replace hexec := cordis_exec hexec
  simp only [exec, Option.some.injEq, Prod.mk.injEq] at hexec
  rcases hexec with ⟨rfl, -⟩
  exact ⟨inv_drive hs₁ p _, fun t ht => keeps_drive _ ht, hr.driving ▸ driven_of_drive hr _⟩

theorem wp_disarm : authority.wp p (perform .disarm)
    (fun _ s' => Driven p { s.driving p with guard := none } s s') s := by
  refine authority.wp_perform fun s₁ hr hs₁ => ?_
  refine ⟨⟨nofun, nofun, nofun, nofun⟩, .of_step rfl ?_, drops_of_droppable hs₁ nofun⟩
  intro q c s' r _ _ hexec
  replace hexec := cordis_exec hexec
  simp only [exec, Option.some.injEq, Prod.mk.injEq] at hexec
  rcases hexec with ⟨rfl, -⟩
  exact ⟨inv_drive hs₁ p _, fun t ht => keeps_drive _ ht, hr.driving ▸ driven_of_drive hr _⟩

theorem wp_handOff : authority.wp p (perform .handOff)
    (fun _ s' => Driven p { s.driving p with byCaller := false } s s') s := by
  refine authority.wp_perform fun s₁ hr hs₁ => ?_
  refine ⟨⟨nofun, nofun, nofun, nofun⟩, .of_step rfl ?_, drops_of_droppable hs₁ nofun⟩
  intro q c s' r _ _ hexec
  replace hexec := cordis_exec hexec
  simp only [exec, Option.some.injEq, Prod.mk.injEq] at hexec
  rcases hexec with ⟨rfl, -⟩
  exact ⟨inv_drive hs₁ p _, fun t ht => keeps_drive _ ht, hr.driving ▸ driven_of_drive hr _⟩

/-- A call is over: the slots are as before, and nobody drives it who did not before. -/
structure Returns (p : Party) (s s' : Root) : Prop where
  nextFiber : s.nextFiber ≤ s'.nextFiber
  caller : (s'.driving p).byCaller = true → (s.driving p).byCaller = true
  guard : (s'.driving p).guard = (s.driving p).guard
  part : part p s' = part p s

namespace Returns

variable {s' s'' : Root}

theorem of_keeps (h : Keeps p s s') : Returns p s s' :=
  ⟨h.nextFiber, fun hc => h.driving ▸ hc, by rw [h.driving], h.part⟩

theorem of_driven (h : Driven p { s.driving p with byCaller := false } s s') :
    Returns p s s' := by
  refine ⟨h.nextFiber, fun hc => ?_, by rw [h.driving], h.part⟩
  rw [h.driving] at hc
  cases hc

theorem trans (h : Returns p s s') (h' : Returns p s' s'') : Returns p s s'' :=
  ⟨Nat.le_trans h.nextFiber h'.nextFiber, fun hc => h.caller (h'.caller hc),
    h'.guard.trans h.guard, h'.part.trans h.part⟩

theorem free (h : Returns p s s') (hp : Free p s) : Free p s' := by
  intro hc
  rw [h.guard]
  exact hp (h.caller hc)

theorem spawned (h : Returns p s s') (hf : Spawned s f) : Spawned s' f :=
  hf.mono h.nextFiber

end Returns

/-- A won slot that was given back, by somebody driven differently meanwhile. -/
theorem Won.returns {s₁ s₂ s₃ : Root} (h : Won p f s s₁) (hr : Returns p s₁ s₂)
    (hm : Moves p f ((part p s₂ f).withHolds False) s₂ s₃) : Returns p s s₃ := by
  have hpart : part p s₃ = part p s := by
    funext g
    by_cases hg : g = f
    · subst hg
      rw [hm.here, congrFun hr.part g, h.2.here, Part.withHolds_withHolds]
      exact Part.withHolds_eq ⟨False.elim, h.1.holds⟩
    · rw [hm.other g hg, congrFun hr.part g, h.2.other g hg]
  refine ⟨Nat.le_trans h.2.nextFiber (Nat.le_trans hr.nextFiber hm.nextFiber), fun hc => ?_,
    ?_, hpart⟩
  · rw [hm.driving] at hc
    exact h.2.driving ▸ hr.caller hc
  · rw [hm.driving, hr.guard, h.2.driving]

/-! ## Terminal disposal -/

theorem wp_dispose (hs : SlotInv s) (hf : Spawned s f) (hp : Free p s) :
    authority.wp p (dispose f) (fun _ s' => Returns p s s') s := by
  refine authority.wp_seq hs (wp_quiet hs rfl) ?_
  intro complete s₁ hs₁ hk₁
  cases complete with
  | true => exact .of_keeps hk₁
  | false =>
      refine authority.wp_seq hs₁ (wp_claim (hk₁.spawned hf) (hp.keeps hk₁).droppable) ?_
      intro _ s₂ hs₂ hw
      have hw : Won p f s s₂ := .of_keeps hk₁ hw
      have hf₂ := hw.2.spawned hf
      refine authority.wp_seq hs₂ (wp_quiet hs₂ rfl) ?_
      intro complete s₃ hs₃ hk₃
      have hw₃ : Won p f s s₃ := hw.keeps hk₃
      have hf₃ := hk₃.spawned hf₂
      cases complete with
      | true =>
          refine authority.wp_mono hs₃ (wp_abandon hf₃ hw₃.owns) ?_
          intro _ s₄ _ hm
          exact .of_keeps (hw₃.restore hm)
      | false =>
          refine authority.wp_seq hs₃ (wp_quiet hs₃ rfl) ?_
          intro disposing s₄ hs₄ hk₄
          have hw₄ : Won p f s s₄ := hw₃.keeps hk₄
          have hf₄ := hk₄.spawned hf₃
          cases disposing with
          | true =>
              refine authority.wp_seq hs₄ (wp_abandon hf₄ hw₄.owns) ?_
              intro _ s₅ hs₅ hm
              have hk : Keeps p s s₅ := hw₄.restore hm
              refine authority.wp_mono hs₅
                (neutral_waitDisposeComplete s₅ hs₅ (hp.keeps hk).droppable) ?_
              intro _ s₆ _ hk₆
              exact .of_keeps (hk.trans hk₆)
          | false =>
              refine authority.wp_seq hs₄ wp_handOff ?_
              intro _ s₅ hs₅ hdriven
              have hr : Returns p s₄ s₅ := .of_driven hdriven
              have hp₅ : Free p s₅ := hr.free (hw₄.2.free hp)
              refine authority.wp_mono hs₅ (wp_completeClaimedDispose hs₅ (hr.spawned hf₄)
                hp₅.droppable (congrFun hr.part f ▸ hw₄.owns)) ?_
              intro _ s₆ _ hm
              exact hw₄.returns hr hm

/-! ## Passes -/

theorem neutral_restartResult : authority.Neutral (fun _ => True) p (restartResult f) := by
  have hread : authority.Neutral (fun _ => True) p (on f .readError) :=
    neutral_quiet rfl
  refine neutral_seq hread fun parked => ?_
  cases parked with
  | some failure => exact Logic.Neutral.pure _
  | none => exact Logic.Neutral.pure _

theorem neutral_updateResult : authority.Neutral (fun _ => True) p (updateResult f) := by
  have hread : authority.Neutral (fun _ => True) p (on f .readError) :=
    neutral_quiet rfl
  have hstate : authority.Neutral (fun _ => True) p (on f .state) :=
    neutral_quiet rfl
  refine neutral_seq hread fun parked => ?_
  cases parked with
  | some failure => exact Logic.Neutral.pure _
  | none => exact neutral_seq hstate fun _ => Logic.Neutral.pure _

theorem wp_replacementCommitted {α : Type} {result : Prog α} {target : SemanticTarget}
    {revision : Nat} (hresult : authority.Neutral (fun _ => True) p result)
    (hf : Spawned s f) (hp : Free p s) (ho : (part p s f).Owns) :
    authority.wp p (replacementCommitted f result target revision)
      (fun _ s' => Moves p f ((part p s f).withHolds False) s s') s := by
  refine authority.wp_iterate (fun _ s' => Keeps p s s') (Keeps.refl p s) ?_
  rintro ⟨target, revision⟩ s₁ hs₁ hk₁
  refine authority.wp_seq hs₁ (wp_settleOnce hs₁ (hk₁.spawned hf) (hp.keeps hk₁).droppable
    (hk₁.at_ f ▸ ho)) ?_
  intro _ s₂ hs₂ hk₂
  refine authority.wp_seq hs₂ (hresult s₂ hs₂ trivial) ?_
  intro settled s₃ hs₃ hk₃
  have hk : Keeps p s s₃ := hk₁.trans (hk₂.trans hk₃)
  refine authority.wp_seq hs₃ (wp_exitRecheck (hk.spawned hf) (hk.at_ f ▸ ho)) ?_
  intro kept s₄ hs₄ hkept
  cases kept with
  | false =>
      have hm : Moves p f ((part p s₃ f).withHolds False) s₃ s₄ := hkept
      rw [hk.at_ f] at hm
      exact Moves.keeps_trans hk hm
  | true =>
      have hk₄ : Keeps p s s₄ := hk.trans hkept
      refine authority.wp_seq hs₄ (wp_quiet hs₄ rfl) ?_
      intro revision s₅ hs₅ hk₅
      refine authority.wp_seq hs₅ (neutral_computeTarget s₅ hs₅ trivial) ?_
      intro target s₆ hs₆ hk₆
      have hk' : Keeps p s s₆ := hk₄.trans (hk₅.trans hk₆)
      refine authority.wp_seq hs₆ (wp_held hs₆ rfl rfl (hk'.holds ho.holds)) ?_
      intro _ s₇ _ hk₇
      exact hk'.trans hk₇

theorem wp_restartPass (hs : SlotInv s) (hf : Spawned s f) (hp : Free p s) :
    authority.wp p (restartPass f) (fun _ s' => Returns p s s') s := by
  refine authority.wp_seq hs (wp_claim hf hp.droppable) ?_
  intro _ s₁ hs₁ hw
  refine authority.wp_seq hs₁ (wp_quiet hs₁ rfl) ?_
  intro alive s₂ hs₂ hk₂
  have hw₂ : Won p f s s₂ := hw.keeps hk₂
  cases alive with
  | false =>
      refine authority.wp_seq hs₂ (wp_abandon (hw₂.spawned hf) hw₂.owns) ?_
      intro _ s₃ _ hm
      exact .of_keeps (hw₂.restore hm)
  | true =>
      refine authority.wp_seq hs₂ (wp_quiet hs₂ rfl) ?_
      intro revision s₃ hs₃ hk₃
      refine authority.wp_seq hs₃ (neutral_computeTarget s₃ hs₃ trivial) ?_
      intro target s₄ hs₄ hk₄
      have hw₄ : Won p f s s₄ := hw₂.keeps (hk₃.trans hk₄)
      refine authority.wp_seq hs₄ (wp_held hs₄ rfl rfl hw₄.owns.holds) ?_
      intro _ s₅ hs₅ hk₅
      have hw₅ : Won p f s s₅ := hw₄.keeps hk₅
      refine authority.wp_seq hs₅ (wp_held hs₅ rfl rfl hw₅.owns.holds) ?_
      intro _ s₆ hs₆ hk₆
      have hw₆ : Won p f s s₆ := hw₅.keeps hk₆
      refine authority.wp_seq hs₆ wp_handOff ?_
      intro _ s₇ hs₇ hdriven
      have hr : Returns p s₆ s₇ := .of_driven hdriven
      refine authority.wp_mono hs₇ (wp_replacementCommitted neutral_restartResult
        (hr.spawned (hw₆.spawned hf)) (hr.free (hw₆.2.free hp))
        (congrFun hr.part f ▸ hw₆.owns)) ?_
      intro _ s₈ _ hm
      exact hw₆.returns hr hm

theorem wp_updatePass (hs : SlotInv s) (hf : Spawned s f) (hp : Free p s) :
    authority.wp p (updatePass f) (fun _ s' => Returns p s s') s := by
  refine authority.wp_seq hs (wp_claim hf hp.droppable) ?_
  intro _ s₁ hs₁ hw
  refine authority.wp_seq hs₁ (wp_quiet hs₁ rfl) ?_
  intro alive s₂ hs₂ hk₂
  have hw₂ : Won p f s s₂ := hw.keeps hk₂
  cases alive with
  | false =>
      refine authority.wp_seq hs₂ (wp_abandon (hw₂.spawned hf) hw₂.owns) ?_
      intro _ s₃ _ hm
      exact .of_keeps (hw₂.restore hm)
  | true =>
      refine authority.wp_seq hs₂ (wp_held hs₂ rfl rfl hw₂.owns.holds) ?_
      intro _ s₃ hs₃ hk₃
      have hw₃ : Won p f s s₃ := hw₂.keeps hk₃
      have hchange : authority.Neutral (fun s => (part p s f).holds) p
          (perform (.commitChange f)) :=
        neutral_op rfl rfl nofun fun s hd g hg => (Option.some.inj hg) ▸ hd
      refine authority.wp_seq hs₃ (hchange s₃ hs₃ hw₃.owns.holds) ?_
      intro _ s₄ hs₄ hk₄
      refine authority.wp_seq hs₄ (wp_quiet hs₄ rfl) ?_
      intro revision s₅ hs₅ hk₅
      refine authority.wp_seq hs₅ (neutral_computeTarget s₅ hs₅ trivial) ?_
      intro target s₆ hs₆ hk₆
      have hw₆ : Won p f s s₆ := hw₃.keeps (hk₄.trans (hk₅.trans hk₆))
      refine authority.wp_seq hs₆ (wp_held hs₆ rfl rfl hw₆.owns.holds) ?_
      intro _ s₇ hs₇ hk₇
      have hw₇ : Won p f s s₇ := hw₆.keeps hk₇
      refine authority.wp_seq hs₇ wp_handOff ?_
      intro _ s₈ hs₈ hdriven
      have hr : Returns p s₇ s₈ := .of_driven hdriven
      refine authority.wp_mono hs₈ (wp_replacementCommitted neutral_updateResult
        (hr.spawned (hw₇.spawned hf)) (hr.free (hw₇.2.free hp))
        (congrFun hr.part f ▸ hw₇.owns)) ?_
      intro _ s₉ _ hm
      exact hw₇.returns hr hm

theorem wp_convergencePass (hf : Spawned s f) (hp : Free p s) (ho : (part p s f).Owns) :
    authority.wp p (convergencePass f)
      (fun _ s' => Moves p f ((part p s f).withHolds False) s s') s := by
  refine authority.wp_iterate (fun _ s' => Keeps p s s') (Keeps.refl p s) ?_
  intro _ s₁ hs₁ hk₁
  refine authority.wp_seq hs₁ (wp_quiet hs₁ rfl) ?_
  intro revision s₂ hs₂ hk₂
  refine authority.wp_seq hs₂ (wp_quiet hs₂ rfl) ?_
  intro recorded s₃ hs₃ hk₃
  have hk : Keeps p s s₃ := hk₁.trans (hk₂.trans hk₃)
  cases recorded with
  | none =>
      have hpanic : authority.Neutral (Droppable p) p (perform .panic) :=
        neutral_outside rfl
      exact authority.wp_seq hs₃ (hpanic s₃ hs₃ (hp.keeps hk).droppable) nofun
  | some target =>
      refine authority.wp_seq hs₃ (wp_settleOnce hs₃ (hk.spawned hf)
        (hp.keeps hk).droppable (hk.at_ f ▸ ho)) ?_
      intro _ s₄ hs₄ hk₄
      refine authority.wp_seq hs₄ (neutral_computeTarget s₄ hs₄ trivial) ?_
      intro live s₅ hs₅ hk₅
      have hk' : Keeps p s s₅ := hk.trans (hk₄.trans hk₅)
      split
      · refine authority.wp_seq hs₅ (wp_held hs₅ rfl rfl (hk'.holds ho.holds)) ?_
        intro _ s₆ _ hk₆
        exact hk'.trans hk₆
      · refine authority.wp_seq hs₅ (wp_exitRecheck (hk'.spawned hf) (hk'.at_ f ▸ ho)) ?_
        intro kept s₆ _ hkept
        cases kept with
        | true => exact hk'.trans hkept
        | false =>
            have hm : Moves p f ((part p s₅ f).withHolds False) s₅ s₆ := hkept
            rw [hk'.at_ f] at hm
            exact Moves.keeps_trans hk' hm

end Runtime
end CordisCore
