import CordisCore.Tasks.Drain

/-!
# Passes — whoever holds the slot closes, drains and reopens the generation
-/

namespace CordisCore
namespace Tasks

open Interleaving
open CordisCore.Runtime (FiberState Token)

variable {p : Party} {s s' : Fiber}

/-! ## Between the drains of a pass -/

/-- All that was claimed is executed. -/
structure Passing (p : Party) (s : Fiber) : Prop extends Holds p s where
  quiet : Quiet s

theorem Passing.keeps (h : Passing p s) (hk : Keeps p s s') : Passing p s' :=
  ⟨h.toHolds.keeps hk, h.quiet.keeps h.slot hk⟩

theorem Draining.passing {rest : List Token} (h : Draining none rest p s) : Passing p s :=
  ⟨h.toHolds, h.quiet⟩

theorem stable_passing : Stable p (Passing p) where
  silent h := h.silent
  torn h _ := ⟨h.hand, fun _ => h.quiet⟩
  keeps h hk := h.keeps hk
  mark h hclaimant hout :=
    { h with
      quiet := forall_mark (P := fun _ => Settled) h.quiet
        fun hc => hout (h.quiet _ (hclaimant.symm.trans hc)) }

/-- A read leaves the party what it knows. -/
theorem wp_read {op : Op} {D : Fiber → Prop} (hD : Stable p D) (hd : D s) (hforks : forks op = none)
    (hawaits : awaits op = false) (hentitled : ∀ s, Entitled p s op)
    (hsame : ∀ u c s s' ret, exec p u c op s = some (s', ret) → s' = s) :
    joining.wp p (perform op) (fun _ s' => D s') s := by
  refine wp_op hforks hawaits (fun s' hk _ => due_of_silent (hentitled s') (hD.silent (hD.keeps hd hk)))
    fun s' u c s'' ret hk _ hexec => ?_
  rw [hsame u c s' s'' ret hexec]
  exact hD.keeps hd hk

theorem wp_transition (next : FiberState) (h : Holds p s)
    (hopen : next = .loading ∨ next = .active → Quiet s) :
    joining.wp p (perform (.transition next)) (fun _ s' => Holds p s' ∧ s'.state = next ∧
      (Quiet s → Quiet s')) s := by
  refine wp_op rfl rfl (fun s' hk _ => due_of_silent ⟨(h.keeps hk).slot, fun hnext =>
    (hopen hnext).keeps h.slot hk⟩ (h.keeps hk).silent) fun s' u c s'' ret hk _ hexec => ?_
  have h' := h.keeps hk
  have hquiet : Quiet s → Quiet s' := fun hq => hq.keeps h.slot hk
  cases hexec
  exact ⟨{ h' with }, rfl, hquiet⟩

theorem wp_moveOn {next : FiberState} (h : Passing p s) :
    joining.wp p (perform (.transition next)) (fun _ s' => Passing p s') s := by
  refine wp_op rfl rfl (fun s' hk _ => due_of_silent ⟨(h.keeps hk).slot, fun _ => (h.keeps hk).quiet⟩
    (h.keeps hk).silent) fun s' u c s'' ret hk _ hexec => ?_
  have h' := h.keeps hk
  cases hexec
  exact { h' with }

/-! ## The passes -/

theorem wp_unload (hs : Sound s) (h : Holds p s) :
    joining.wp p unload (fun _ s' => Passing p s') s := by
  refine joining.wp_seq hs (wp_transition .unloading h (by rintro (h | h) <;> cases h))
    fun _ s₁ hs₁ h₁ => ?_
  exact joining.wp_mono hs₁ (wp_drainDisposables hs₁ ⟨h₁.1, h₁.2.1⟩) fun _ _ _ h => h.passing

theorem wp_unloadLive (hs : Sound s) (h : Passing p s) :
    joining.wp p unloadLive (fun _ s' => Passing p s') s := by
  have hstate : joining.wp p (perform .state) (fun _ s' => Passing p s') s :=
    wp_read stable_passing h rfl rfl (fun _ => trivial) fun _ _ _ _ _ hexec => by
      cases hexec
      rfl
  refine joining.wp_seq hs hstate fun current s₁ hs₁ h₁ => ?_
  cases current with
  | active | failed | loading => exact wp_unload hs₁ h₁.toHolds
  | pending | unloading | disposed => exact h₁

theorem wp_applyOnce (hs : Sound s) (h : Passing p s) :
    joining.wp p applyOnce (fun _ s' => Passing p s') s := by
  have hreopen : joining.wp p (perform .reopen) (fun _ s' => Passing p s') s := by
    refine wp_op rfl rfl (fun s' hk _ => due_of_silent ⟨(h.keeps hk).slot, (h.keeps hk).quiet⟩
      (h.keeps hk).silent) fun s' u c s'' ret hk _ hexec => ?_
    have h' := h.keeps hk
    cases hexec
    exact { h' with }
  refine joining.wp_seq hs hreopen fun _ s₁ hs₁ h₁ => ?_
  refine joining.wp_seq hs₁ (wp_moveOn h₁) fun _ s₂ hs₂ h₂ => ?_
  have happly : joining.wp p (perform .apply) (fun _ s' => Passing p s') s₂ := by
    refine wp_wait rfl (fun s' hk _ => due_of_silent trivial (h₂.keeps hk).silent)
      (fun s' hk _ => ⟨(h₂.keeps hk).silent, stable_passing.torn (h₂.keeps hk)⟩)
      fun s' u c s'' ret hk _ hexec => ?_
    have h' := h₂.keeps hk
    cases hexec
    exact h'
  refine joining.wp_seq hs₂ happly fun applied s₃ hs₃ h₃ => ?_
  cases applied with
  | true => exact wp_moveOn h₃
  | false => exact joining.wp_seq hs₃ (wp_unload hs₃ h₃.toHolds) fun _ s₄ _ h₄ => wp_moveOn h₄

theorem wp_settleOnce (hs : Sound s) (h : Passing p s) :
    joining.wp p settleOnce (fun _ s' => Passing p s') s := by
  have halive : joining.wp p (perform .isAlive) (fun _ s' => Passing p s') s :=
    wp_read stable_passing h rfl rfl (fun _ => trivial) fun _ _ _ _ _ hexec => by
      cases hexec
      rfl
  refine joining.wp_seq hs halive fun alive s₁ hs₁ h₁ => ?_
  cases alive with
  | false => exact h₁
  | true =>
      refine joining.wp_seq hs₁ (wp_unloadLive hs₁ h₁) fun _ s₂ hs₂ h₂ => ?_
      have hmissing : joining.wp p (perform .hasMissing) (fun _ s' => Passing p s') s₂ :=
        wp_read stable_passing h₂ rfl rfl (fun _ => trivial) fun _ _ _ _ _ hexec => by
          cases hexec
          rfl
      refine joining.wp_seq hs₂ hmissing fun missing s₃ hs₃ h₃ => ?_
      cases missing with
      | true => exact wp_moveOn h₃
      | false =>
          have hfirst : joining.wp p (perform .awaitsFirstApply) (fun _ s' => Passing p s') s₃ :=
            wp_read stable_passing h₃ rfl rfl (fun _ => trivial) fun _ _ _ _ _ hexec => by
              cases hexec
              rfl
          refine joining.wp_seq hs₃ hfirst fun first s₄ hs₄ h₄ => ?_
          cases first with
          | true => exact h₄
          | false => exact wp_applyOnce hs₄ h₄

theorem wp_claimSlot (h : Idle p s) :
    joining.wp p (perform .claimSlot) (fun _ s' => Passing p s') s := by
  refine wp_wait rfl (fun s' hk _ => due_of_silent (h.keeps hk).slot (h.keeps hk).silent)
    (fun s' hk _ => ⟨(h.keeps hk).silent, fun hslot => absurd hslot (h.keeps hk).slot⟩)
    fun s' u c s'' ret hk hs' hexec => ?_
  have h' := h.keeps hk
  simp only [exec] at hexec
  split at hexec
  · rename_i hfree
    have hquiet := hs'.free hfree
    cases hexec
    exact ⟨⟨h'.silent, rfl, hquiet.1⟩, hquiet.2⟩
  · cases hexec

theorem wp_abandon (h : Passing p s) :
    joining.wp p (perform .abandon) (fun _ s' => Silent p s') s := by
  refine wp_op rfl rfl (fun s' hk _ => due_of_silent ⟨(h.keeps hk).slot, (h.keeps hk).hand,
    (h.keeps hk).quiet⟩ (h.keeps hk).silent) fun s' u c s'' ret hk _ hexec => ?_
  have h' := h.keeps hk
  cases hexec
  exact h'.silent

theorem wp_settle (hs : Sound s) (h : Idle p s) :
    joining.wp p settle (fun _ s' => Silent p s') s := by
  refine joining.wp_seq hs (wp_claimSlot h) fun _ s₁ hs₁ h₁ => ?_
  exact joining.wp_seq hs₁ (wp_settleOnce hs₁ h₁) fun _ s₂ _ h₂ => wp_abandon h₂

theorem Torn.keeps (h : Torn s) (hslot : s.slot = some p) (hk : Keeps p s s') : Torn s' where
  hand := (hk.held hslot).hand.trans h.hand
  disposed hd := (h.disposed ((hk.held hslot).state.symm.trans hd)).keeps hslot hk

/-- An interrupted teardown is completed by the next one. -/
theorem wp_teardown (hs : Sound s) (hsilent : Silent p s) (hslot : s.slot = some p) (ht : Torn s) :
    joining.wp p teardown (fun _ s' => Silent p s') s := by
  have hstate : joining.wp p (perform .state) (fun current s' => Holds p s' ∧
      (current = .disposed → Quiet s')) s := by
    refine wp_op rfl rfl (fun s' hk _ => due_of_silent trivial (hsilent.keeps hk))
      fun s' u c s'' ret hk _ hexec => ?_
    have ht' := ht.keeps hslot hk
    have h' : Holds p s' := ⟨hsilent.keeps hk, hk.slot.mpr hslot, ht'.hand⟩
    cases hexec
    exact ⟨h', ht'.disposed⟩
  have hbody : joining.wp p teardownBody (fun _ s' => Passing p s') s := by
    refine joining.wp_seq hs hstate fun current s₁ hs₁ h₁ => ?_
    by_cases hdisposed : current = .disposed
    · rw [if_pos hdisposed]
      exact ⟨h₁.1, h₁.2 hdisposed⟩
    · rw [if_neg hdisposed]
      refine joining.wp_seq hs₁ (wp_transition .unloading h₁.1
        (by rintro (h | h) <;> cases h)) fun _ s₂ hs₂ h₂ => ?_
      have hclosed : Closed p s₂ := ⟨h₂.1, h₂.2.1⟩
      have hkill : joining.wp p (perform .kill) (fun _ s' => Closed p s') s₂ := by
        refine wp_op rfl rfl (fun s' hk _ => due_of_silent (hclosed.keeps hk).slot
          (hclosed.keeps hk).silent) fun s' u c s'' ret hk _ hexec => ?_
        have h' := hclosed.keeps hk
        cases hexec
        exact { h' with }
      refine joining.wp_seq hs₂ hkill fun _ s₃ hs₃ h₃ => ?_
      exact joining.wp_seq hs₃ (wp_drainDisposables hs₃ h₃) fun _ s₄ _ h₄ => wp_moveOn h₄.passing
  exact joining.wp_seq hs hbody fun _ s₁ _ h₁ => wp_abandon h₁

theorem wp_dispose (hs : Sound s) (h : Idle p s) :
    joining.wp p dispose (fun _ s' => Silent p s') s := by
  refine joining.wp_seq hs (wp_claimSlot h) fun _ s₁ hs₁ h₁ => ?_
  have hclaim : joining.wp p (perform .claimTerminal) (fun _ s' => Passing p s') s₁ := by
    refine wp_op rfl rfl (fun s' hk _ => due_of_silent (h₁.keeps hk).slot (h₁.keeps hk).silent)
      fun s' u c s'' ret hk _ hexec => ?_
    have h' := h₁.keeps hk
    cases hexec
    exact { h' with }
  refine joining.wp_seq hs₁ hclaim fun claimed s₂ hs₂ h₂ => ?_
  cases claimed with
  | true => exact wp_abandon h₂
  | false => exact wp_teardown hs₂ h₂.silent h₂.slot ⟨h₂.hand, fun _ => h₂.quiet⟩

theorem wp_markReplacing (h : Idle p s) :
    joining.wp p (perform .markReplacing) (fun _ s' => Silent p s') s := by
  refine wp_op rfl rfl (fun s' hk _ => due_of_silent trivial (h.keeps hk).silent)
    fun s' u c s'' ret hk _ hexec => ?_
  have h' := h.keeps hk
  cases hexec
  exact h'.silent

/-! ## Every routine -/

theorem Idle.returned (h : Idle p s) : Returned none p s :=
  ⟨h, nofun⟩

theorem wp_code {routine : Routine} (hs : Sound s) (h : joining.pre routine p s) :
    joining.wp p (code routine) (fun _ s' => Silent p s') s := by
  cases routine with
  | run => exact joining.wp_mono hs (wp_run hs (Idle.returned h)) fun _ _ _ h => h.idle.silent
  | register control =>
      exact joining.wp_mono hs (wp_registerCleanup hs (Idle.returned h)) fun _ _ _ h => h.idle.silent
  | disposeEffect t => exact wp_disposeEffect hs h.1 h.2
  | disarm t => exact wp_disarm hs h.1 h.2
  | removeListener t => exact wp_removeListener hs h.1 h.2
  | removePublication t => exact wp_removePublication hs h.1 h.2
  | settle => exact wp_settle hs h
  | dispose => exact wp_dispose hs h
  | markReplacing => exact wp_markReplacing h
  | task r => exact wp_runTask ⟨h.1, h.2⟩
  | work t cleanup drains => exact wp_detached hs h.1 h.2
  | teardown => exact wp_teardown hs h.1 h.2.1 h.2.2

theorem sound_init : Sound {} where
  call _ := ⟨fun h => absurd rfl h, fun h => absurd rfl h, nofun, nofun, fun _ => rfl,
    fun _ => ⟨nofun, rfl⟩, nofun, fun h => absurd rfl h, fun h => absurd rfl h, nofun, nofun⟩
  uncalled _ _ := rfl
  uncommitted _ _ := rfl
  sorted := .nil
  registered _ _ := ⟨nofun, fun h => nomatch h.1⟩
  joins _ _ := ⟨nofun, nofun⟩
  author _ _ := nofun
  unclaimed _ _ := rfl
  claimed _ := .inl nofun
  completed _ := nofun
  joiner _ h := absurd rfl h
  executed _ _ _ := nofun
  controlled _ _ := nofun
  shut _ _ := nofun
  drained _ _ _ := nofun
  free _ := ⟨rfl, fun _ => nofun⟩
  registrations _ := nofun

theorem joining_verified : joining.Verified where
  grounded _ _ _ _ _ := trivial
  init := sound_init
  vacant _ := ⟨⟨nofun, nofun⟩, nofun, nofun⟩
  body _ _ _ hs h := joining.wp_seq hs (wp_code hs h) fun _ _ _ h => h
  enter p routine s s' hs hblank henter := by
    have hconsumed : ∀ {t claimant}, s.consume t claimant = some s' →
        Sound s' ∧ (∀ q, q ≠ p → Keeps q s s') ∧ Idle p s' ∧
          Controls claimant (s'.occurrence t) := by
      intro t claimant hconsume
      unfold Fiber.consume at hconsume
      split at hconsume
      · rename_i entry hfind
        cases hconsume
        have hmatches : (entry.1 == t && entry.2.claims claimant) = true := by
          simpa using List.find?_some hfind
        rw [Bool.and_eq_true, beq_iff_eq] at hmatches
        have hregistered := hs.registrations entry (List.mem_of_find?_eq_some hfind)
        refine ⟨{ hs with registrations := fun e he => ?_ },
          fun q _ => { Keeps.refl q s with held := fun _ => { Held.refl s with } },
          ⟨hblank.1.silent, hblank.1.slot⟩, entry.2, ?_, hmatches.2⟩
        · exact hs.registrations e (List.mem_of_mem_erase he)
        · exact hmatches.1 ▸ hregistered
      · cases hconsume
    have hsame : ∀ {s'}, some s = some s' → Sound s' ∧ (∀ q, q ≠ p → Keeps q s s') ∧ Idle p s' := by
      intro s' heq
      cases heq
      exact ⟨hs, fun q _ => .refl q s, hblank.1⟩
    cases routine with
    | disposeEffect | disarm | removeListener | removePublication => exact hconsumed henter
    | run | register | settle | dispose | markReplacing => exact hsame henter
    | task | work | teardown => cases henter

end Tasks
end CordisCore
