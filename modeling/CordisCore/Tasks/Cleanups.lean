import CordisCore.Tasks.Routines

/-!
# Cleanups — the join cleanup, and whatever else was claimed
-/

namespace CordisCore
namespace Tasks

open Interleaving
open CordisCore.Runtime (FiberState Token)

variable {p q : Party} {r : RunId} {t : Token} {s s' : Fiber}

/-! ## The join cleanup -/

/-- The party runs the join cleanup of this call. -/
structure Joins (r : RunId) (t : Token) (p : Party) (s : Fiber) : Prop where
  idle : Idle p s
  token : (s.run r).token = some t
  joiner : (s.run r).joiner = some p
  claimed : (s.occurrence t).claimant ≠ none
  unsent : (s.occurrence t).outcome = none

theorem Joins.keeps (h : Joins r t p s) (hk : Keeps p s s') : Joins r t p s' where
  idle := h.idle.keeps hk
  token := (hk.run r).token t h.token
  joiner := (hk.run r).joiner.mpr h.joiner
  claimed := by
    rcases Option.ne_none_iff_exists'.mp h.claimed with ⟨c, hc⟩
    rw [hk.claimant t c hc]
    nofun
  unsent := (hk.unsent r t h.joiner h.token).trans h.unsent

/-- The cell and the notification change, and the reports. -/
theorem Joins.modify {change : Run → Run} (h : Joins r t p s)
    (hcaller : (change (s.run r)).caller = (s.run r).caller)
    (htoken : (change (s.run r)).token = (s.run r).token)
    (hjoiner : (change (s.run r)).joiner = (s.run r).joiner) :
    Joins r t p (s.modify r change) where
  idle := ⟨fun x => by
    rw [modify_same Run.caller hcaller]
    exact h.idle.silent x, h.idle.slot⟩
  token := by
    rw [run_modify_self, htoken]
    exact h.token
  joiner := by
    rw [run_modify_self, hjoiner]
    exact h.joiner
  claimed := h.claimed
  unsent := h.unsent

theorem Joins.due {op : Op} (h : Joins r t p s) (hentitled : Entitled p s op) : Due p op s :=
  due_of_silent hentitled h.idle.silent

/-- The handle was not taken yet. -/
structure Waits (r : RunId) (t : Token) (p : Party) (s : Fiber) : Prop extends Joins r t p s where
  slot : (s.run r).slot ≠ .done
  reports : (s.run r).reports = 0

theorem Waits.keeps (h : Waits r t p s) (hk : Keeps p s s') : Waits r t p s' where
  toJoins := h.toJoins.keeps hk
  slot hdone := h.slot (((hk.run r).joining h.joiner).1.mp hdone)
  reports := ((hk.run r).joining h.joiner).2.trans h.reports

theorem Waits.futures (h : Waits r t p s) {m : Notify → Notify} :
    Waits r t p (s.modify r fun u => { u with parked := m u.parked }) where
  toJoins := h.toJoins.modify rfl rfl rfl
  slot := by
    rw [run_modify_self]
    exact h.slot
  reports := by
    rw [run_modify_self]
    exact h.reports

/-- A future that the broadcast reaches if it has not gone out yet. -/
structure Enabled (r : RunId) (p : Party) (s : Fiber) : Prop where
  future : (s.run r).parked.futures p ≠ none
  woken : (s.run r).notified = true → (s.run r).parked.futures p = some true

theorem Enabled.keeps (h : Enabled r p s) (hk : Keeps p s s') : Enabled r p s' :=
  ⟨(hk.run r).future h.future, (hk.run r).wake h.future h.woken⟩

theorem wp_notified (h : Waits r t p s) : joining.wp p (perform (.notified r))
    (fun _ s' => Waits r t p s' ∧ (s'.run r).parked.futures p ≠ none) s := by
  refine wp_op rfl rfl (fun s' hk _ => (h.keeps hk).due (h.keeps hk).joiner)
    fun s' u c s'' ret hk _ hexec => ?_
  have h' := h.keeps hk
  cases hexec
  refine ⟨h'.futures (m := fun n => n.notified p), ?_⟩
  rw [run_modify_self]
  show ((s'.run r).parked.notified p).futures p ≠ none
  rw [Notify.notified_self]
  nofun

/-- The handle is taken, or the future was there before the broadcast. -/
theorem wp_takeSlot (h : Waits r t p s) (hfuture : (s.run r).parked.futures p ≠ none) :
    joining.wp p (perform (.takeSlot r)) (fun taken s' => match taken with
      | some join => join = r ∧ Joins r t p s' ∧ (s'.run r).slot = .done ∧ (s'.run r).reports = 0
      | none => Waits r t p s' ∧ Enabled r p s') s := by
  refine wp_op rfl rfl (fun s' hk _ => (h.keeps hk).due (h.keeps hk).joiner)
    fun s' u c s'' ret hk hs' hexec => ?_
  have h' := h.keeps hk
  have hfuture' := (hk.run r).future hfuture
  cases hexec
  cases hslot : (s'.run r).slot with
  | pending =>
      have hsame : (s'.run r).takeSlot = (s'.run r, none) := by
        unfold Run.takeSlot
        rw [hslot]
      have hunnotified := (hs'.call r).unnotified hslot
      rw [hsame]
      refine ⟨⟨h'.toJoins.modify ?_ ?_ ?_, ?_, ?_⟩, ⟨?_, ?_⟩⟩ <;> try rw [run_modify_self]
      all_goals rw [hsame]
      · exact h'.slot
      · exact h'.reports
      · exact hfuture'
      · exact fun hn => nomatch hunnotified.symm.trans hn
  | running join =>
      have htaken : (s'.run r).takeSlot = ({ s'.run r with slot := .done }, some join) := by
        unfold Run.takeSlot
        rw [hslot]
      rw [htaken]
      refine ⟨(hs'.call r).handle join hslot, h'.toJoins.modify ?_ ?_ ?_, ?_, ?_⟩ <;>
        try rw [run_modify_self]
      all_goals rw [htaken]
      exact h'.reports
  | done => exact absurd hslot h'.slot

theorem wp_awaitParked (h : Waits r t p s) (henabled : Enabled r p s) :
    joining.wp p (perform (.awaitParked r)) (fun _ s' => Waits r t p s') s := by
  refine wp_op rfl rfl (fun s' hk _ => (h.keeps hk).due
    ⟨(h.keeps hk).joiner, (h.keeps hk).slot, (henabled.keeps hk).future, (henabled.keeps hk).woken⟩)
    fun s' u c s'' ret hk _ hexec => ?_
  have h' := h.keeps hk
  simp only [exec] at hexec
  split at hexec
  · cases hexec
    exact h'.futures (m := fun n => n.discard p)
  · cases hexec

theorem wp_containJoin (hs : Sound s) (h : Joins r t p s) (hslot : (s.run r).slot = .done)
    (hreports : (s.run r).reports = 0) : joining.wp p (containJoin r r)
      (fun _ s' => Joins r t p s' ∧ Finished (s'.run r)) s := by
  have hjoin : joining.wp p (perform (.join r)) (fun o s' => Joins r t p s' ∧
      (s'.run r).slot = .done ∧ (s'.run r).reports = 0 ∧ (s'.run r).task = .ended o) s := by
    refine wp_op rfl rfl (fun s' hk _ => (h.keeps hk).due
      (((hk.run r).joining h.joiner).1.mpr hslot)) fun s' u c s'' ret hk _ hexec => ?_
    have h' := h.keeps hk
    have hslot' := ((hk.run r).joining h.joiner).1.mpr hslot
    have hreports' := ((hk.run r).joining h.joiner).2.trans hreports
    simp only [exec] at hexec
    split at hexec
    · rename_i o htask
      cases hexec
      exact ⟨h', hslot', hreports', htask⟩
    · cases hexec
  refine joining.wp_seq hs hjoin fun o s₁ hs₁ h₁ => ?_
  rcases h₁ with ⟨h₁, hslot₁, hreports₁, htask₁⟩
  cases o with
  | finished | cancelled => exact ⟨h₁, hslot₁, _, htask₁, hreports₁⟩
  | panicked =>
      refine wp_op rfl rfl (fun s' hk _ => (h₁.keeps hk).due
        ⟨(h₁.keeps hk).joiner, fun j hj => ?_⟩) fun s' u c s'' ret hk _ hexec => ?_
      · cases (h₁.keeps hk).token.symm.trans hj
        exact (h₁.keeps hk).unsent
      · have h' := h₁.keeps hk
        have hslot' := ((hk.run r).joining h₁.joiner).1.mpr hslot₁
        have hreports' := ((hk.run r).joining h₁.joiner).2.trans hreports₁
        have htask' := (hk.run r).ended _ htask₁
        cases hexec
        refine ⟨h'.modify rfl rfl rfl, ?_⟩
        rw [run_modify_self]
        refine ⟨hslot', .panicked, htask', ?_⟩
        rw [hreports']
        rfl

theorem wp_joinCleanup (h : Waits r t p s) : joining.wp p (joinCleanup r)
    (fun _ s' => Joins r t p s' ∧ Finished (s'.run r)) s := by
  refine joining.wp_iterate (fun _ s' => Waits r t p s') h fun _ s₁ hs₁ h₁ => ?_
  refine joining.wp_seq hs₁ (wp_notified h₁) fun _ s₂ hs₂ h₂ => ?_
  refine joining.wp_seq hs₂ (wp_takeSlot h₂.1 h₂.2) fun taken s₃ hs₃ h₃ => ?_
  cases taken with
  | none => exact joining.wp_seq hs₃ (wp_awaitParked h₃.1 h₃.2) fun _ _ _ h => h
  | some join =>
      rcases h₃ with ⟨rfl, hjoins, hslot, hreports⟩
      exact joining.wp_seq hs₃ (wp_containJoin hs₃ hjoins hslot hreports) fun _ _ _ h => h

/-! ## Whatever was claimed -/

/-- An assertion that a party can keep while it executes and awaits cleanups. -/
structure Stable (p : Party) (D : Fiber → Prop) : Prop where
  silent : ∀ {s}, D s → Silent p s
  torn : ∀ {s}, D s → s.slot = some p → Torn s
  keeps : ∀ {s s'}, D s → Keeps p s s' → D s'
  mark : ∀ {s t change}, D s →
    ((change (s.occurrence t)).claimant = (s.occurrence t).claimant) →
    ((s.occurrence t).outcome ≠ none → (change (s.occurrence t)).outcome ≠ none) →
    D (s.mark t change)

theorem stable_idle : Stable p (Idle p) where
  silent h := h.silent
  torn h hslot := absurd hslot h.slot
  keeps h hk := h.keeps hk
  mark h _ _ := ⟨h.silent, h.slot⟩

section Stable

variable {D : Fiber → Prop} (hD : Stable p D)
include hD

theorem wp_send {out : Option EffectFailureKind} (hd : D s)
    (hentitled : ∀ s', Keeps p s s' → Sound s' → Entitled p s' (.send t out)) :
    joining.wp p (perform (.send t out)) (fun _ s' => D s' ∧ (s'.occurrence t).outcome ≠ none) s := by
  refine wp_op rfl rfl (fun s' hk hs' => due_of_silent (hentitled s' hk hs')
    (hD.silent (hD.keeps hd hk))) fun s' u c s'' ret hk _ hexec => ?_
  have hd' := hD.keeps hd hk
  cases hexec
  refine ⟨hD.mark hd' rfl fun _ => nofun, ?_⟩
  rw [occurrence_mark_self]
  nofun

theorem wp_complete (hd : D s) (hout : (s.occurrence t).outcome ≠ none) :
    joining.wp p (perform (.complete t)) (fun _ s' => D s' ∧ (s'.occurrence t).outcome ≠ none) s := by
  refine wp_op rfl rfl (fun s' hk _ => due_of_silent (hk.outcome t hout)
    (hD.silent (hD.keeps hd hk))) fun s' u c s'' ret hk _ hexec => ?_
  have hd' := hD.keeps hd hk
  have hout' := hk.outcome t hout
  cases hexec
  refine ⟨hD.mark hd' rfl id, ?_⟩
  rw [occurrence_mark_self]
  exact hout'

/-- Execute, send and, for a drain, complete. -/
theorem wp_work {cleanup : Cleanup} {drains : Bool} {R : Option EffectFailureKind → Fiber → Prop}
    (hs : Sound s) (hexecute : joining.wp p (executeCleanup t cleanup) R s)
    (hR : ∀ out s, R out s → D s) (hentitled : ∀ out s s', R out s → Keeps p s s' → Sound s' →
      Entitled p s' (.send t out)) :
    joining.wp p (work t cleanup drains) (fun _ s' => D s' ∧ (s'.occurrence t).outcome ≠ none) s := by
  refine joining.wp_seq hs hexecute fun out s₁ hs₁ h₁ => ?_
  refine joining.wp_seq hs₁ (wp_send hD (hR out s₁ h₁) fun s' hk hs' =>
    hentitled out s₁ s' h₁ hk hs') fun _ s₂ _ h₂ => ?_
  cases drains with
  | true => exact wp_complete hD h₂.1 h₂.2
  | false => exact h₂

/-- A cleanup of the user's may end in any way. -/
theorem wp_workEffect {control : Control} {drains : Bool} (hs : Sound s) (hd : D s)
    (hcommitted : (s.occurrence t).cleanup = some (.registered control))
    (hclaimed : (s.occurrence t).claimant ≠ none) :
    joining.wp p (work t (.registered control) drains)
      (fun _ s' => D s' ∧ (s'.occurrence t).outcome ≠ none) s := by
  rcases Option.ne_none_iff_exists'.mp hclaimed with ⟨claimant, hclaimant⟩
  have hinvoke : joining.wp p (executeCleanup t (.registered control)) (fun _ s' => D s' ∧
      (s'.occurrence t).cleanup = some (.registered control) ∧
      (s'.occurrence t).claimant = some claimant) s := by
    refine wp_op rfl rfl (fun s' hk _ => due_of_silent trivial (hD.silent (hD.keeps hd hk)))
      fun s' u c s'' ret hk _ hexec => ?_
    have hd' := hD.keeps hd hk
    have hcommitted' := hk.cleanup t _ hcommitted
    have hclaimant' := hk.claimant t _ hclaimant
    cases hexec
    exact ⟨hd', hcommitted', hclaimant'⟩
  refine wp_work hD hs hinvoke (fun _ _ h => h.1) fun out s₁ s₂ h₁ hk hs₂ => ⟨?_, fun z hz => ?_⟩
  · rw [hk.claimant t _ h₁.2.2]
    nofun
  · exact absurd hz (hs₂.not_join (hk.cleanup t _ h₁.2.1))

theorem wp_awaitOutcome (hs : Sound s) (hd : D s) : joining.wp p (awaitOutcome t)
    (fun _ s' => D s' ∧ (s'.occurrence t).outcome ≠ none) s := by
  have houtcome : joining.wp p (perform (.outcome t))
      (fun _ s' => D s' ∧ (s'.occurrence t).outcome ≠ none) s := by
    refine wp_wait rfl (fun s' hk _ => due_of_silent trivial (hD.silent (hD.keeps hd hk)))
      (fun s' hk _ => ⟨hD.silent (hD.keeps hd hk), hD.torn (hD.keeps hd hk)⟩)
      fun s' u c s'' ret hk _ hexec => ?_
    have hd' := hD.keeps hd hk
    simp only [exec, Option.map_eq_some_iff] at hexec
    rcases hexec with ⟨out, hout, heq⟩
    cases heq
    refine ⟨hd', ?_⟩
    rw [hout]
    simp
  refine joining.wp_seq hs houtcome fun failure s₁ _ h₁ => ?_
  cases failure with
  | none => exact h₁
  | some kind =>
      refine wp_op rfl rfl (fun s' hk _ => due_of_silent trivial (hD.silent (hD.keeps h₁.1 hk)))
        fun s' u c s'' ret hk _ hexec => ?_
      have h' : D s' ∧ (s'.occurrence t).outcome ≠ none :=
        ⟨hD.keeps h₁.1 hk, hk.outcome t h₁.2⟩
      cases hexec
      exact h'

end Stable

/-- A thread of its own executes a cleanup. -/
theorem wp_detached {cleanup : Cleanup} {drains : Bool} (hs : Sound s) (h : Idle p s)
    (hexecutes : Executes p t cleanup s) :
    joining.wp p (work t cleanup drains) (fun _ s' => Silent p s') s := by
  cases cleanup with
  | registered control =>
      exact joining.wp_mono hs (wp_workEffect stable_idle hs h hexecutes.committed hexecutes.claimed)
        fun _ _ _ h => h.1.silent
  | join r =>
      rcases hexecutes.join r rfl with ⟨hjoiner, hunsent, hslot, hreports⟩
      have hwaits : Waits r t p s := ⟨⟨h, (hs.joins t r).mp hexecutes.committed, hjoiner,
        hexecutes.claimed, hunsent⟩, hslot, hreports⟩
      have hexecute : joining.wp p (executeCleanup t (.join r)) (fun out s' => out = none ∧
          Joins r t p s' ∧ Finished (s'.run r)) s :=
        joining.wp_seq hs (wp_joinCleanup hwaits) fun _ _ _ h => ⟨rfl, h⟩
      refine joining.wp_mono hs (wp_work stable_idle hs hexecute (fun _ _ h => h.2.1.idle)
        fun out s₁ s₂ h₁ hk hs₂ => ?_) fun _ _ _ h => h.1.silent
      rcases h₁ with ⟨rfl, hjoins, hdone, o, htask, hreports⟩
      have hjoins' := hjoins.keeps hk
      refine ⟨hjoins'.claimed, fun z hz => ?_⟩
      -- an obligation belongs to one call
      have heq : z = r := by
        have hz := (hs₂.joins t z).mpr hz
        rw [(hs₂.joins t r).mpr hjoins'.token] at hz
        exact (Cleanup.join.inj (Option.some.inj hz)).symm
      subst heq
      refine ⟨hjoins'.joiner, ⟨((hk.run z).joining hjoins.joiner).1.mpr hdone, o,
        (hk.run z).ended o htask, ?_⟩, rfl⟩
      exact ((hk.run z).joining hjoins.joiner).2.trans hreports

/-! ## The claims of registrations -/

theorem wp_claimOwn {claimant : Claimant} (hne : claimant ≠ .drain) (h : Idle p s)
    (hcontrols : Controls claimant (s.occurrence t)) :
    joining.wp p (perform (.removeDisposable t claimant)) (fun found s' => Idle p s' ∧
      ∀ cleanup, found = some cleanup → (∃ control, cleanup = .registered control) ∧
        (s'.occurrence t).cleanup = some cleanup ∧ (s'.occurrence t).claimant ≠ none) s := by
  rcases hcontrols with ⟨control, hregistered, hclaims⟩
  refine wp_op rfl rfl (fun s' hk _ => due_of_silent ?_ (h.keeps hk).silent)
    fun s' u c s'' ret hk hs' hexec => ?_
  · cases claimant with
    | drain => exact absurd rfl hne
    | dispose | disarm | removeListener | removePublication =>
        exact ⟨control, hk.cleanup t _ hregistered, hclaims⟩
  · have h' := h.keeps hk
    have hregistered' := hk.cleanup t _ hregistered
    have heq := Option.some.inj hexec
    have hnext : s'' = (s'.removeDisposable t claimant).1 := (congrArg Prod.fst heq).symm
    have hret : ret = (s'.removeDisposable t claimant).2 := (congrArg Prod.snd heq).symm
    subst hnext hret
    cases hout : (s'.removeDisposable t claimant).2 with
    | none =>
        rw [(removeDisposable_none hout).2]
        exact ⟨h', nofun⟩
    | some cleanup =>
        have hclaim := removeDisposable_some hout
        have hcommitted := ((hs'.registered t cleanup).mp hclaim.1).1
        have hcleanup := Option.some.inj (hcommitted.symm.trans hregistered')
        rw [hclaim.2]
        refine ⟨⟨h'.silent, h'.slot⟩, fun cleanup' hfound => ?_⟩
        cases hfound
        refine ⟨⟨control, hcleanup⟩, ?_, ?_⟩
        · rw [(occurrence_claim t).1]
          exact hcommitted
        · rw [occurrence_claim_self]
          nofun

theorem Controls.keeps {claimant : Claimant} (h : Controls claimant (s.occurrence t))
    (hk : Keeps p s s') : Controls claimant (s'.occurrence t) := by
  rcases h with ⟨control, hregistered, hclaims⟩
  exact ⟨control, hk.cleanup t _ hregistered, hclaims⟩

theorem wp_disarm (hs : Sound s) (h : Idle p s) (hcontrols : Controls .disarm (s.occurrence t)) :
    joining.wp p (disarm t) (fun _ s' => Silent p s') s :=
  joining.wp_seq hs (wp_claimOwn nofun h hcontrols) fun _ _ _ h => h.1.silent

theorem wp_removeListener (hs : Sound s) (h : Idle p s)
    (hcontrols : Controls .removeListener (s.occurrence t)) :
    joining.wp p (removeListener t) (fun _ s' => Silent p s') s := by
  have hunregister : joining.wp p (perform (.unregister t)) (fun _ s' => Idle p s' ∧
      Controls .removeListener (s'.occurrence t)) s := by
    refine wp_op rfl rfl (fun s' hk _ => due_of_silent trivial (h.keeps hk).silent)
      fun s' u c s'' ret hk _ hexec => ?_
    have h' := h.keeps hk
    have hcontrols' := hcontrols.keeps hk
    cases hexec
    exact ⟨h', hcontrols'⟩
  refine joining.wp_seq hs hunregister fun _ s₁ hs₁ h₁ => ?_
  exact joining.wp_seq hs₁ (wp_claimOwn nofun h₁.1 h₁.2) fun _ _ _ h => h.1.silent

theorem wp_removePublication (hs : Sound s) (h : Idle p s)
    (hcontrols : Controls .removePublication (s.occurrence t)) :
    joining.wp p (removePublication t) (fun _ s' => Silent p s') s := by
  have hexact : joining.wp p (perform (.removeExact t)) (fun _ s' => Idle p s' ∧
      Controls .removePublication (s'.occurrence t)) s := by
    refine wp_op rfl rfl (fun s' hk _ => due_of_silent trivial (h.keeps hk).silent)
      fun s' u c s'' ret hk _ hexec => ?_
    have h' := h.keeps hk
    have hcontrols' := hcontrols.keeps hk
    cases hexec
    exact ⟨h', hcontrols'⟩
  refine joining.wp_seq hs hexact fun removed s₁ hs₁ h₁ => ?_
  cases removed with
  | false => exact h₁.1.silent
  | true => exact joining.wp_seq hs₁ (wp_claimOwn nofun h₁.1 h₁.2) fun _ _ _ h => h.1.silent

theorem wp_disposeEffect (hs : Sound s) (h : Idle p s)
    (hcontrols : Controls .dispose (s.occurrence t)) :
    joining.wp p (disposeEffect t) (fun _ s' => Silent p s') s := by
  refine joining.wp_seq hs (wp_claimOwn nofun h hcontrols) fun found s₁ hs₁ h₁ => ?_
  cases found with
  | none => exact h₁.1.silent
  | some cleanup =>
      rcases h₁.2 cleanup rfl with ⟨⟨control, rfl⟩, hcommitted, hclaimed⟩
      have hdetach : joining.wp p (perform (.detach t (.registered control) false))
          (fun _ s' => Idle p s') s₁ := by
        rcases Option.ne_none_iff_exists'.mp hclaimed with ⟨claimant, hclaimant⟩
        refine wp_fork rfl rfl (fun s' hk _ => due_of_silent ⟨hk.cleanup t _ hcommitted, nofun⟩
          (h₁.1.keeps hk).silent) fun s' u c s'' ret hk _ hexec _ hblank => ?_
        have h' := h₁.1.keeps hk
        have hcommitted' := hk.cleanup t _ hcommitted
        have hclaimant' := hk.claimant t _ hclaimant
        cases hexec
        refine ⟨⟨hblank.1, hcommitted', ?_, nofun⟩, h'⟩
        show (s'.occurrence t).claimant ≠ none
        rw [hclaimant']
        nofun
      refine joining.wp_seq hs₁ hdetach fun _ s₂ hs₂ h₂ => ?_
      exact joining.wp_mono hs₂ (wp_awaitOutcome stable_idle hs₂ h₂) fun _ _ _ h => h.1.silent

end Tasks
end CordisCore
