import CordisCore.Custody.Rules

/-!
# Custody of targets, exit rechecks and kicks

A pass that reads another live target than the applied one has found a cause.
-/

namespace CordisCore
namespace Runtime
namespace Custody

open Interleaving
open Interleaving.Program (iterate)

variable {p : Party} {f : FiberId} {s : Reel}

/-! ## The live target -/

theorem clean_hasCommittedRecheck : Clean p (hasCommittedRecheck f) :=
  .bind (clean_op rfl) fun _ => .bind (clean_op rfl) fun _ => .pure _

theorem clean_readAssignments {edges : List DependencyEdge} : Clean p (readAssignments edges) := by
  induction edges with
  | nil => exact .pure _
  | cons edge edges ih => exact .bind (clean_op rfl) fun _ => .bind ih fun _ => .pure _

theorem clean_computeTarget : Clean p (computeTarget f) :=
  .bind (clean_op rfl) fun _ => .bind (clean_op rfl) fun _ =>
    .bind clean_readAssignments fun _ => .pure _

/-- A look at a part of the live target finds what the applied target says, or a cause. -/
theorem wp_glance {op : Op} {target : SemanticTarget} {K : op.Ret → Prop}
    (hop : loose op = true) (hp : Holds p s f) (hlast : lastApply f s.film = some target)
    (hK : ∀ {s' : Reel} {q c state r}, Beside p (fun _ => False) s s' →
      exec p q c op s'.state = some (state, r) → liveTarget s'.state f = some target → K r) :
    custody.wp p (perform op) (fun r s' =>
      Beside p (fun _ => False) s s' ∧ (Caused f s'.film ∨ K r)) s := by
  have hloose := loose_iff.mp hop
  refine wp_op hloose.forks fun s' hr _ => ⟨hloose.cleared, ?_⟩
  intro q c state r ha hexec
  have hbeside : Beside p (fun _ => False) s' (s'.shoot p op r state) := hloose.beside ha hexec
  have hlast' : lastApply f s'.film = some target :=
    (hr.beside.unapplied id hp).lastApply.trans hlast
  refine ⟨hr.beside.trans hbeside, ?_⟩
  by_cases hlive : liveTarget s'.state f = some target
  · exact .inr (hK hr.beside hexec hlive)
  · exact .inl ⟨applied_eq_none (by rw [hloose.slot]; nofun), .inr (.inr ⟨target, hlast', hlive⟩)⟩

theorem assignments_of_live {s : Root} {target : SemanticTarget}
    (h : liveTarget s f = some target) : target.assignments = s.assignments f ∧
      (s.fibers f).effectiveInput = some target.input := by
  unfold liveTarget at h
  rcases Option.map_eq_some_iff.mp h with ⟨input, hinput, rfl⟩
  exact ⟨rfl, hinput⟩

theorem wp_readAssignments {before after : List DependencyEdge} {target : SemanticTarget}
    (hs : Custody s) (hp : Holds p s f) (hlast : lastApply f s.film = some target)
    (hedges : (s.state.fibers f).edges = before ++ after)
    (hlength : target.assignments.length = before.length + after.length) :
    custody.wp p (readAssignments after) (fun assignments s' =>
      Beside p (fun _ => False) s s' ∧
        (Caused f s'.film ∨ assignments = target.assignments.drop before.length)) s := by
  induction after generalizing s before with
  | nil =>
      refine ⟨Beside.refl _ _ _, .inr ?_⟩
      exact (List.drop_eq_nil_of_le (Nat.le_of_eq hlength)).symm
  | cons edge after ih =>
      have hborn := lt_of_holds hp
      have hglance : custody.wp p (perform (.occurrenceId edge)) (fun publication s' =>
          Beside p (fun _ => False) s s' ∧ (Caused f s'.film ∨
            target.assignments.drop before.length =
              (edge, publication) :: target.assignments.drop (before.length + 1))) s := by
        refine wp_glance rfl hp hlast fun {s' q c state r} hb hexec hlive => ?_
        simp only [exec, guarded] at hexec
        split at hexec <;> simp only [Option.some.injEq, Prod.mk.injEq, reduceCtorEq] at hexec
        have hall := (assignments_of_live hlive).1
        rw [Root.assignments, (hb.declared f hborn).1, hedges, List.map_append] at hall
        rw [hall, ← hexec.2]
        simp [List.drop_append]
      refine custody.wp_seq hs hglance ?_
      intro publication s₁ hs₁ hb
      have hp₁ : Holds p s₁ f := (hb.1.holds f id).mpr hp
      have hlast₁ := (hb.1.unapplied id hp).lastApply.trans hlast
      have hedges₁ : (s₁.state.fibers f).edges = (before ++ [edge]) ++ after := by
        rw [(hb.1.declared f hborn).1, hedges, List.append_assoc]
        rfl
      have hlength₁ : target.assignments.length = (before ++ [edge]).length + after.length := by
        rw [hlength, List.length_append, List.length_cons, List.length_singleton]
        omega
      refine custody.wp_seq hs₁ (ih hs₁ hp₁ hlast₁ hedges₁ hlength₁) ?_
      intro assignments s₂ hs₂ hb₂
      have hunapplied := hb₂.1.unapplied id hp₁
      refine ⟨hb.1.trans hb₂.1, ?_⟩
      rcases hb.2 with hcaused | hhead
      · exact .inl (hunapplied.caused hcaused)
      · refine hb₂.2.imp_right fun htail => ?_
        rw [List.length_append, List.length_singleton] at htail
        rw [hhead, htail]

/-- Another live target than the applied one is a cause for another apply. -/
theorem wp_computeTarget (hs : Custody s) (hp : Holds p s f) :
    custody.wp p (computeTarget f) (fun live s' => Beside p (fun _ => False) s s' ∧
      ∀ target, lastApply f s.film = some target → live ≠ target → Caused f s'.film) s := by
  cases hlast : lastApply f s.film with
  | none =>
      refine custody.wp_mono hs (clean_computeTarget s hs) fun _ _ _ hb => ⟨hb, nofun⟩
  | some target =>
      have hborn := lt_of_holds hp
      have hinput : custody.wp p (on f .effectiveInput) (fun input s' =>
          Beside p (fun _ => False) s s' ∧ (Caused f s'.film ∨ input = target.input ∧
            target.assignments.length = (s.state.fibers f).edges.length)) s := by
        refine wp_glance rfl hp hlast fun {s' q c state r} hb hexec hlive => ?_
        have hall := assignments_of_live hlive
        have hstep := exec_on hexec
        simp only [FiberOp.exec, Option.map_eq_some_iff, Prod.mk.injEq] at hstep
        rcases hstep with ⟨input, hread, -, rfl⟩
        refine ⟨Option.some.inj (hread.symm.trans hall.2), ?_⟩
        rw [hall.1, Root.assignments, List.length_map, (hb.declared f hborn).1]
      have hedges : ∀ s₁, Beside p (fun _ => False) s s₁ → Custody s₁ →
          custody.wp p (on f .dependencyEdges) (fun edges s' =>
            Beside p (fun _ => False) s₁ s' ∧ edges = (s.state.fibers f).edges) s₁ := by
        intro s₁ hb₁ _
        have hloose : Loose (.on f .dependencyEdges) := loose_iff.mp rfl
        refine wp_op rfl fun s' hr _ => ⟨hloose.cleared, ?_⟩
        intro q c state r ha hexec
        have hbeside : Beside p (fun _ => False) s' (s'.shoot p (.on f .dependencyEdges) r state) :=
          hloose.beside ha hexec
        have hstep := exec_on hexec
        simp only [FiberOp.exec, Option.some.injEq, Prod.mk.injEq] at hstep
        refine ⟨hr.beside.trans hbeside, hstep.2.symm.trans ?_⟩
        exact ((hb₁.trans hr.beside).declared f hborn).1
      refine custody.wp_seq hs hinput ?_
      intro input s₁ hs₁ h₁
      refine custody.wp_seq hs₁ (hedges s₁ h₁.1 hs₁) ?_
      rintro edges s₂ hs₂ ⟨hb₂, rfl⟩
      have hb : Beside p (fun _ => False) s s₂ := h₁.1.trans hb₂
      have hp₁ : Holds p s₁ f := (h₁.1.holds f id).mpr hp
      have hp₂ : Holds p s₂ f := (hb.holds f id).mpr hp
      have hlast₂ := (hb.unapplied id hp).lastApply.trans hlast
      rcases h₁.2 with hcaused | ⟨hsame, hlength⟩
      · -- the cause is found already
        refine custody.wp_seq hs₂ (clean_readAssignments s₂ hs₂) ?_
        intro assignments s₃ _ hb₃
        refine ⟨hb.trans hb₃, fun _ _ _ => ?_⟩
        exact ((hb₂.unapplied id hp₁).trans (hb₃.unapplied id hp₂)).caused hcaused
      · have hedges₂ : (s₂.state.fibers f).edges = [] ++ (s.state.fibers f).edges :=
          (hb.declared f hborn).1
        have hlength₂ : target.assignments.length =
            ([] : List DependencyEdge).length + (s.state.fibers f).edges.length := by
          rw [hlength, List.length_nil, Nat.zero_add]
        refine custody.wp_seq hs₂ (wp_readAssignments hs₂ hp₂ hlast₂ hedges₂ hlength₂) ?_
        intro assignments s₃ _ h₃
        refine ⟨hb.trans h₃.1, fun other hother hne => ?_⟩
        obtain rfl : target = other := Option.some.inj hother
        refine h₃.2.resolve_right fun hassignments => hne ?_
        rw [hsame, hassignments]
        rfl

/-! ## Claims and exit rechecks -/

/-- An operation of the holder, with what it does to the view and tells about it. -/
theorem wp_on {op : FiberOp} (hs : Custody s) (hp : Holds p s f)
    (hinside : op.inside = true)
    (hpublish : ∀ next, op = .publish next → (view s f).Publishes next) :
    custody.wp p (on f op) (fun r s' => Within p f s s' ∧ view s' f = op.onView (view s f) ∧
      op.tells r (view s f)) s := by
  refine custody.wp_mono hs (wp_inside hinside hp hpublish) ?_
  rintro r s' _ ⟨hw, hview, htells, -⟩
  exact ⟨hw, hview, htells⟩

theorem wp_claim :
    custody.wp p (claim f) (fun _ s' => Claimed p f s s') s := by
  refine custody.wp_iterate (fun _ s' => Beside p (fun _ => False) s s') (Beside.refl p _ s) ?_
  intro _ s₁ hs₁ hb₁
  refine custody.wp_seq hs₁ wp_tryClaim ?_
  intro won s₂ hs₂ hwon
  cases won with
  | true =>
      have hb : Beside p (fun g => g = f) s s₁ := hb₁.mono fun _ hF => hF.elim
      exact ⟨fun hheld => hwon.unheld ((hb₁.holds f id).mpr hheld), hb.trans hwon.beside,
        hwon.holds, hwon.rest⟩
  | false =>
      have hb₂ : Beside p (fun _ => False) s₁ s₂ := hwon
      refine custody.wp_seq hs₂ (clean_op rfl s₂ hs₂) ?_
      intro _ s₃ _ hb₃
      exact hb₁.trans (hb₂.trans hb₃)

/-- The slot was kept, and another live target was recorded. -/
structure Redirected (p : Party) (f : FiberId) (settled : SemanticTarget) (s s' : Reel) : Prop where
  within : Within p f s s'
  recorded : ∃ live, view s' f = { view s f with target := some live }
  caused : lastApply f s.film = some settled → Caused f s'.film

theorem wp_exitRecheck {settled : SemanticTarget} {revision : Nat} (hp : Holds p s f)
    (hrest : Rest f s) :
    custody.wp p (exitRecheck f settled revision) (fun kept s' =>
      if kept then Redirected p f settled s s' else Vacated p f (view s f) s s') s := by
  refine custody.wp_iterate
    (fun _ s' => Within p f s s' ∧ view s' f = view s f ∧ Rest f s')
    ⟨Within.refl hp, rfl, hrest⟩ ?_
  rintro revision s₁ hs₁ ⟨hw₁, hv₁, hr₁⟩
  refine custody.wp_seq hs₁ (wp_on hs₁ hw₁.holds rfl nofun) ?_
  rintro _ s₂ hs₂ ⟨hw₂, hv₂, -⟩
  refine custody.wp_seq hs₂ (wp_computeTarget hs₂ hw₂.holds) ?_
  rintro live s₃ hs₃ ⟨hb₃, hcause⟩
  have hw₃ : Within p f s₂ s₃ := Within.of_beside hb₃ hw₂.holds
  have hv₃ : view s₃ f = view s₂ f := hb₃.view f id hw₂.holds
  refine custody.wp_seq hs₃ (wp_on hs₃ hw₃.holds rfl nofun) ?_
  rintro observed s₄ hs₄ ⟨hw₄, hv₄, -⟩
  have hw : Within p f s s₄ := hw₁.trans (hw₂.trans (hw₃.trans hw₄))
  have hv : view s₄ f = view s f := hv₄.trans (hv₃.trans (hv₂.trans hv₁))
  have hlast : lastApply f s₂.film = lastApply f s.film :=
    (hw₁.trans hw₂).unapplied.lastApply
  -- the live target has moved: the slot is kept and the target recorded
  by_cases hlive : live ≠ settled
  · rw [if_pos hlive]
    refine custody.wp_seq hs₄ (wp_on hs₄ hw₄.holds rfl nofun) ?_
    rintro _ s₅ hs₅ ⟨hw₅, hv₅, -⟩
    refine custody.wp_seq hs₅ (wp_on hs₅ hw₅.holds rfl nofun) ?_
    rintro _ s₆ _ ⟨hw₆, hv₆, -⟩
    refine ⟨hw.trans (hw₅.trans hw₆), ⟨live, ?_⟩, fun hsettled => ?_⟩
    · exact hv₆.trans (hv₅.trans (congrArg _ hv))
    · have hcaused := hcause settled (hlast.trans hsettled) hlive
      exact (hw₄.trans (hw₅.trans hw₆)).unapplied.caused hcaused
  · rw [if_neg hlive]
    -- a kick came in between: look again
    by_cases hobserved : observed ≠ revision
    · rw [if_pos hobserved]
      exact ⟨hw, hv, hrest.kept hw.unapplied hv⟩
    · rw [if_neg hobserved]
      refine custody.wp_seq hs₄ (wp_on hs₄ hw₄.holds rfl nofun) ?_
      rintro _ s₅ hs₅ ⟨hw₅, hv₅, -⟩
      have hw' : Within p f s s₅ := hw.trans hw₅
      have hv' : view s₅ f = view s f := hv₅.trans hv
      refine custody.wp_seq hs₅ (wp_release hw₅.holds (hrest.kept hw'.unapplied hv')) ?_
      intro word s₆ hs₆ hword
      cases word with
      | releasing =>
          have hreleased : Vacated p f (view s f) s₅ s₆ := hv' ▸ hword
          exact hreleased.after hw'.beside
      | active =>
          have hv₆ : view s₆ f = view s f := hword.2.trans hv'
          refine custody.wp_seq hs₆ (wp_on hs₆ hword.1.holds rfl nofun) ?_
          rintro _ s₇ _ ⟨hw₇, hv₇, -⟩
          have hw'' : Within p f s s₇ := hw'.trans (hword.1.trans hw₇)
          exact ⟨hw'', hv₇.trans hv₆, hrest.kept hw''.unapplied (hv₇.trans hv₆)⟩
      | idle => exact hword.elim

/-- Whoever was redirected may go on toward the recorded target. -/
theorem Redirected.drifted {settled : SemanticTarget} {s' : Reel} (hrest : Rest f s)
    (htarget : (view s f).target = some settled) (h : Redirected p f settled s s') :
    Drifted f s' := by
  rcases h.recorded with ⟨live, hview⟩
  exact hrest.drifted h.within.unapplied hview fun hsame =>
    .inr (h.caused (hsame.symm.trans htarget))

/-! ## Kicks -/

/-- A kick gives the slot it won away again. -/
theorem wp_kickClaimed (hs : Custody s) (hp : Holds p s f) (hrest : Rest f s) :
    custody.wp p (kickClaimed f) (fun _ s' => Gone p f s s') s := by
  refine custody.wp_seq hs (wp_on hs hp rfl nofun) ?_
  rintro revision s₁ hs₁ ⟨hw₁, hv₁, -⟩
  refine custody.wp_seq hs₁ (wp_on hs₁ hw₁.holds rfl nofun) ?_
  rintro target s₂ hs₂ ⟨hw₂, hv₂, htarget⟩
  have hw : Within p f s s₂ := hw₁.trans hw₂
  have hv : view s₂ f = view s f := hv₂.trans hv₁
  have hrest₂ : Rest f s₂ := hrest.kept hw.unapplied hv
  have hrecorded : (view s₂ f).target = target := (congrArg View.target hv₂).trans htarget.symm
  cases target with
  | some settled =>
      refine custody.wp_seq hs₂ (wp_exitRecheck hw₂.holds hrest₂) ?_
      intro kept s₃ hs₃ hkept
      cases kept with
      | false => exact (hkept.after hw.beside).gone
      | true =>
          have hdrifted : Drifted f s₃ := Redirected.drifted hrest₂ hrecorded hkept
          refine custody.wp_seq hs₃ (wp_forkConvergence hkept.within.holds hdrifted) ?_
          intro _ s₄ _ hgone
          exact hgone.after (hw.trans hkept.within).beside
  | none =>
      refine custody.wp_seq hs₂ (clean_computeTarget s₂ hs₂) ?_
      intro live s₃ hs₃ hb₃
      have hw₃ : Within p f s₂ s₃ := Within.of_beside hb₃ hw₂.holds
      have hv₃ : view s₃ f = view s₂ f := hb₃.view f id hw₂.holds
      refine custody.wp_seq hs₃ (wp_on hs₃ hw₃.holds rfl nofun) ?_
      rintro _ s₄ hs₄ ⟨hw₄, hv₄, -⟩
      have hview : view s₄ f = { view s₂ f with target := some live } := by
        rw [hv₄, hv₃]
        rfl
      have hunapplied := (hw₃.trans hw₄).unapplied
      have hdrifted : Drifted f s₄ := by
        refine hrest₂.drifted hunapplied hview fun hsame => ?_
        -- nothing was ever recorded, so nothing was ever applied
        have hnone : lastApply f s₂.film = none := hsame.symm.trans hrecorded
        exact .inl (hunapplied.lastApply.trans hnone)
      refine custody.wp_seq hs₄ (wp_forkConvergence hw₄.holds hdrifted) ?_
      intro _ s₅ _ hgone
      exact hgone.after (hw.trans (hw₃.trans hw₄)).beside

theorem clean_kickOnce {revision : Nat} : Clean p (kickOnce f revision) := by
  refine .bind (clean_op rfl) fun word => ?_
  cases word with
  | active => exact .pure _
  | releasing =>
      refine .bind (clean_op rfl) fun taken => ?_
      cases taken <;> exact .pure _
  | idle =>
      refine .bind (clean_op rfl) fun current => ?_
      cases current with
      | false => exact .pure _
      | true =>
          intro s _
          refine custody.wp_seq ‹_› wp_tryClaim ?_
          intro won s₁ hs₁ hwon
          cases won with
          | false => exact hwon
          | true =>
              refine custody.wp_seq hs₁ (wp_on hs₁ hwon.holds rfl nofun) ?_
              rintro _ s₂ hs₂ ⟨hw₂, hv₂, -⟩
              have hrest₂ : Rest f s₂ := hwon.rest.kept hw₂.unapplied hv₂
              refine custody.wp_seq hs₂ (wp_kickClaimed hs₂ hw₂.holds hrest₂) ?_
              intro _ s₃ _ hgone
              exact hwon.restored (hgone.after hw₂.beside)

theorem clean_kick {revision : Nat} : Clean p (kick f revision) := by
  refine .bind ?_ fun _ => clean_op rfl
  refine .bind (clean_op rfl) fun alive => ?_
  cases alive with
  | false => exact .pure _
  | true =>
      refine .bind clean_hasCommittedRecheck fun outstanding => ?_
      cases outstanding with
      | false => exact .pure _
      | true => exact .iterate fun _ => clean_kickOnce

theorem clean_kickAll {drift : List (FiberId × Nat)} : Clean p (kickAll drift) := by
  induction drift with
  | nil => exact .pure _
  | cons row rest ih => exact .bind clean_kick fun _ => ih

end Custody
end Runtime
end CordisCore
