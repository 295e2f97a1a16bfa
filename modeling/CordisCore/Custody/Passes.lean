import CordisCore.Custody.Settling

/-!
# Custody of passes — disposals, convergence, replacements and the initial pass

Every pass that goes around settles toward a target that differs from the applied one.
-/

namespace CordisCore
namespace Runtime
namespace Custody

open Interleaving
open Interleaving.Program (iterate)

variable {p : Party} {f : FiberId} {s : Reel}

/-! ## Terminal disposal -/

/-- Whoever disposes of the Fiber returns past the one complete barrier. -/
theorem wp_dispose (hs : Custody s) : custody.wp p (dispose f) (fun _ s' =>
    Beside p (fun _ => False) s s' ∧ Complete f s'.state) s := by
  refine custody.wp_seq hs wp_loadComplete ?_
  rintro complete s₀ hs₀ ⟨hb₀, hcomplete₀⟩
  cases complete with
  | true => exact ⟨hb₀, hcomplete₀ rfl⟩
  | false =>
      refine custody.wp_seq hs₀ wp_claim ?_
      intro _ s₁ hs₁ hclaimed
      refine custody.wp_seq hs₁ wp_loadComplete ?_
      rintro complete s₂ hs₂ ⟨hb₂, hcomplete₂⟩
      have hw₂ : Within p f s₁ s₂ := Within.of_beside hb₂ hclaimed.holds
      have hrest₂ : Rest f s₂ := hclaimed.rest.beside hb₂ hclaimed.holds
      cases complete with
      | true =>
          refine custody.wp_mono hs₂ (wp_abandon hs₂ hw₂.holds hrest₂) ?_
          intro _ s₃ _ hgone
          exact ⟨hb₀.trans (hclaimed.restored (hgone.after hw₂.beside)),
            (hgone.beside.onward f).complete (hcomplete₂ rfl)⟩
      | false =>
          refine custody.wp_seq hs₂ (wp_on hs₂ hw₂.holds rfl nofun) ?_
          rintro disposing s₃ hs₃ ⟨hw₃, hv₃, -⟩
          have hw : Within p f s₁ s₃ := hw₂.trans hw₃
          cases disposing with
          | true =>
              refine custody.wp_seq hs₃ (wp_abandon hs₃ hw.holds (hrest₂.kept hw₃.unapplied hv₃)) ?_
              intro _ s₄ hs₄ hgone
              refine custody.wp_mono hs₄ wp_waitDisposeComplete ?_
              rintro _ s₅ _ ⟨hb₅, hcomplete⟩
              have hend := hclaimed.restored ((hgone.before hb₅).after hw.beside)
              exact ⟨hb₀.trans hend, hcomplete⟩
          | false =>
              refine custody.wp_seq hs₃ (clean_op rfl s₃ hs₃) ?_
              intro _ s₄ hs₄ hb₄
              have hw₄ : Within p f s₁ s₄ := hw.trans (Within.of_beside hb₄ hw.holds)
              refine custody.wp_mono hs₄ (wp_completeClaimedDispose hs₄ hw₄.holds) ?_
              rintro _ s₅ _ ⟨hgone, hcomplete⟩
              exact ⟨hb₀.trans (hclaimed.restored (hgone.after hw₄.beside)), hcomplete⟩

theorem clean_dispose : Clean p (dispose f) := by
  intro s hs
  exact custody.wp_mono hs (wp_dispose hs) fun _ _ _ hb => hb.1

/-! ## After a settle pass -/

theorem Passed.tied {target : SemanticTarget} {s' : Reel} (h : Passed p f target s s')
    (he : Excused f s ∨ (view s f).alive = false) :
    Excused f s' ∨ (view s' f).alive = false ∨ lastApply f s'.film = some target := by
  rcases h.moved with hunapplied | hlast
  · rcases he with hexcused | hdead
    · exact .inl (hunapplied.excused hexcused)
    · exact .inr (.inl (h.alive.trans hdead))
  · exact .inr (.inr hlast.2)

/-- The target that was settled toward is the recorded one. -/
theorem Passed.rest {target : SemanticTarget} {s' : Reel} (h : Passed p f target s s')
    (he : Excused f s ∨ (view s f).alive = false) (hrecorded : (view s f).target = some target) :
    Rest f s' := by
  refine ⟨h.settled, ?_, h.opened⟩
  rcases h.tied he with hexcused | hdead | hlast
  · exact .inl hexcused
  · exact .inr (.inl hdead)
  · exact .inr (.inr ((h.recorded.trans hrecorded).trans hlast.symm))

/-! ## Convergence -/

/-- The Fiber is in hand and may be settled. -/
structure InHand (p : Party) (f : FiberId) (s s' : Reel) : Prop where
  beside : Beside p (fun g => g = f) s s'
  holds : Holds p s' f
  drifted : Drifted f s'

theorem InHand.keep {s' s'' : Reel} (h : InHand p f s s') (hw : Within p f s' s'')
    (hv : view s'' f = view s' f) : InHand p f s s'' :=
  ⟨h.beside.trans hw.beside, hw.holds, h.drifted.kept hw.unapplied hv⟩

theorem wp_convergencePass (hp : Holds p s f) (hd : Drifted f s) :
    custody.wp p (convergencePass f) (fun _ s' => Gone p f s s') s := by
  refine custody.wp_iterate (fun _ s' => InHand p f s s') ⟨Beside.refl _ _ _, hp, hd⟩ ?_
  intro _ s₁ hs₁ h₁
  refine custody.wp_seq hs₁ (wp_on hs₁ h₁.holds rfl nofun) ?_
  rintro revision s₂ hs₂ ⟨hw₂, hv₂, -⟩
  refine custody.wp_seq hs₂ (wp_on hs₂ hw₂.holds rfl nofun) ?_
  rintro recorded s₃ hs₃ ⟨hw₃, hv₃, htells⟩
  have h₃ : InHand p f s s₃ := h₁.keep (hw₂.trans hw₃) (hv₃.trans hv₂)
  have hrecorded : (view s₃ f).target = recorded := (congrArg View.target hv₃).trans htells.symm
  cases recorded with
  | none =>
      have hsome := h₃.drifted.recorded
      rw [hrecorded] at hsome
      cases hsome
  | some target =>
      refine custody.wp_seq hs₃ (wp_settleOnce hs₃ h₃.holds h₃.drifted.settled
        h₃.drifted.excused h₃.drifted.opened nofun) ?_
      intro _ s₄ hs₄ hpassed
      refine custody.wp_seq hs₄ (wp_computeTarget hs₄ hpassed.holds) ?_
      rintro live s₅ hs₅ ⟨hb₅, hcause⟩
      have hw₅ : Within p f s₄ s₅ := Within.of_beside hb₅ hpassed.holds
      have hv₅ : view s₅ f = view s₄ f := hb₅.view f id hpassed.holds
      have hrest₅ : Rest f s₅ := (hpassed.rest h₃.drifted.excused hrecorded).kept hw₅.unapplied hv₅
      have hrecorded₅ : (view s₅ f).target = some target := by
        rw [hv₅, hpassed.recorded, hrecorded]
      have hb : Beside p (fun g => g = f) s s₅ :=
        h₃.beside.trans (hpassed.beside.trans hw₅.beside)
      split
      · rename_i hlive
        refine custody.wp_seq hs₅ (wp_on hs₅ hw₅.holds rfl nofun) ?_
        rintro _ s₆ _ ⟨hw₆, hv₆, -⟩
        refine ⟨hb.trans hw₆.beside, hw₆.holds, ?_⟩
        refine hrest₅.drifted hw₆.unapplied hv₆ fun hsame => ?_
        have hlast : lastApply f s₅.film = some target := hsame.symm.trans hrecorded₅
        have hcaused := hcause target (hw₅.unapplied.lastApply.symm.trans hlast) hlive
        exact .inr (hw₆.unapplied.caused hcaused)
      · refine custody.wp_seq hs₅ (wp_exitRecheck hw₅.holds hrest₅) ?_
        intro kept s₆ _ hkept
        cases kept with
        | true =>
            exact ⟨hb.trans hkept.within.beside, hkept.within.holds,
              Redirected.drifted hrest₅ hrecorded₅ hkept⟩
        | false => exact (hkept.after hb).gone

/-! ## Restart and update -/

/-- A replacement is a cause for an apply. -/
theorem wp_replace (hp : Holds p s f) :
    custody.wp p (on f (.swapGated .generationReplacing)) (fun _ s' => Within p f s s' ∧
      view s' f = view s f ∧ Caused f s'.film ∧ Lately (Commits p f) s s') s := by
  refine wp_op rfl fun s' hr _ => ?_
  refine ⟨⟨rfl, ?_, nofun, nofun, nofun, nofun, nofun⟩, ?_⟩
  · intro g hop
    rcases hop with hop | hop <;> cases hop
  intro q c state r ha hexec
  have hp' : Holds p s' f := (hr.beside.holds f id).mpr hp
  have hborn := lt_of_holds hp'
  have hbeside : Beside p (fun g => g = f) s'
      (s'.shoot p (.on f (.swapGated .generationReplacing)) r state) :=
    beside_of_exec ha hexec rfl nofun (fun g hg => (Option.some.inj hg).symm)
      (fun g hg => nomatch hg) (fun g hg => nomatch hg) rfl
  have hview : (state.fibers f).view = view s' f := (FiberOp.exec_view rfl (exec_on hexec)).1
  have hcommit : Lately (Commits p f) s'
      (s'.shoot p (.on f (.swapGated .generationReplacing)) r state) :=
    ⟨[_], rfl, _, List.mem_singleton_self _, rfl, rfl⟩
  refine ⟨(Within.of_waits hr hp).trans ⟨hbeside, ?_, unapplied_shoot hexec hborn rfl nofun⟩,
    hview.trans (hr.beside.view f id hp), ⟨rfl, .inr (.inl rfl)⟩, hcommit.after hr.beside.grows⟩
  exact (holds_shoot ha hexec nofun).mpr hp'

/-- The new input is committed under the slot. -/
theorem wp_commitChange (hp : Holds p s f) :
    custody.wp p (perform (.commitChange f)) (fun _ s' => Within p f s s' ∧
      view s' f = view s f ∧ Lately (Changes p f) s s') s := by
  refine wp_op rfl fun s' hr _ => ?_
  refine ⟨⟨rfl, by simp, by simp, by simp, by simp, by simp, by simp⟩, ?_⟩
  intro q c state r ha hexec
  have hp' : Holds p s' f := (hr.beside.holds f id).mpr hp
  have hborn := lt_of_holds hp'
  have hbeside : Beside p (fun g => g = f) s' (s'.shoot p (.commitChange f) r state) :=
    beside_of_exec ha hexec rfl (by simp) (fun g hg => (Option.some.inj hg).symm)
      (by rintro _ ⟨⟩) (by rintro _ ⟨⟩) rfl
  have hview : (state.fibers f).view = view s' f := by
    simp only [exec, Option.some.injEq, Prod.mk.injEq] at hexec
    rw [← hexec.1]
    show ((s'.state.put f _).fibers f).view = _
    rw [Root.fibers_put]
    rfl
  have hchange : Lately (Changes p f) s' (s'.shoot p (.commitChange f) r state) :=
    ⟨[_], rfl, _, List.mem_singleton_self _, rfl, rfl⟩
  refine ⟨(Within.of_waits hr hp).trans ⟨hbeside, ?_, unapplied_shoot hexec hborn rfl (by simp)⟩,
    hview.trans (hr.beside.view f id hp), hchange.after hr.beside.grows⟩
  exact (holds_shoot ha hexec (by simp [handles])).mpr hp'

/-- The replacement settled so, and was given away so. -/
structure Replaced (p : Party) (f : FiberId) (report : View → Prop) (s s' : Reel) : Prop where
  gone : Gone p f s s'
  hand : ∃ v, Lately (Hand p f v) s s' ∧ Settled v ∧ v.alive = true ∧ report v

/-- The committed replacement settles, reports what it finds under the slot and gives the slot
away like that. -/
theorem wp_replacementCommitted {α : Type} {result : Prog α} {report : α → View → Prop}
    {target : SemanticTarget} {revision : Nat}
    (hresult : ∀ v₀, Under p f result (fun v => v = v₀) fun a v => v = v₀ ∧ report a v)
    (hp : Holds p s f) (hd : Drifted f s) (htarget : (view s f).target = some target)
    (halive : (view s f).alive = true) :
    custody.wp p (replacementCommitted f result target revision)
      (fun a s' => Replaced p f (report a) s s') s := by
  refine custody.wp_iterate (fun round s' => InHand p f s s' ∧
    (view s' f).target = some round.1 ∧ (view s' f).alive = true)
    ⟨⟨Beside.refl _ _ _, hp, hd⟩, htarget, halive⟩ ?_
  rintro ⟨target, revision⟩ s₁ hs₁ ⟨h₁, hrecorded, halive₁⟩
  have hrecorded : (view s₁ f).target = some target := hrecorded
  refine custody.wp_seq hs₁ (wp_settleOnce hs₁ h₁.holds h₁.drifted.settled h₁.drifted.excused
    h₁.drifted.opened nofun) ?_
  intro _ s₂ hs₂ hpassed
  refine custody.wp_seq hs₂ (hresult (view s₂ f) s₂ hs₂ hpassed.holds rfl) ?_
  rintro settled s₃ hs₃ ⟨hw₃, hv₃, hsays⟩
  have hrest₃ : Rest f s₃ := (hpassed.rest h₁.drifted.excused hrecorded).kept hw₃.unapplied hv₃
  have hrecorded₃ : (view s₃ f).target = some target := by rw [hv₃, hpassed.recorded, hrecorded]
  have halive₃ : (view s₃ f).alive = true := by rw [hv₃, hpassed.alive, halive₁]
  have hb : Beside p (fun g => g = f) s s₃ := h₁.beside.trans (hpassed.beside.trans hw₃.beside)
  refine custody.wp_seq hs₃ (wp_exitRecheck hw₃.holds hrest₃) ?_
  intro kept s₄ hs₄ hkept
  cases kept with
  | false =>
      have hreleased : Vacated p f (view s₃ f) s s₄ := Vacated.after hkept hb
      exact ⟨hreleased.gone, view s₃ f, hreleased.hand, hrest₃.settled, halive₃, hsays⟩
  | true =>
      have h₄ : InHand p f s s₄ := ⟨hb.trans hkept.within.beside, hkept.within.holds,
        Redirected.drifted hrest₃ hrecorded₃ hkept⟩
      have halive₄ : (view s₄ f).alive = true := by
        rcases hkept.recorded with ⟨live, hview⟩
        rw [hview]
        exact halive₃
      refine custody.wp_seq hs₄ (wp_on hs₄ h₄.holds rfl nofun) ?_
      rintro revision s₅ hs₅ ⟨hw₅, hv₅, -⟩
      refine custody.wp_seq hs₅ (clean_computeTarget s₅ hs₅) ?_
      intro target s₆ hs₆ hb₆
      have hw₆ : Within p f s₅ s₆ := Within.of_beside hb₆ hw₅.holds
      have hv₆ : view s₆ f = view s₄ f := (hb₆.view f id hw₅.holds).trans hv₅
      have h₆ : InHand p f s s₆ := h₄.keep (hw₅.trans hw₆) hv₆
      refine custody.wp_seq hs₆ (wp_on hs₆ h₆.holds rfl nofun) ?_
      rintro _ s₇ _ ⟨hw₇, hv₇, -⟩
      have hv₇ : view s₇ f = { view s₆ f with target := some target } := hv₇
      refine ⟨⟨h₆.beside.trans hw₇.beside, hw₇.holds, ?_⟩, congrArg View.target hv₇, ?_⟩
      · exact h₆.drifted.retarget hw₇.unapplied hv₇
      · rw [hv₇, hv₆]
        exact halive₄

/-- What a restart reports about the view it leaves. -/
def restartSays : Except RestartError Unit → View → Prop
  | .ok (), v => v.error = none
  | .error (.apply failure), v => v.error = some failure
  | .error _, _ => True

theorem under_restartResult {v₀ : View} :
    Under p f (restartResult f) (fun v => v = v₀) fun a v => v = v₀ ∧ restartSays a v := by
  have hread : Under p f (on f .readError) (fun v => v = v₀)
      fun parked v => v = v₀ ∧ parked = v.error :=
    Under.on rfl nofun fun v r hv htells => ⟨hv, htells⟩
  refine .bind hread fun parked => ?_
  cases parked with
  | some failure => exact .pure fun v hv => ⟨hv.1, hv.2.symm⟩
  | none => exact .pure fun v hv => ⟨hv.1, hv.2.symm⟩

/-- What an update reports about the view it leaves. -/
def updateSays : Except UpdateError FiberState → View → Prop
  | .ok state, v => v.error = none ∧ v.state = state
  | .error (.apply failure), v => v.error = some failure
  | .error _, _ => True

theorem under_updateResult {v₀ : View} :
    Under p f (updateResult f) (fun v => v = v₀) fun a v => v = v₀ ∧ updateSays a v := by
  have hread : Under p f (on f .readError) (fun v => v = v₀)
      fun parked v => v = v₀ ∧ parked = v.error :=
    Under.on rfl nofun fun v r hv htells => ⟨hv, htells⟩
  refine .bind hread fun parked => ?_
  cases parked with
  | some failure => exact .pure fun v hv => ⟨hv.1, hv.2.symm⟩
  | none =>
      have hstate : Under p f (on f .state) (fun v => v = v₀ ∧ none = v.error)
          fun state v => (v = v₀ ∧ none = v.error) ∧ state = v.state :=
        Under.on rfl nofun fun v r hv htells => ⟨hv, htells⟩
      exact .bind hstate fun state => .pure fun v hv => ⟨hv.1.1, hv.1.2.symm, hv.2.symm⟩

/-- The slot is given back when the Fiber is dead already. -/
theorem wp_refuse {α : Type} {refusal : α} (hp : Holds p s f) (hrest : Rest f s) (hs : Custody s) :
    custody.wp p (do
      on f .abandon
      pure refusal : Prog α) (fun a s' => a = refusal ∧ Gone p f s s') s := by
  refine custody.wp_seq hs (wp_abandon hs hp hrest) ?_
  intro _ s₁ _ hgone
  exact ⟨rfl, hgone⟩

/-- A restart answers how the generation it committed has settled. -/
theorem wp_restartPass (hs : Custody s) : custody.wp p (restartPass f) (fun a s' =>
    Beside p (fun _ => False) s s' ∧ Restarted p f s' a) s := by
  refine custody.wp_seq hs wp_claim ?_
  intro _ s₁ hs₁ hclaimed
  refine custody.wp_seq hs₁ (wp_on hs₁ hclaimed.holds rfl nofun) ?_
  rintro alive s₂ hs₂ ⟨hw₂, hv₂, halive⟩
  have hrest₂ : Rest f s₂ := hclaimed.rest.kept hw₂.unapplied hv₂
  have halive₂ : (view s₂ f).alive = alive := (congrArg View.alive hv₂).trans halive.symm
  cases alive with
  | false =>
      refine custody.wp_mono hs₂ (wp_refuse hw₂.holds hrest₂ hs₂) ?_
      rintro _ s₃ _ ⟨rfl, hgone⟩
      exact ⟨hclaimed.restored (hgone.after hw₂.beside), trivial⟩
  | true =>
      refine custody.wp_seq hs₂ (wp_on hs₂ hw₂.holds rfl nofun) ?_
      rintro revision s₃ hs₃ ⟨hw₃, hv₃, -⟩
      refine custody.wp_seq hs₃ (clean_computeTarget s₃ hs₃) ?_
      intro target s₄ hs₄ hb₄
      have hw₄ : Within p f s₃ s₄ := Within.of_beside hb₄ hw₃.holds
      refine custody.wp_seq hs₄ (wp_on hs₄ hw₄.holds rfl nofun) ?_
      rintro _ s₅ hs₅ ⟨hw₅, hv₅, -⟩
      refine custody.wp_seq hs₅ (wp_replace hw₅.holds) ?_
      rintro _ s₆ hs₆ ⟨hw₆, hv₆, hcaused, hcommit⟩
      refine custody.wp_seq hs₆ (clean_op rfl s₆ hs₆) ?_
      intro _ s₇ hs₇ hb₇
      have hw₇ : Within p f s₆ s₇ := Within.of_beside hb₇ hw₆.holds
      have hw : Within p f s₂ s₇ := hw₃.trans (hw₄.trans (hw₅.trans (hw₆.trans hw₇)))
      -- between claim and settling only the target moves
      have hview : view s₇ f = { view s₂ f with target := some target } := by
        rw [hb₇.view f id hw₆.holds, hv₆, hv₅, hb₄.view f id hw₃.holds, hv₃]
        rfl
      have hdrifted : Drifted f s₇ :=
        hrest₂.drifted hw.unapplied hview fun _ => .inr (hw₇.unapplied.caused hcaused)
      have halive₇ : (view s₇ f).alive = true := by
        rw [hview]
        exact halive₂
      refine custody.wp_mono hs₇ (wp_replacementCommitted (fun _ => under_restartResult)
        hw₇.holds hdrifted (congrArg View.target hview) halive₇) ?_
      rintro result s₈ _ ⟨hgone, v, hhand, hsettled, hlive, hsays⟩
      refine ⟨hclaimed.restored (hgone.after (hw₂.trans hw).beside), ?_⟩
      rcases hcommit.shows (hw₆.beside.later hs₅) (List.nil_sublist _) with
        ⟨commit, hcommits, hshows⟩
      have hshows₇ := (hb₇.later hs₆).shows hshows
      rcases hhand.shows (hgone.beside.later hs₇) hshows₇ with ⟨hand, hgives, hall⟩
      have hhanded := hgives.handed hsettled hlive
      cases result with
      | ok done =>
          have herror : v.error = none := hsays
          exact ⟨commit, hand, hall, hcommits, herror ▸ hhanded⟩
      | error refusal =>
          cases refusal with
          | apply failure =>
              have herror : v.error = some failure := hsays
              exact ⟨commit, hand, hall, hcommits, herror ▸ hhanded⟩
          | closed | recursion => trivial

/-- How an update pass answers for the whole update. -/
def updateOutcome : Except UpdateError FiberState → Except UpdateError UpdateOutcome
  | .ok state => .ok (.committed state)
  | .error refusal => .error refusal

/-- An update answers how the input it committed has settled. -/
theorem wp_updatePass (hs : Custody s) : custody.wp p (updatePass f) (fun a s' =>
    Beside p (fun _ => False) s s' ∧ Updated p f s' (updateOutcome a)) s := by
  refine custody.wp_seq hs wp_claim ?_
  intro _ s₁ hs₁ hclaimed
  refine custody.wp_seq hs₁ (wp_on hs₁ hclaimed.holds rfl nofun) ?_
  rintro alive s₂ hs₂ ⟨hw₂, hv₂, halive⟩
  have hrest₂ : Rest f s₂ := hclaimed.rest.kept hw₂.unapplied hv₂
  have halive₂ : (view s₂ f).alive = alive := (congrArg View.alive hv₂).trans halive.symm
  cases alive with
  | false =>
      refine custody.wp_mono hs₂ (wp_refuse hw₂.holds hrest₂ hs₂) ?_
      rintro _ s₃ _ ⟨rfl, hgone⟩
      exact ⟨hclaimed.restored (hgone.after hw₂.beside), trivial⟩
  | true =>
      refine custody.wp_seq hs₂ (wp_replace hw₂.holds) ?_
      -- the commit of the change is what allows the next apply
      rintro _ s₃ hs₃ ⟨hw₃, hv₃, hcaused, hcommit⟩
      refine custody.wp_seq hs₃ (wp_commitChange hw₃.holds) ?_
      rintro _ s₄ hs₄ ⟨hw₄, hv₄, hchange⟩
      refine custody.wp_seq hs₄ (wp_on hs₄ hw₄.holds rfl nofun) ?_
      rintro revision s₅ hs₅ ⟨hw₅, hv₅, -⟩
      refine custody.wp_seq hs₅ (clean_computeTarget s₅ hs₅) ?_
      intro target s₆ hs₆ hb₆
      have hw₆ : Within p f s₅ s₆ := Within.of_beside hb₆ hw₅.holds
      refine custody.wp_seq hs₆ (wp_on hs₆ hw₆.holds rfl nofun) ?_
      rintro _ s₇ hs₇ ⟨hw₇, hv₇, -⟩
      refine custody.wp_seq hs₇ (clean_op rfl s₇ hs₇) ?_
      intro _ s₈ hs₈ hb₈
      have hw₈ : Within p f s₇ s₈ := Within.of_beside hb₈ hw₇.holds
      have hlate : Within p f s₄ s₈ := hw₅.trans (hw₆.trans (hw₇.trans hw₈))
      have hrest : Within p f s₃ s₈ := hw₄.trans hlate
      -- from the commit to the settling only the target moves
      have hview : view s₈ f = { view s₂ f with target := some target } := by
        rw [hb₈.view f id hw₇.holds, hv₇, hb₆.view f id hw₅.holds, hv₅, hv₄, hv₃]
        rfl
      have hdrifted : Drifted f s₈ :=
        hrest₂.drifted (hw₃.trans hrest).unapplied hview fun _ =>
          .inr (hrest.unapplied.caused hcaused)
      have halive₈ : (view s₈ f).alive = true := by
        rw [hview]
        exact halive₂
      refine custody.wp_mono hs₈ (wp_replacementCommitted (fun _ => under_updateResult)
        hw₈.holds hdrifted (congrArg View.target hview) halive₈) ?_
      rintro result s₉ _ ⟨hgone, v, hhand, hsettled, hlive, hsays⟩
      refine ⟨hclaimed.restored (hgone.after (hw₂.trans (hw₃.trans hrest)).beside), ?_⟩
      -- the instants of the call, in order: replacement, change, release of the slot
      rcases hcommit.shows (hw₃.beside.later hs₂) (List.nil_sublist _) with
        ⟨commit, hcommits, hshows⟩
      rcases hchange.shows (hw₄.beside.later hs₃) hshows with ⟨change, hchanges, hshows₄⟩
      have hshows₈ := (hlate.beside.later hs₄).shows hshows₄
      rcases hhand.shows (hgone.beside.later hs₈) hshows₈ with ⟨hand, hgives, hall⟩
      have hhanded := hgives.handed hsettled hlive
      cases result with
      | ok state =>
          have herror : v.error = none := hsays.1
          exact ⟨commit, change, hand, hall, hcommits, hchanges, herror ▸ hhanded,
            (congrArg View.state hgives.view).trans hsays.2⟩
      | error refusal =>
          cases refusal with
          | apply failure =>
              have herror : v.error = some failure := hsays
              exact ⟨commit, change, hand, hall, hcommits, hchanges, herror ▸ hhanded⟩
          | pluginContractMismatch | closed | recursion | control | admissionLost => trivial

end Custody
end Runtime
end CordisCore
