import CordisCore.Custody.Passes

/-!
# Custody of creations — the initial pass, the handoff and the creation guard

Before the initial pass of the creator has won the slot nothing is applied, so its
first apply repeats nothing.
-/

namespace CordisCore
namespace Runtime
namespace Custody

open Interleaving
open Interleaving.Program (iterate)

variable {p : Party} {f : FiberId} {s : Reel}

/-! ## Admission of a fresh Fiber -/

/-- The party created the Fiber and has not won its slot for the initial pass. -/
structure Fledgling (p : Party) (f : FiberId) (s : Reel) : Prop where
  creates : Creates p s f
  unowned : ¬ Owned f s.film

theorem Fledgling.beside {F : FiberId → Prop} {s' : Reel} (h : Fledgling p f s)
    (hb : Beside p F s s') : Fledgling p f s' :=
  ⟨hb.creates h.creates, hb.unowned h.creates h.unowned⟩

/-- The Fiber was allocated after this state. -/
structure BearsAfter (p : Party) (edges : List DependencyEdge) (f : FiberId) (s : Reel)
    (shot : Shot Root Op Op.Ret) : Prop where
  bears : Bears p edges f shot
  onward : ∀ g, (s.state.fibers g).Onward (shot.before.fibers g)
  edges : ∀ g < s.state.nextFiber, (shot.before.fibers g).edges = (s.state.fibers g).edges

theorem BearsAfter.before {edges : List DependencyEdge} {s s' : Reel}
    {shot : Shot Root Op Op.Ret} (h : BearsAfter p edges f s' shot)
    (hb : Beside p (fun _ => False) s s') : BearsAfter p edges f s shot :=
  ⟨h.bears, fun g => (hb.onward g).trans (h.onward g), fun g hg =>
    (h.edges g (Nat.lt_of_lt_of_le hg hb.nextFiber)).trans (hb.declared g hg).1⟩

theorem wp_allocate {edges : List DependencyEdge} (hs : Custody s) :
    custody.wp p (perform (.allocate edges)) (fun f s' =>
      Fledgling p f s' ∧ Lately (BearsAfter p edges f s) s s' ∧ Later p s s') s := by
  refine custody.wp_mono hs (wp_took rfl) fun f s' _ htook => ?_
  have hlater : Later p s s' := (Took.beside rfl htook).later hs
  rcases htook with ⟨mid, q, c, state, hr, hmid, ha, hexec, rfl⟩
  have hshot : Lately (BearsAfter p edges f s) mid (mid.shoot p (.allocate edges) f state) :=
    ⟨[_], rfl, _, List.mem_singleton_self _, ⟨_, rfl⟩, hr.beside.onward,
      fun g hg => (hr.beside.declared g hg).1⟩
  refine ⟨?_, hshot.after hr.beside.grows, hlater⟩
  simp only [exec, Option.some.injEq, Prod.mk.injEq] at hexec
  rcases hexec with ⟨rfl, rfl⟩
  refine ⟨?_, ?_⟩
  · show (part p (mid.state.put mid.state.nextFiber _).takeFiber mid.state.nextFiber).creates
    rw [part_takeFiber, if_pos rfl]
  · rintro ⟨shot, hshot, hop⟩
    rcases List.mem_cons.mp hshot with rfl | hold
    · cases hop
    · exact (hmid.unborn _ (Nat.le_refl _)).2 ⟨shot, hold, hop⟩

theorem wp_admitFiber {key : PluginKey} {edges : List DependencyEdge} (hs : Custody s) :
    custody.wp p (admitFiber key edges) (fun f s' =>
      Fledgling p f s' ∧ Lately (BearsAfter p edges f s) s s' ∧ Later p s s') s := by
  refine custody.wp_seq hs (wp_allocate hs) ?_
  rintro f s₁ hs₁ ⟨hf, hbears, hlater⟩
  have hanswer : custody.wp p (do
      perform (.attach f key)
      perform (.arm f)
      perform (.install f key)
      perform (.register f)
      pure f) (fun a s' => a = f ∧ Beside p (fun _ => False) s₁ s') s₁ := by
    refine custody.wp_seq hs₁ (clean_op rfl s₁ hs₁) fun _ s₂ hs₂ hb₂ => ?_
    refine custody.wp_seq hs₂ (clean_op rfl s₂ hs₂) fun _ s₃ hs₃ hb₃ => ?_
    refine custody.wp_seq hs₃ (clean_op rfl s₃ hs₃) fun _ s₄ hs₄ hb₄ => ?_
    refine custody.wp_seq hs₄ (clean_op rfl s₄ hs₄) fun _ s₅ hs₅ hb₅ => ?_
    exact ⟨rfl, hb₂.trans (hb₃.trans (hb₄.trans hb₅))⟩
  refine custody.wp_mono hs₁ hanswer ?_
  rintro _ s₂ _ ⟨rfl, hb₂⟩
  exact ⟨hf.beside hb₂, hbears.before hb₂.grows, hlater.trans (hb₂.later hs₁)⟩

/-! ## The initial pass -/

/-- The creator marks the slot that it won as its own. -/
theorem wp_own (hs : Custody s) (hp : Holds p s f) :
    custody.wp p (on f (.store .creationOwned true)) (fun _ s' => Holds p s' f ∧
      view s' f = view s f ∧ Unapplied f s s' ∧ Owned f s'.film ∧ Later p s s') s := by
  refine wp_op rfl fun s' hr _ => ?_
  refine ⟨⟨rfl, ?_, nofun, nofun, nofun, nofun, nofun⟩, ?_⟩
  · intro g hop
    rcases hop with hop | hop <;> cases hop
  intro q c state r ha hexec
  have hp' : Holds p s' f := (hr.beside.holds f id).mpr hp
  have hborn := lt_of_holds hp'
  have hunapplied : Unapplied f s' (s'.shoot p (.on f (.store .creationOwned true)) r state) :=
    unapplied_shoot hexec hborn rfl nofun
  refine ⟨(holds_shoot ha hexec nofun).mpr hp', ?_, ?_, ⟨_, List.mem_cons_self, rfl⟩,
    Later.shoot (hr.beside.later hs) (onward_shoot ha rfl nofun hexec)⟩
  · exact (exec_view hexec rfl hborn nofun).trans (hr.beside.view f id hp)
  · exact (hr.beside.unapplied id hp).trans hunapplied

theorem wp_claimInitial (hs : Custody s) :
    custody.wp p (claimInitial f) (fun _ s' => Claimed p f s s') s := by
  refine custody.wp_seq hs wp_tryClaim ?_
  intro won s₁ hs₁ hwon
  cases won with
  | true => exact hwon
  | false =>
      have hb₁ : Beside p (fun _ => False) s s₁ := hwon
      refine custody.wp_mono hs₁ wp_claim ?_
      intro _ s₂ _ hclaimed
      exact ⟨fun hheld => hclaimed.unheld ((hb₁.holds f id).mpr hheld),
        (hb₁.mono fun _ hF => hF.elim).trans hclaimed.beside, hclaimed.holds, hclaimed.rest⟩

/-- The creator may go around. -/
structure Initial (p : Party) (f : FiberId) (s : Reel) : Prop where
  holds : Holds p s f
  settled : Settled (view s f)
  excused : Excused f s
  alive : (view s f).alive = true
  owned : Owned f s.film

/-- A round that goes around has found another live target. -/
theorem Initial.of_redirected {target : SemanticTarget} {s' : Reel} (h : Redirected p f target s s')
    (hrest : Rest f s) (howned : Owned f s.film) (halive : (view s f).alive = true)
    (he : Excused f s ∨ lastApply f s.film = some target) : Initial p f s' := by
  rcases h.recorded with ⟨live, hview⟩
  refine ⟨h.within.holds, hview ▸ hrest.settled.redirected _, ?_, ?_, h.within.beside.owned howned⟩
  · rcases he with hexcused | hlast
    · exact h.within.unapplied.excused hexcused
    · exact .inr (h.caused hlast)
  · rw [hview]
    exact halive

/-- The initial pass came to its end with this outcome. -/
structure Concluded (p : Party) (f : FiberId) (outcome : InitialOutcome) (s s' : Reel) : Prop where
  owned : Owned f s'.film
  held : outcome.released = false → Holds p s' f ∧ Rest f s'
  later : Later p s s'
  failed : ∀ failure, outcome = .failed failure →
    Complete f s'.state ∧ Lately (Fails p f failure) s s'

/-- A round goes around or ends the pass. -/
def Rounds (p : Party) (f : FiberId) (s : Reel) (o : Unit ⊕ InitialOutcome) (s' : Reel) : Prop :=
  match o with
  | .inl _ => Initial p f s' ∧ Later p s s'
  | .inr outcome => Concluded p f outcome s s'

/-- The exit of a round whose target is settled. -/
theorem wp_initialExit {target : SemanticTarget} {revision : Nat} {outcome : InitialOutcome}
    {mid : Reel} (hreleased : outcome.released = true) (hmid : Custody mid) (hlater : Later p s mid)
    (hp : Holds p mid f) (hrest : Rest f mid) (howned : Owned f mid.film)
    (halive : (view mid f).alive = true)
    (he : Excused f mid ∨ lastApply f mid.film = some target) :
    custody.wp p (do
      if ← exitRecheck f target revision then again () else leave outcome)
      (Rounds p f s) mid := by
  refine custody.wp_seq hmid (wp_exitRecheck hp hrest) ?_
  intro kept s' _ hkept
  cases kept with
  | true =>
      exact ⟨Initial.of_redirected hkept hrest howned halive he,
        hlater.trans (hkept.within.beside.later hmid)⟩
  | false =>
      refine ⟨hkept.gone.beside.owned howned, fun hheld => ?_,
        hlater.trans (hkept.gone.beside.later hmid), fun failure hfailed => ?_⟩
      · exact absurd (hheld.symm.trans hreleased) (by simp)
      · rw [hfailed] at hreleased
        cases hreleased

/-- A failed initial apply is parked, and its failure is what the pass reports. -/
theorem wp_initialFailed (hs : Custody s) (hp : Holds p s f) (hsettled : Settled (view s f))
    (halive : (view s f).alive = true) (hfailed : (view s f).state = .failed)
    (howned : Owned f s.film) :
    custody.wp p (do
      let parked ← on f .takeError
      creationTeardown f
      leave (.failed (parked.getD unparkedFailure)) : Prog (Unit ⊕ InitialOutcome))
      (Rounds p f s) s := by
  have hparked : (view s f).error.isSome := (hsettled.error halive).mpr hfailed
  refine custody.wp_seq hs (wp_inside rfl hp (by simp)) ?_
  rintro parked s₁ hs₁ ⟨hw₁, -, htells, hsees⟩
  refine custody.wp_seq hs₁ (wp_creationTeardown hs₁ hw₁.holds) ?_
  rintro _ s₂ _ ⟨hended, hcomplete⟩
  have hb : Beside p (fun g => g = f) s s₂ := hw₁.beside.trans hended.beside
  refine ⟨hb.owned howned, fun _ => ⟨hended.holds, hended.rest⟩, hb.later hs, ?_⟩
  rintro failure hfailure
  have hsome : parked = some failure := by
    have hread : parked = (view s f).error := htells
    rcases Option.isSome_iff_exists.mp hparked with ⟨inner, hinner⟩
    rw [hread, hinner] at hfailure ⊢
    exact congrArg some (InitialOutcome.failed.inj hfailure)
  refine ⟨hcomplete, (hsees.mono fun shot hshot => ?_).before hended.beside.grows⟩
  refine ⟨hshot.vouched hsettled halive, (congrArg View.state hshot.view).trans hfailed, ?_⟩
  exact (congrArg View.error hshot.view).trans (Eq.symm htells |>.trans hsome)

theorem wp_initialRound (hs : Custody s) (hi : Initial p f s) :
    custody.wp p (initialRound f) (Rounds p f s) s := by
  refine custody.wp_seq hs (wp_on hs hi.holds rfl nofun) ?_
  rintro revision s₁ hs₁ ⟨hw₁, hv₁, -⟩
  refine custody.wp_seq hs₁ (clean_computeTarget s₁ hs₁) ?_
  intro target s₂ hs₂ hb₂
  have hw₂ : Within p f s s₂ := hw₁.trans (Within.of_beside hb₂ hw₁.holds)
  have hv₂ : view s₂ f = view s f := (hb₂.view f id hw₁.holds).trans hv₁
  -- computing the target applies nothing, so the round may still apply
  have he₂ : Excused f s₂ := hw₂.unapplied.excused hi.excused
  have howned₂ := hw₂.beside.owned hi.owned
  refine custody.wp_seq hs₂ (wp_settleOnce hs₂ hw₂.holds (hv₂ ▸ hi.settled) (.inl he₂)
    (fun _ => .inl howned₂) fun _ => howned₂) ?_
  intro _ s₃ hs₃ hpassed
  have howned₃ := hpassed.beside.owned howned₂
  have hlater₃ : Later p s s₃ := (hw₂.beside.trans hpassed.beside).later hs
  have halive₃ : (view s₃ f).alive = true := by rw [hpassed.alive, hv₂, hi.alive]
  split
  · rename_i hmissing
    -- a missing dependency: the pass applied nothing, for it only applies what is complete
    have hexcused : Excused f s₃ := by
      rcases hpassed.moved with hunapplied | hlast
      · exact hunapplied.excused he₂
      · exact absurd (hlast.1.symm.trans hmissing) (by simp)
    refine custody.wp_seq hs₃ (wp_on hs₃ hpassed.holds rfl nofun) ?_
    rintro _ s₄ hs₄ ⟨hw₄, hv₄, -⟩
    have hv₄ : view s₄ f =
        { view s₃ f with target := some ((view s₃ f).target.getD target) } := hv₄
    have hexcused₄ : Excused f s₄ := hw₄.unapplied.excused hexcused
    have howned₄ := hw₄.beside.owned howned₃
    refine wp_initialExit rfl hs₄ (hlater₃.trans (hw₄.beside.later hs₃)) hw₄.holds
      ⟨hv₄ ▸ hpassed.settled.redirected _, .inl hexcused₄, fun _ => .inl howned₄⟩ howned₄ ?_
      (.inl hexcused₄)
    rw [hv₄]
    exact halive₃
  · refine custody.wp_seq hs₃ (wp_on hs₃ hpassed.holds rfl nofun) ?_
    rintro _ s₄ hs₄ ⟨hw₄, hv₄, -⟩
    have hv₄ : view s₄ f = { view s₃ f with target := some target } := hv₄
    have halive₄ : (view s₄ f).alive = true := by
      rw [hv₄]
      exact halive₃
    -- either nothing was applied, or the target computed in this round was
    have he₄ : Excused f s₄ ∨ lastApply f s₄.film = some target := by
      rcases hpassed.moved with hunapplied | hlast
      · exact .inl ((hunapplied.trans hw₄.unapplied).excused he₂)
      · exact .inr (hw₄.unapplied.lastApply.trans hlast.2)
    have howned₄ := hw₄.beside.owned howned₃
    have hrest₄ : Rest f s₄ := by
      refine ⟨hv₄ ▸ hpassed.settled.redirected _, ?_, fun _ => .inl howned₄⟩
      refine he₄.imp id fun hlast => .inr ?_
      rw [hlast, hv₄]
    have hlater₄ := hlater₃.trans (hw₄.beside.later hs₃)
    refine custody.wp_seq hs₄ (wp_on hs₄ hw₄.holds rfl nofun) ?_
    rintro state s₅ hs₅ ⟨hw₅, hv₅, hstate⟩
    have hv₅ : view s₅ f = view s₄ f := hv₅
    have hlater₅ := hlater₄.trans (hw₅.beside.later hs₄)
    have hrest₅ := hrest₄.kept hw₅.unapplied hv₅
    have howned₅ := hw₅.beside.owned howned₄
    split
    · rename_i hfailed
      -- a failed apply ends the creation with what it told
      have hfailed₅ : (view s₅ f).state = .failed := by
        rw [hv₅]
        exact (Eq.symm hstate).trans hfailed
      refine custody.wp_mono hs₅ (wp_initialFailed hs₅ hw₅.holds hrest₅.settled (hv₅ ▸ halive₄)
        hfailed₅ howned₅) fun o s₆ _ hrounds => ?_
      cases o with
      | inl _ => exact ⟨hrounds.1, hlater₅.trans hrounds.2⟩
      | inr outcome =>
          refine ⟨hrounds.owned, hrounds.held, hlater₅.trans hrounds.later, fun failure hend => ?_⟩
          have hends := hrounds.failed failure hend
          exact ⟨hends.1, hends.2.after hlater₅.film⟩
    · refine wp_initialExit rfl hs₅ hlater₅ hw₅.holds hrest₅ howned₅ (hv₅ ▸ halive₄) ?_
      refine he₄.imp hw₅.unapplied.excused fun hlast => ?_
      exact hw₅.unapplied.lastApply.trans hlast

/-- The tail gives up what the pass still holds, and nothing else. -/
theorem wp_releaseInitial {released : Bool} (hs : Custody s)
    (hheld : released = false → Holds p s f ∧ Rest f s) :
    custody.wp p (releaseInitial f released) (fun _ s' => Beside p (fun g => g = f) s s') s := by
  have hprobe : custody.wp p (on f (.probeIdle released)) (fun idle s' =>
      Beside p (fun _ => False) s s' ∧ (idle = false → released = false)) s := by
    have hloose : Loose (.on f (.probeIdle released)) := loose_iff.mp rfl
    refine wp_allowed rfl fun s' hr _ => ⟨hloose.cleared, ?_⟩
    intro q c state idle hok ha hexec
    refine ⟨hr.beside.trans (hloose.beside ha hexec), fun hbusy => ?_⟩
    have hstep := exec_on hexec
    simp only [FiberOp.exec, Option.some.injEq, Prod.mk.injEq] at hstep
    cases released with
    | false => rfl
    | true =>
        -- the condition on the tail
        have hidle : (s'.state.fibers f).inertia = .idle := hok f rfl
        rw [← hstep.2, hidle] at hbusy
        cases hbusy
  refine custody.wp_seq hs hprobe ?_
  rintro idle s₁ hs₁ ⟨hb₁, hreleased⟩
  cases idle with
  | true => exact hb₁.mono fun _ hF => hF.elim
  | false =>
      rcases hheld (hreleased rfl) with ⟨hp, hrest⟩
      refine custody.wp_mono hs₁ (wp_abandon hs₁ ((hb₁.holds f id).mpr hp) (hrest.beside hb₁ hp)) ?_
      intro _ s₂ _ hgone
      exact (hb₁.mono fun _ hF => hF.elim).trans hgone.beside

/-- How the initial pass ended, for the spawn that goes on. -/
structure Initiated (p : Party) (f : FiberId) (outcome : InitialOutcome) (s s' : Reel) : Prop where
  owned : outcome = .interrupted ∨ Owned f s'.film
  later : Later p s s'
  failed : ∀ failure, outcome = .failed failure →
    Complete f s'.state ∧ Lately (Fails p f failure) s s'

/-- A pass that was not interrupted has won the slot. -/
theorem wp_initialSpawnPass (hs : Custody s) (hf : Fledgling p f s) :
    custody.wp p (initialSpawnPass f) (fun outcome s' => Initiated p f outcome s s') s := by
  refine custody.wp_seq hs (wp_claimInitial hs) ?_
  intro _ s₁ hs₁ hclaimed
  refine custody.wp_seq hs₁ (wp_on hs₁ hclaimed.holds rfl nofun) ?_
  rintro alive s₂ hs₂ ⟨hw₂, hv₂, halive⟩
  have hrest₂ : Rest f s₂ := hclaimed.rest.kept hw₂.unapplied hv₂
  have hv₂ : view s₂ f = view s₁ f := hv₂
  have hlater₂ : Later p s s₂ := (hclaimed.beside.trans hw₂.beside).later hs
  change alive = (view s₁ f).alive at halive
  cases alive with
  | false =>
      refine custody.wp_seq hs₂ (clean_releaseResidency s₂ hs₂) ?_
      intro _ s₃ hs₃ hb₃
      have hrest₃ : Rest f s₃ := hrest₂.beside hb₃ hw₂.holds
      refine custody.wp_seq hs₃ (wp_abandon hs₃ ((hb₃.holds f id).mpr hw₂.holds) hrest₃) ?_
      intro _ s₄ _ hgone
      exact ⟨.inl rfl, hlater₂.trans ((hb₃.later hs₂).trans (hgone.beside.later hs₃)),
        by rintro _ ⟨⟩⟩
  | true =>
      -- the creator has not owned it before, so nothing was ever applied
      have hsealed : Sealed f s₂ := by
        have hfledgling := hf.beside (hclaimed.beside.trans hw₂.beside)
        exact (hrest₂.opened (hv₂ ▸ halive.symm)).resolve_left hfledgling.unowned
      refine custody.wp_seq hs₂ (wp_own hs₂ hw₂.holds) ?_
      rintro _ s₃ hs₃ ⟨hp₃, hv₃, hu₃, howned₃, hlater₃⟩
      have hinitial : Initial p f s₃ := by
        refine ⟨hp₃, hv₃ ▸ hrest₂.settled, .inl ?_, ?_, howned₃⟩
        · exact hu₃.lastApply.trans hsealed.never
        · rw [hv₃, hv₂]
          exact halive.symm
      -- the loop keeps `Initial` and ends in what its last round says
      have hloop : custody.wp p (iterate () fun _ => initialRound f)
          (fun outcome s' => Concluded p f outcome s₃ s') s₃ := by
        refine custody.wp_iterate (fun _ s' => Initial p f s' ∧ Later p s₃ s')
          ⟨hinitial, Later.refl hs₃.begun⟩ ?_
        rintro _ s' hs' ⟨hi, hlater⟩
        refine custody.wp_mono hs' (wp_initialRound hs' hi) fun o s'' _ hround => ?_
        cases o with
        | inl _ => exact ⟨hround.1, hlater.trans hround.2⟩
        | inr outcome =>
            refine ⟨hround.owned, hround.held, hlater.trans hround.later, fun failure hend => ?_⟩
            have hends := hround.failed failure hend
            exact ⟨hends.1, hends.2.after hlater.film⟩
      refine custody.wp_seq hs₃ hloop ?_
      intro outcome s₄ hs₄ hconcluded
      refine custody.wp_seq hs₄ (clean_op rfl s₄ hs₄) ?_
      intro _ s₅ hs₅ hb₅
      refine custody.wp_seq hs₅ (wp_releaseInitial hs₅ fun hreleased => ?_) ?_
      · have hheld := hconcluded.held hreleased
        exact ⟨(hb₅.holds f id).mpr hheld.1, hheld.2.beside hb₅ hheld.1⟩
      · intro _ s₆ _ hb₆
        have hend : Later p s₄ s₆ := (hb₅.later hs₄).trans (hb₆.later hs₅)
        have hstart : Later p s s₃ := hlater₂.trans hlater₃
        refine ⟨.inr (hb₆.owned (hb₅.owned hconcluded.owned)),
          hstart.trans (hconcluded.later.trans hend), fun failure hfailed => ?_⟩
        have hends := hconcluded.failed failure hfailed
        exact ⟨hend.complete hends.1, (hends.2.before hend.film).after hstart.film⟩

/-! ## Handoff -/

/-- The creator ends the creation window once its pass has won the slot. -/
theorem wp_handed (hs : Custody s) (ho : Owned f s.film) :
    custody.wp p (on f (.store .creationPending false)) (fun _ s' => Later p s s' ∧
      Lately (Did p f (.store .creationPending false)) s s') s := by
  refine wp_op rfl fun s' hr _ => ⟨⟨rfl, ?_, nofun, nofun, nofun, nofun, ?_⟩, ?_⟩
  · intro g hop
    rcases hop with hop | hop <;> cases hop
  · intro g hop
    cases hop
    exact .inl (hr.beside.owned ho)
  · intro q c state r ha hexec
    have hdid : Lately (Did p f (.store .creationPending false)) s'
        (s'.shoot p (.on f (.store .creationPending false)) r state) :=
      ⟨[_], rfl, _, List.mem_singleton_self _, rfl, rfl⟩
    exact ⟨(hr.beside.later hs).shoot (onward_shoot ha rfl nofun hexec),
      hdid.after hr.beside.grows⟩

theorem wp_clean {α : Type} {x : Prog α} (hx : Clean p x) (hs : Custody s) :
    custody.wp p x (fun _ _ => True) s :=
  custody.wp_mono hs (hx s hs) fun _ _ _ _ => trivial

/-- What a handoff answers for: it found the Fiber alive and settled under its slot when it gave
the slot up, and then delivered it. -/
def HandedOff (p : Party) (f : FiberId) (s s' : Reel) : Except SpawnError FiberId → Prop
  | .ok g => g = f ∧ ∀ shots, s.Shows p shots → ∃ hand opened delivered,
      s'.Shows p (delivered :: opened :: hand :: shots) ∧ HandsOff p f hand opened delivered
  | .error refusal => refusal = .interrupted

theorem wp_handoff (hs : Custody s) (ho : Owned f s.film) :
    custody.wp p (handoff f) (fun a s' => Later p s s' ∧ HandedOff p f s s' a) s := by
  refine custody.wp_seq hs wp_claim ?_
  intro _ s₁ hs₁ hclaimed
  refine custody.wp_seq hs₁ (wp_on hs₁ hclaimed.holds rfl nofun) ?_
  rintro alive s₂ hs₂ ⟨hw₂, hv₂, halive⟩
  have hrest₂ : Rest f s₂ := hclaimed.rest.kept hw₂.unapplied hv₂
  refine custody.wp_seq hs₂ (wp_abandoned hw₂.holds hrest₂) ?_
  rintro _ s₃ hs₃ ⟨hgone, hsees⟩
  have hb₂ : Beside p (fun g => g = f) s s₂ := hclaimed.beside.trans hw₂.beside
  have hb₃ : Beside p (fun g => g = f) s s₃ := hb₂.trans hgone.beside
  change alive = (view s₁ f).alive at halive
  cases alive with
  | true =>
      refine custody.wp_seq hs₃ (wp_handed hs₃ (hb₃.owned ho)) ?_
      rintro _ s₄ hs₄ ⟨hlater₄, hopens⟩
      refine custody.wp_seq hs₄ (clean_op rfl s₄ hs₄) fun _ s₅ hs₅ hb₅ => ?_
      refine custody.wp_seq hs₅ (wp_took rfl) fun r s₆ _ htook => ?_
      have hb₆ : Beside p (fun _ => False) s₅ s₆ := htook.beside rfl
      refine ⟨(hb₃.later hs).trans (hlater₄.trans ((hb₅.later hs₄).trans (hb₆.later hs₅))), rfl,
        fun shots hshows => ?_⟩
      rcases hsees.shows (hgone.beside.later hs₂) ((hb₂.later hs).shows hshows) with
        ⟨hand, hhand, hshows₃⟩
      rcases hopens.shows hlater₄ hshows₃ with ⟨opened, hopened, hshows₄⟩
      rcases htook.shows rfl hs₅ ((hb₅.later hs₄).shows hshows₄) with ⟨mid, -, -, hshows₆, -⟩
      have halive₂ : (view s₂ f).alive = true := (congrArg View.alive hv₂).trans halive.symm
      exact ⟨hand, opened, _, hshows₆, hhand.vouched hrest₂.settled halive₂, hhand.op, hopened,
        rfl, rfl⟩
  | false =>
      refine custody.wp_seq hs₃ (clean_releaseResidency s₃ hs₃) fun _ s₄ hs₄ hb₄ => ?_
      refine custody.wp_seq hs₄ (clean_op rfl s₄ hs₄) fun _ s₅ _ hb₅ => ?_
      exact ⟨(hb₃.later hs).trans ((hb₄.later hs₃).trans (hb₅.later hs₄)), rfl⟩

theorem clean_assertCanRegister : Clean p (assertCanRegister f) := by
  refine .bind (clean_op rfl) fun alive => ?_
  cases alive with
  | false => exact .pure _
  | true =>
      refine .bind (clean_op rfl) fun disposing => ?_
      cases disposing with
      | true => exact .pure _
      | false =>
          refine .bind (clean_op rfl) fun replacing => ?_
          cases replacing with
          | true => exact .pure _
          | false => exact .bind (clean_op rfl) fun _ => .pure _

/-- What a spawn answers for, with what its allocation came after. -/
def BornAfter (p : Party) (edges : List DependencyEdge) (s s' : Reel) :
    Except SpawnError FiberId → Prop
  | .ok f => ∃ born hand opened delivered, s'.Shows p [delivered, opened, hand, born] ∧
      BearsAfter p edges f s born ∧ HandsOff p f hand opened delivered
  | .error (.initialApply failure) => ∃ f born fail, s'.Shows p [fail, born] ∧
      BearsAfter p edges f s born ∧ Fails p f failure fail ∧ Complete f s'.state
  | .error _ => True

theorem BornAfter.born {edges : List DependencyEdge} {s s' : Reel}
    {result : Except SpawnError FiberId} (h : BornAfter p edges s s' result) :
    Born p s' result := by
  cases result with
  | ok f =>
      rcases h with ⟨born, hand, opened, delivered, hshows, hbears, hhands⟩
      exact ⟨edges, born, hand, opened, delivered, hshows, hbears.bears, hhands⟩
  | error refusal =>
      cases refusal with
      | initialApply failure =>
          rcases h with ⟨f, born, fail, hshows, hbears, hfails, hcomplete⟩
          exact ⟨edges, f, born, fail, hshows, hbears.bears, hfails, hcomplete⟩
      | inactiveContext | interrupted => trivial

theorem wp_spawnPreparedInner {origin : FiberId} {key : PluginKey} {edges : List DependencyEdge}
    {requireOriginOpen : Bool} (hs : Custody s) :
    custody.wp p (spawnPreparedInner origin key edges requireOriginOpen)
      (fun a s' => Later p s s' ∧ BornAfter p edges s s' a) s := by
  have horigin : Clean p (admitOrigin origin requireOriginOpen) := by
    unfold admitOrigin
    split
    · exact clean_assertCanRegister
    · exact .pure _
  refine custody.wp_seq hs (horigin s hs) ?_
  intro admitted s₁ hs₁ hb₁
  cases admitted with
  | false => exact ⟨hb₁.later hs, trivial⟩
  | true =>
      refine custody.wp_seq hs₁ (wp_admitFiber hs₁) ?_
      rintro f s₂ hs₂ ⟨hf, hbears, hlater₂⟩
      refine custody.wp_seq hs₂ (wp_initialSpawnPass hs₂ hf) ?_
      intro outcome s₃ hs₃ hinitiated
      have hbears₁ : Lately (BearsAfter p edges f s) s₁ s₂ :=
        hbears.mono fun shot hshot => hshot.before hb₁
      rcases hbears₁.shows hlater₂ (List.nil_sublist _) with ⟨born, hborn, hshows₂⟩
      have hlater₃ : Later p s s₃ := (hb₁.later hs).trans (hlater₂.trans hinitiated.later)
      -- a creation that was not interrupted hands the fiber over
      have hhanded : Owned f s₃.film → custody.wp p (handoff f) (fun a s' =>
          Later p s s' ∧ BornAfter p edges s s' a) s₃ := by
        intro howned
        refine custody.wp_mono hs₃ (wp_handoff hs₃ howned) ?_
        rintro a s₄ _ ⟨hlater₄, hanswer⟩
        refine ⟨hlater₃.trans hlater₄, ?_⟩
        cases a with
        | ok g =>
            rcases hanswer with ⟨rfl, hhands⟩
            rcases hhands _ (hinitiated.later.shows hshows₂) with
              ⟨hand, opened, delivered, hshows₄, hhandsOff⟩
            exact ⟨born, hand, opened, delivered, hshows₄, hborn, hhandsOff⟩
        | error refusal =>
            have hrefusal : refusal = .interrupted := hanswer
            subst hrefusal
            trivial
      cases outcome with
      | active => exact hhanded (hinitiated.owned.resolve_left (by simp))
      | pending => exact hhanded (hinitiated.owned.resolve_left (by simp))
      | failed failure =>
          refine custody.wp_seq hs₃ (clean_op rfl s₃ hs₃) fun _ s₄ _ hb₄ => ?_
          have hlater₄ := hb₄.later hs₃
          have hends := hinitiated.failed failure rfl
          rcases hends.2.shows hinitiated.later hshows₂ with ⟨fail, hfails, hshows₃⟩
          exact ⟨hlater₃.trans hlater₄, f, born, fail, hlater₄.shows hshows₃, hborn, hfails,
            hlater₄.complete hends.1⟩
      | interrupted =>
          refine custody.wp_seq hs₃ (clean_op rfl s₃ hs₃) fun _ s₄ _ hb₄ => ?_
          exact ⟨hlater₃.trans (hb₄.later hs₃), trivial⟩

/-! ## The creation guard -/

/-- The ownership mark says whether the guard inherits the slot. -/
theorem wp_takeCreationOwnership (hin : (part p s.state f).Inheritable) :
    custody.wp p (on f .takeCreationOwnership)
      (fun taken s' => taken = true → Holds p s' f) s := by
  have hloose : Loose (.on f .takeCreationOwnership) := loose_iff.mp rfl
  refine wp_op rfl fun s' hr _ => ⟨hloose.cleared, ?_⟩
  intro q c state taken ha hexec htaken
  subst htaken
  have hin' : (part p s'.state f).Inheritable := hr.keeps.at_ f ▸ hin
  have hstep := exec_on hexec
  simp only [FiberOp.exec, Option.some.injEq, Prod.mk.injEq] at hstep
  have howned : (part p s'.state f).owned := by
    have hlt : f < s'.state.nextFiber := by
      by_contra hlt
      have hcreates := hin'.creates
      simp [part, hlt] at hcreates
    have hcreates := hin'.creates
    simp only [part, if_pos hlt] at hcreates ⊢
    exact ⟨hcreates, hstep.2⟩
  exact (holds_shoot ha hexec (by rintro ⟨⟩)).mpr (hin'.owned.mp howned)

theorem wp_creationInterruptedTeardown (hs : Custody s)
    (hin : (part p s.state f).Inheritable) :
    custody.wp p (creationInterruptedTeardown f) (fun _ _ => True) s := by
  refine custody.wp_seq hs (wp_takeCreationOwnership hin) ?_
  intro taken s₁ hs₁ htaken
  cases taken with
  | true =>
      refine custody.wp_seq hs₁ (wp_on hs₁ (htaken rfl) rfl nofun) ?_
      rintro _ s₂ hs₂ ⟨hw₂, -, -⟩
      exact custody.wp_mono hs₂ (wp_finishInterrupted hs₂ hw₂.holds) fun _ _ _ _ => trivial
  | false =>
      refine custody.wp_seq hs₁ (clean_op rfl s₁ hs₁) ?_
      intro disposing s₂ hs₂ _
      cases disposing with
      | true => exact custody.wp_mono hs₂ wp_waitDisposeComplete fun _ _ _ _ => trivial
      | false =>
          refine custody.wp_seq hs₂ wp_claim ?_
          intro _ s₃ hs₃ hclaimed
          refine custody.wp_seq hs₃ (wp_on hs₃ hclaimed.holds rfl nofun) ?_
          rintro alive s₄ hs₄ ⟨hw₄, hv₄, -⟩
          cases alive with
          | true =>
              exact custody.wp_mono hs₄ (wp_finishInterrupted hs₄ hw₄.holds)
                fun _ _ _ _ => trivial
          | false =>
              exact custody.wp_mono hs₄ (wp_abandon hs₄ hw₄.holds
                (hclaimed.rest.kept hw₄.unapplied hv₄)) fun _ _ _ _ => trivial

end Custody
end Runtime
end CordisCore
