import CordisCore.Authority.Kick

/-!
# Authority of settle passes, drains and teardowns
-/

namespace CordisCore
namespace Runtime

open Interleaving

variable {p : Party} {f : FiberId} {s : Root}

/-! ## Drift -/

theorem wp_advanceAll {fibers : List FiberId} (hs : SlotInv s) :
    authority.wp p (advanceAll fibers)
      (fun drift s' => (∀ row ∈ drift, row.1 ∈ fibers) ∧ Keeps p s s') s := by
  induction fibers generalizing s with
  | nil => exact ⟨nofun, Keeps.refl p s⟩
  | cons g rest ih =>
      refine authority.wp_seq hs (wp_quiet hs rfl) ?_
      intro revision s₁ hs₁ hk₁
      refine authority.wp_seq hs₁ (ih hs₁) ?_
      rintro drift s₂ _ ⟨hdrift, hk₂⟩
      refine ⟨fun row hrow => ?_, hk₁.trans hk₂⟩
      rcases List.mem_cons.mp hrow with rfl | hrow
      · exact List.mem_cons_self
      · exact List.mem_cons_of_mem _ (hdrift row hrow)

theorem mem_dependentsOf {edges : List DependencyEdge} {g : FiberId}
    (h : g ∈ s.dependentsOf edges) : ∃ row ∈ s.reverse, row.2 = g ∧ row.1 ∈ edges := by
  simp only [Root.dependentsOf, List.mem_dedup, List.mem_flatMap, List.mem_map,
    List.mem_filter, decide_eq_true_eq] at h
  rcases h with ⟨edge, hedge, row, ⟨hrow, rfl⟩, rfl⟩
  exact ⟨row, hrow, rfl, hedge⟩

theorem wp_dependentsOf {edges : List DependencyEdge} :
    authority.wp p (perform (.dependentsOf edges))
      (fun fibers s' => (∀ g ∈ fibers, Spawned s' g) ∧ Keeps p s s') s := by
  refine wp_look rfl rfl nofun nofun ?_
  intro c q s' s'' r hk hs' hexec hk'
  have hun : Unmoved s' s'' := exec_unmoved rfl hexec
  simp only [exec, Option.some.injEq, Prod.mk.injEq] at hexec
  rcases hexec with ⟨-, rfl⟩
  refine ⟨fun g hg => ?_, hk'⟩
  rcases mem_dependentsOf hg with ⟨row, hrow, rfl, -⟩
  exact hun.spawned (hs'.reverse row hrow)

/-- A list of spawned fibers with the revisions they are owed. -/
def Drift (s : Root) (drift : List (FiberId × Nat)) : Prop :=
  ∀ row ∈ drift, Spawned s row.1

theorem wp_commitDrift {edges : List DependencyEdge} (hs : SlotInv s) :
    authority.wp p (commitDrift edges) (fun drift s' => Drift s' drift ∧ Keeps p s s') s := by
  refine authority.wp_seq hs wp_dependentsOf ?_
  rintro fibers s₁ hs₁ ⟨hfibers, hk₁⟩
  refine authority.wp_mono hs₁ (wp_advanceAll hs₁) ?_
  rintro drift s₂ _ ⟨hdrift, hk₂⟩
  exact ⟨fun row hrow => hk₂.spawned (hfibers _ (hdrift row hrow)), hk₁.trans hk₂⟩

theorem Drift.keeps {s' : Root} {drift : List (FiberId × Nat)} (h : Drift s drift)
    (hk : Keeps p s s') : Drift s' drift :=
  fun row hrow => hk.spawned (h row hrow)

theorem wp_visibilityDrift {visibility : List DependencyEdge} (hs : SlotInv s) :
    authority.wp p (visibilityDrift visibility)
      (fun drift s' => Drift s' drift ∧ Keeps p s s') s := by
  unfold visibilityDrift
  split
  · exact ⟨nofun, Keeps.refl p s⟩
  · exact wp_commitDrift hs

/-! ## Transitions -/

theorem neutral_publish {next : FiberState} :
    authority.Neutral (fun s => (part p s f).holds) p (on f (.publish next)) :=
  fun _ hs hp => wp_held hs rfl rfl hp

theorem wp_commitFiberTransition {next : FiberState} (hs : SlotInv s)
    (hp : (part p s f).holds) :
    authority.wp p (commitFiberTransition f next)
      (fun drift s' => Drift s' drift ∧ Keeps p s s') s := by
  refine authority.wp_seq hs (wp_quiet hs rfl) ?_
  intro _ s₁ hs₁ hk₁
  refine authority.wp_seq hs₁ (wp_quiet hs₁ rfl) ?_
  intro visibility s₂ hs₂ hk₂
  refine authority.wp_seq hs₂ (wp_visibilityDrift hs₂) ?_
  rintro drift s₃ hs₃ ⟨hdrift, hk₃⟩
  have hk : Keeps p s s₃ := hk₁.trans (hk₂.trans hk₃)
  refine authority.wp_seq hs₃ (neutral_publish s₃ hs₃ (hk.holds hp)) ?_
  intro _ s₄ hs₄ hk₄
  refine authority.wp_seq hs₄ (wp_quiet hs₄ rfl) ?_
  intro _ s₅ _ hk₅
  exact ⟨hdrift.keeps (hk₄.trans hk₅), hk.trans (hk₄.trans hk₅)⟩

theorem neutral_transition {next : FiberState} :
    authority.Neutral (fun s => (part p s f).holds) p (transition f next) := by
  intro s hs hp
  refine authority.wp_seq hs (wp_quiet hs rfl) ?_
  intro old s₁ hs₁ hk₁
  split
  · exact hk₁
  · refine authority.wp_seq hs₁ (wp_quiet hs₁ rfl) ?_
    intro root s₂ hs₂ hk₂
    have hk : Keeps p s s₂ := hk₁.trans hk₂
    have hp₂ : (part p s₂ f).holds := hk.holds hp
    split
    · refine authority.wp_seq hs₂ (wp_commitFiberTransition hs₂ hp₂) ?_
      rintro drift s₃ hs₃ ⟨hdrift, hk₃⟩
      refine authority.wp_mono hs₃ (neutral_kickAll s₃ hs₃ hdrift) ?_
      intro _ s₄ _ hk₄
      exact hk.trans (hk₃.trans hk₄)
    · refine authority.wp_mono hs₂ (neutral_publish s₂ hs₂ hp₂) ?_
      intro _ s₃ _ hk₃
      exact hk.trans hk₃

/-! ## Holding the slot -/

theorem Holding.bind {α β : Type} {x : Prog α} {y : α → Prog β}
    (hx : authority.Neutral (Holding p f) p x)
    (hy : ∀ a, authority.Neutral (Holding p f) p (y a)) :
    authority.Neutral (Holding p f) p (x >>= y) :=
  Logic.Neutral.bind (fun h hk => h.keeps hk) hx hy

theorem Holding.of_holds {α : Type} {x : Prog α}
    (hx : authority.Neutral (fun s => (part p s f).holds) p x) :
    authority.Neutral (Holding p f) p x :=
  fun s hs hd => hx s hs hd.holds

theorem Holding.of_any {α : Type} {x : Prog α} (hx : authority.Neutral (fun _ => True) p x) :
    authority.Neutral (Holding p f) p x :=
  fun s hs _ => hx s hs trivial

/-- One operation outside the slot. -/
theorem Holding.outside {op : Op} (h : Runtime.outside op = true) :
    authority.Neutral (Holding p f) p (perform op) :=
  fun s hs hd => neutral_outside h s hs hd.droppable

/-! ## Drains -/

theorem neutral_runCleanupContained {cleanup : Cleanup} :
    authority.Neutral (Holding p f) p (runCleanupContained f cleanup) := by
  have hclaim : authority.Neutral (Holding p f) p (perform (.claimCleanup f)) :=
    neutral_op rfl rfl nofun fun s hd g hg => Option.some.inj hg ▸ hd.holds
  refine Holding.bind hclaim fun id => ?_
  · refine Holding.bind (Holding.of_any neutral_forkCleanup) fun _ => ?_
    exact Holding.outside rfl

theorem neutral_runTokens {tokens : List Token} :
    authority.Neutral (Holding p f) p (runTokens f tokens) := by
  induction tokens with
  | nil => exact Logic.Neutral.pure ()
  | cons token rest ih =>
      refine Holding.bind ?_ fun _ => ih
      refine Holding.bind (neutral_stays rfl) fun cleanup => ?_
      cases cleanup with
      | some cleanup => exact neutral_runCleanupContained
      | none => exact Logic.Neutral.pure ()

theorem neutral_drainDisposables : authority.Neutral (Holding p f) p (drainDisposables f) := by
  refine Holding.bind ?_ fun _ => ?_
  · refine Holding.bind (neutral_stays rfl) fun id => ?_
    cases id with
    | some id => exact Holding.outside rfl
    | none => exact Logic.Neutral.pure ()
  · refine Holding.bind (neutral_stays rfl) fun tokens => ?_
    refine Holding.bind (neutral_stays rfl) fun _ => ?_
    refine Holding.bind neutral_runTokens fun _ => ?_
    exact neutral_stays rfl

/-! ## Settle passes -/

theorem neutral_unloadGeneration : authority.Neutral (Holding p f) p (unloadGeneration f) := by
  refine Holding.bind (neutral_stays rfl) fun state => ?_
  have hunload : authority.Neutral (Holding p f) p (do
      transition f .unloading
      drainDisposables f) :=
    Holding.bind (Holding.of_holds neutral_transition) fun _ => neutral_drainDisposables
  cases state with
  | active | failed | loading => exact hunload
  | pending | unloading | disposed => exact Logic.Neutral.pure ()

theorem neutral_firstApplyHeld {ownsFirstApply : Bool} :
    authority.Neutral (Holding p f) p (firstApplyHeld f ownsFirstApply) := by
  unfold firstApplyHeld
  cases ownsFirstApply with
  | true => exact Logic.Neutral.pure _
  | false =>
      refine Holding.bind (neutral_stays rfl) fun pending => ?_
      cases pending with
      | false => exact Logic.Neutral.pure _
      | true =>
          refine Holding.bind (neutral_stays rfl) fun _ => ?_
          exact Logic.Neutral.pure _

theorem neutral_rollback {failure : PluginFailure} :
    authority.Neutral (Holding p f) p (rollback f failure) := by
  refine Holding.bind (Holding.of_holds neutral_transition) fun _ => ?_
  refine Holding.bind neutral_drainDisposables fun _ => ?_
  refine Holding.bind (neutral_stays rfl) fun _ => ?_
  exact Holding.of_holds neutral_transition

/-- The apply window opens and closes inside the pass. -/
theorem wp_applyGeneration {target : SemanticTarget} (hs : SlotInv s) (hf : Spawned s f)
    (hd : Holding p f s) (ha : ¬ (part p s f).applying) :
    authority.wp p (applyGeneration f target) (fun _ s' => Keeps p s s') s := by
  refine authority.wp_seq hs (neutral_stays rfl s hs hd) ?_
  intro _ s₁ hs₁ hk₁
  refine authority.wp_seq hs₁ (neutral_transition s₁ hs₁ (hd.keeps hk₁).holds) ?_
  intro _ s₂ hs₂ hk₂
  have hk : Keeps p s s₂ := hk₁.trans hk₂
  have hx := hk.at_ f
  refine authority.wp_seq hs₂
    (wp_startApply (hk.spawned hf) (hk.holds hd.holds) (hx ▸ ha)) ?_
  intro _ s₃ hs₃ hm₃
  rw [hx] at hm₃
  have hm : Moves p f ((part p s f).withApplying True) s s₃ := Moves.keeps_trans hk hm₃
  refine authority.wp_seq hs₃ (wp_finishApply (hm.spawned hf) ?_ ?_) ?_
  · rw [hm.here]
    exact hd.holds
  · exact hd.droppable.moves hm fun hin => ⟨hin.creates, hin.owned⟩
  intro outcome s₄ hs₄ hm₄
  rw [hm.here] at hm₄
  have hk₄ : Keeps p s s₄ :=
    (hm.trans hm₄).keeps (Part.withApplying_eq ⟨False.elim, ha⟩)
  have hend {body : Prog Unit} (h : authority.Neutral (Holding p f) p body) :
      authority.wp p body (fun _ s' => Keeps p s₄ s') s₄ :=
    h s₄ hs₄ (hd.keeps hk₄)
  refine authority.wp_mono hs₄ (hend ?_) ?_
  · refine Holding.bind (neutral_stays rfl) fun _ => ?_
    cases outcome.failure with
    | none =>
        refine Holding.bind (neutral_stays rfl) fun _ => ?_
        exact Holding.of_holds neutral_transition
    | some failure => exact neutral_rollback
  intro _ s₅ _ hk₅
  exact hk₄.trans hk₅

theorem wp_settleOnceInner {target : SemanticTarget} {ownsFirstApply : Bool} (hs : SlotInv s)
    (hf : Spawned s f) (hd : Holding p f s) (ha : ¬ (part p s f).applying) :
    authority.wp p (settleOnceInner f target ownsFirstApply) (fun _ s' => Keeps p s s') s := by
  refine authority.wp_seq hs (neutral_stays rfl s hs hd) ?_
  intro alive s₁ hs₁ hk₁
  cases alive with
  | false => exact hk₁
  | true =>
      refine authority.wp_seq hs₁ (neutral_unloadGeneration s₁ hs₁ (hd.keeps hk₁)) ?_
      intro _ s₂ hs₂ hk₂
      have hk : Keeps p s s₂ := hk₁.trans hk₂
      by_cases hmissing : target.hasMissing = true
      · have hpending : authority.Neutral (Holding p f) p (do
            on f (.storeError none)
            transition f .pending) :=
          Holding.bind (neutral_stays rfl) fun _ =>
            Holding.of_holds neutral_transition
        rw [if_pos hmissing]
        exact authority.wp_mono hs₂ (hpending s₂ hs₂ (hd.keeps hk)) fun _ _ _ hk₃ => hk.trans hk₃
      · rw [if_neg hmissing]
        refine authority.wp_seq hs₂ (neutral_firstApplyHeld s₂ hs₂ (hd.keeps hk)) ?_
        intro held s₃ hs₃ hk₃
        have hk' : Keeps p s s₃ := hk.trans hk₃
        cases held with
        | true => exact hk'
        | false =>
            have ha₃ : ¬ (part p s₃ f).applying := hk'.at_ f ▸ ha
            refine authority.wp_mono hs₃
              (wp_applyGeneration hs₃ (hk'.spawned hf) (hd.keeps hk') ha₃) ?_
            intro _ s₄ _ hk₄
            exact hk'.trans hk₄

/-- The settle window opens and closes inside the pass. -/
theorem wp_settleOnce {target : SemanticTarget} {ownsFirstApply : Bool} (hs : SlotInv s)
    (hf : Spawned s f) (hd : Droppable p s) (hp : (part p s f).Owns) :
    authority.wp p (settleOnce f target ownsFirstApply) (fun _ s' => Keeps p s s') s := by
  refine authority.wp_seq hs (wp_enterSettle hf hp) ?_
  intro _ s₁ hs₁ hm₁
  have hd₁ : Holding p f s₁ :=
    ⟨hd.moves hm₁ fun hin => ⟨hin.creates, hin.owned⟩, hm₁.here ▸ hp.holds⟩
  have ha₁ : ¬ (part p s₁ f).applying := hm₁.here ▸ hp.applying
  refine authority.wp_seq hs₁ (wp_settleOnceInner hs₁ (hm₁.spawned hf) hd₁ ha₁) ?_
  intro _ s₂ hs₂ hk₂
  refine authority.wp_mono hs₂
    (wp_exitSettle (hk₂.spawned (hm₁.spawned hf)) (hk₂.holds hd₁.holds)) ?_
  intro _ s₃ _ hm₃
  rw [hk₂.at_ f, hm₁.here] at hm₃
  exact ((hm₁.trans_keeps hk₂).trans hm₃).keeps
    (Part.withSettling_eq ⟨False.elim, hp.settling⟩)

/-! ## Teardown -/

theorem neutral_unregisterInstalled :
    authority.Neutral (Holding p f) p (unregisterInstalled f) := by
  refine Holding.bind (neutral_stays rfl) fun installed => ?_
  cases installed with
  | true => exact Holding.outside rfl
  | false => exact Logic.Neutral.pure ()

theorem neutral_teardownBody : authority.Neutral (Holding p f) p (teardownBody f) := by
  refine Holding.bind (neutral_stays rfl) fun _ => ?_
  refine Holding.bind (neutral_stays rfl) fun state => ?_
  split
  · exact Logic.Neutral.pure ()
  · refine Holding.bind (Holding.of_holds neutral_transition) fun _ => ?_
    refine Holding.bind (neutral_stays rfl) fun _ => ?_
    refine Holding.bind (neutral_stays rfl) fun _ => ?_
    refine Holding.bind neutral_unregisterInstalled fun _ => ?_
    refine Holding.bind neutral_drainDisposables fun _ => ?_
    refine Holding.bind (Holding.of_holds neutral_transition) fun _ => ?_
    exact neutral_stays rfl

theorem neutral_bracketedTeardown : authority.Neutral (Holding p f) p (bracketedTeardown f) := by
  refine Holding.bind (neutral_stays rfl) fun _ => ?_
  refine Holding.bind neutral_teardownBody fun _ => ?_
  exact neutral_stays rfl

theorem neutral_releaseResidency :
    authority.Neutral (fun _ => True) p (releaseResidency f) := by
  have htake : authority.Neutral (fun _ => True) p (on f .takeResidency) :=
    neutral_quiet rfl
  refine Logic.Neutral.bind (fun _ _ => trivial) htake fun claim => ?_
  cases claim with
  | some group =>
      refine Logic.Neutral.bind (fun _ _ => trivial) (neutral_quiet rfl) fun upgraded => ?_
      cases upgraded with
      | true => exact neutral_quiet rfl
      | false => exact Logic.Neutral.pure ()
  | none => exact Logic.Neutral.pure ()

theorem neutral_publishDisposeComplete :
    authority.Neutral (fun _ => True) p (publishDisposeComplete f) :=
  neutral_quiet rfl

theorem neutral_creationTeardown : authority.Neutral (Holding p f) p (creationTeardown f) := by
  refine Holding.bind (neutral_stays rfl) fun _ => ?_
  refine Holding.bind neutral_bracketedTeardown fun _ => ?_
  refine Holding.bind (Holding.of_any neutral_releaseResidency) fun _ => ?_
  exact Holding.of_any neutral_publishDisposeComplete

theorem neutral_waitDisposeComplete :
    authority.Neutral (Droppable p) p (waitDisposeComplete f) := by
  have hD : ∀ {s s'}, Droppable p s → Keeps p s s' → Droppable p s' := fun hd hk => hd.keeps hk
  refine Logic.Neutral.iterate hD fun _ => ?_
  refine Logic.Neutral.bind hD (neutral_outside rfl) ?_
  intro complete
  cases complete with
  | true => exact Logic.Neutral.pure _
  | false =>
      refine Logic.Neutral.bind hD (neutral_outside rfl) ?_
      exact fun _ => Logic.Neutral.pure _

/-- The abandon of a terminal barrier, with the unlinking that follows it. -/
theorem wp_finishInterrupted (hs : SlotInv s) (hf : Spawned s f) (hd : Droppable p s)
    (hp : (part p s f).Owns) :
    authority.wp p (finishInterrupted f)
      (fun _ s' => Moves p f ((part p s f).withHolds False) s s') s := by
  refine authority.wp_seq hs (neutral_bracketedTeardown s hs ⟨hd, hp.holds⟩) ?_
  intro _ s₁ hs₁ hk₁
  have hp₁ : (part p s₁ f).Owns := hk₁.at_ f ▸ hp
  refine authority.wp_seq hs₁ (wp_abandon (hk₁.spawned hf) hp₁) ?_
  intro _ s₂ hs₂ hm₂
  rw [hk₁.at_ f] at hm₂
  refine authority.wp_seq hs₂ (neutral_releaseResidency s₂ hs₂ trivial) ?_
  intro _ s₃ hs₃ hk₃
  refine authority.wp_mono hs₃ (neutral_publishDisposeComplete s₃ hs₃ trivial) ?_
  intro _ s₄ _ hk₄
  exact (Moves.keeps_trans hk₁ hm₂).trans_keeps (hk₃.trans hk₄)

theorem wp_completeClaimedDispose (hs : SlotInv s) (hf : Spawned s f) (hd : Droppable p s)
    (hp : (part p s f).Owns) :
    authority.wp p (completeClaimedDispose f)
      (fun _ s' => Moves p f ((part p s f).withHolds False) s s') s := by
  refine authority.wp_seq hs (neutral_stays rfl s hs ⟨hd, hp.holds⟩) ?_
  intro _ s₁ hs₁ hk₁
  refine authority.wp_seq hs₁ (neutral_teardownBody s₁ hs₁ (Holding.keeps ⟨hd, hp.holds⟩ hk₁)) ?_
  intro _ s₂ hs₂ hk₂
  have hk : Keeps p s s₂ := hk₁.trans hk₂
  have hp₂ : (part p s₂ f).Owns := hk.at_ f ▸ hp
  refine authority.wp_seq hs₂ (wp_abandon (hk.spawned hf) hp₂) ?_
  intro _ s₃ hs₃ hm₃
  rw [hk.at_ f] at hm₃
  refine authority.wp_seq hs₃ (wp_quiet hs₃ rfl) ?_
  intro _ s₄ hs₄ hk₄
  refine authority.wp_seq hs₄ (neutral_releaseResidency s₄ hs₄ trivial) ?_
  intro _ s₅ hs₅ hk₅
  refine authority.wp_mono hs₅ (neutral_publishDisposeComplete s₅ hs₅ trivial) ?_
  intro _ s₆ _ hk₆
  exact (Moves.keeps_trans hk hm₃).trans_keeps (hk₄.trans (hk₅.trans hk₆))

end Runtime
end CordisCore
