import CordisCore.Authority.Creation

/-!
# Authority of every call — and with it of every run
-/

namespace CordisCore
namespace Runtime

open Interleaving
open Interleaving.Program (iterate)

variable {p : Party} {f : FiberId} {s : Root}

/-! ## Waiting calls -/

/-- The handle is valid and the party may be dropped. -/
structure Waiting (p : Party) (f : FiberId) (s : Root) : Prop where
  droppable : Droppable p s
  spawned : Spawned s f

theorem Waiting.keeps {s' : Root} (h : Waiting p f s) (hk : Keeps p s s') : Waiting p f s' :=
  ⟨h.droppable.keeps hk, hk.spawned h.spawned⟩

theorem Waiting.bind {α β : Type} {x : Prog α} {y : α → Prog β}
    (hx : authority.Neutral (Waiting p f) p x)
    (hy : ∀ a, authority.Neutral (Waiting p f) p (y a)) :
    authority.Neutral (Waiting p f) p (x >>= y) :=
  Logic.Neutral.bind (fun h hk => h.keeps hk) hx hy

/-- One operation that needs no slot. -/
theorem Waiting.step {op : Op} (h : outside op = true) :
    authority.Neutral (Waiting p f) p (perform op) :=
  fun s hs hd => neutral_outside h s hs hd.droppable

theorem Waiting.of_any {α : Type} {x : Prog α} (hx : authority.Neutral (fun _ => True) p x) :
    authority.Neutral (Waiting p f) p x :=
  fun s hs _ => hx s hs trivial

theorem Waiting.of_spawned {α : Type} {x : Prog α}
    (hx : authority.Neutral (fun s => Spawned s f) p x) : authority.Neutral (Waiting p f) p x :=
  fun s hs hd => hx s hs hd.spawned

theorem neutral_renudge : authority.Neutral (Waiting p f) p (renudge f) := by
  refine Waiting.bind (Waiting.of_any neutral_hasCommittedRecheck) fun outstanding => ?_
  cases outstanding with
  | false => exact Logic.Neutral.pure _
  | true =>
      refine Waiting.bind (Waiting.step rfl) fun installed => ?_
      cases installed with
      | false => exact Logic.Neutral.pure _
      | true => exact Waiting.of_spawned neutral_kick

theorem neutral_waitIdle : authority.Neutral (Waiting p f) p (waitIdle f) := by
  refine Logic.Neutral.iterate (fun h hk => Waiting.keeps h hk) fun _ => ?_
  refine Waiting.bind (Waiting.step rfl) fun idle => ?_
  cases idle with
  | true => exact Logic.Neutral.pure _
  | false => exact Waiting.bind (Waiting.step rfl) fun _ => Logic.Neutral.pure _

theorem neutral_judgeReady {observed : FiberState × Nat} :
    authority.Neutral (Waiting p f) p (judgeReady f observed) := by
  refine Waiting.bind (Waiting.of_any neutral_hasCommittedRecheck) fun outstanding => ?_
  cases outstanding with
  | true => exact Logic.Neutral.pure _
  | false =>
      refine Waiting.bind (Waiting.step rfl) fun sequence => ?_
      split
      · exact Logic.Neutral.pure _
      · split
        · refine Waiting.bind (Waiting.step rfl) fun parked => ?_
          cases parked <;> exact Logic.Neutral.pure _
        · exact Logic.Neutral.pure _
        · exact Logic.Neutral.pure _
        · exact Logic.Neutral.pure _
        · exact Waiting.bind (Waiting.step rfl) nofun
        · exact Waiting.bind (Waiting.step rfl) nofun

theorem neutral_readyRound : authority.Neutral (Waiting p f) p (readyRound f) := by
  refine Waiting.bind neutral_renudge fun _ => ?_
  refine Waiting.bind neutral_waitIdle fun _ => ?_
  refine Waiting.bind (Waiting.step rfl) fun observed => ?_
  refine Waiting.bind (Waiting.step rfl) fun idle => ?_
  cases idle with
  | false => exact Logic.Neutral.pure _
  | true => exact neutral_judgeReady

theorem neutral_handleReady {ctx : SettleCtx} :
    authority.Neutral (Waiting p f) p (handleReady ctx f) := by
  refine Waiting.bind (Waiting.step rfl) fun refused => ?_
  cases refused with
  | true => exact Logic.Neutral.pure _
  | false =>
      refine Waiting.bind ?_ fun _ => Waiting.bind (Waiting.step rfl) fun _ =>
        Logic.Neutral.pure _
      exact Logic.Neutral.iterate (fun h hk => Waiting.keeps h hk) fun _ => neutral_readyRound

theorem neutral_handleWaitState {ctx : SettleCtx} {state : FiberState} {bounded : Bool} :
    authority.Neutral (Waiting p f) p (handleWaitState ctx f state bounded) := by
  refine Waiting.bind (Waiting.step rfl) fun refused => ?_
  cases refused with
  | true => exact Logic.Neutral.pure _
  | false =>
      have hleave : authority.Neutral (Waiting p f) p (leaveBounded f bounded) := by
        unfold leaveBounded
        split
        · exact Waiting.step rfl
        · exact Logic.Neutral.pure _
      refine Waiting.bind hleave fun _ => ?_
      refine Waiting.bind (Waiting.step rfl) fun baseline => ?_
      refine Waiting.bind (Waiting.step rfl) fun observed => ?_
      refine Waiting.bind (Waiting.step rfl) fun _ => ?_
      cases observed <;> exact Logic.Neutral.pure _

/-! ## Calls that take the slot -/

theorem wp_refuse {ctx : SettleCtx} {operation : LifecycleOperation} (hs : SlotInv s) :
    authority.wp p (perform (.refuseRecursion ctx f operation)) (fun _ s' => Keeps p s s') s :=
  wp_quiet hs rfl

theorem wp_handleDispose {ctx : SettleCtx} (hs : SlotInv s) (hf : Spawned s f) (hp : Free p s) :
    authority.wp p (handleDispose ctx f) (fun _ s' => Returns p s s') s := by
  refine authority.wp_seq hs (wp_refuse hs) ?_
  intro refused s₁ hs₁ hk₁
  cases refused with
  | true => exact .of_keeps hk₁
  | false =>
      refine authority.wp_seq hs₁ (wp_dispose hs₁ (hk₁.spawned hf) (hp.keeps hk₁)) ?_
      intro _ s₂ _ hr
      exact (Returns.of_keeps hk₁).trans hr

theorem wp_handleRestart {ctx : SettleCtx} (hs : SlotInv s) (hf : Spawned s f) (hp : Free p s) :
    authority.wp p (handleRestart ctx f) (fun _ s' => Returns p s s') s := by
  refine authority.wp_seq hs (wp_refuse hs) ?_
  intro refused s₁ hs₁ hk₁
  cases refused with
  | true => exact .of_keeps hk₁
  | false =>
      refine authority.wp_seq hs₁ (wp_quiet hs₁ rfl) ?_
      intro alive s₂ hs₂ hk₂
      have hk : Keeps p s s₂ := hk₁.trans hk₂
      cases alive with
      | false => exact .of_keeps hk
      | true =>
          refine authority.wp_mono hs₂ (wp_restartPass hs₂ (hk.spawned hf) (hp.keeps hk)) ?_
          intro _ s₃ _ hr
          exact (Returns.of_keeps hk).trans hr

theorem wp_handleUpdate {ctx : SettleCtx} {change : PreparedChange} (hs : SlotInv s)
    (hf : Spawned s f) (hp : Free p s) :
    authority.wp p (handleUpdate ctx f change) (fun _ s' => Returns p s s') s := by
  refine authority.wp_seq hs (wp_refuse hs) ?_
  intro refused s₁ hs₁ hk₁
  cases refused with
  | true => exact .of_keeps hk₁
  | false =>
      refine authority.wp_seq hs₁ (wp_quiet hs₁ rfl) ?_
      intro alive s₂ hs₂ hk₂
      have hk : Keeps p s s₂ := hk₁.trans hk₂
      cases alive with
      | false => exact .of_keeps hk
      | true =>
          refine authority.wp_seq hs₂ (wp_quiet hs₂ rfl) ?_
          intro contract s₃ hs₃ hk₃
          have hk : Keeps p s s₃ := hk.trans hk₃
          split
          · exact .of_keeps hk
          · have hcontrol : authority.Neutral (Droppable p) p (perform .awaitControl) :=
              neutral_outside rfl
            refine authority.wp_seq hs₃ (hcontrol s₃ hs₃ (hp.keeps hk).droppable) ?_
            intro outcome s₄ hs₄ hk₄
            have hk : Keeps p s s₄ := hk.trans hk₄
            cases outcome with
            | failed => exact .of_keeps hk
            | vetoed => exact .of_keeps hk
            | accepted =>
                refine authority.wp_seq hs₄ (wp_updatePass hs₄ (hk.spawned hf) (hp.keeps hk)) ?_
                intro result s₅ _ hr
                cases result <;> exact (Returns.of_keeps hk).trans hr

/-! ## Typed removal -/

theorem wp_disposeEach {fibers : List FiberId} (hs : SlotInv s)
    (hf : ∀ f ∈ fibers, Spawned s f) (hp : Free p s) :
    authority.wp p (disposeEach fibers) (fun _ s' => Returns p s s') s := by
  induction fibers generalizing s with
  | nil => exact Returns.of_keeps (Keeps.refl p s)
  | cons f rest ih =>
      refine authority.wp_seq hs (wp_dispose hs (hf f List.mem_cons_self) hp) ?_
      intro _ s₁ hs₁ hr
      refine authority.wp_mono hs₁ (ih hs₁ (fun g hg => ?_) (hr.free hp)) ?_
      · exact hr.spawned (hf g (List.mem_cons_of_mem _ hg))
      · intro _ s₂ _ hr'
        exact hr.trans hr'

theorem wp_disposeAll {group : GroupId} {fibers : List FiberId} (hs : SlotInv s)
    (hf : ∀ f ∈ fibers, Spawned s f) (hp : Free p s) :
    authority.wp p (disposeAll group fibers) (fun _ s' => Returns p s s') s := by
  refine authority.wp_seq hs (wp_disposeEach hs hf hp) ?_
  intro _ s₁ hs₁ hr
  refine authority.wp_seq hs₁ (wp_quiet hs₁ rfl) ?_
  intro _ s₂ hs₂ hk₂
  refine authority.wp_seq hs₂ (wp_quiet hs₂ rfl) ?_
  intro _ s₃ _ hk₃
  exact (hr.trans (.of_keeps hk₂)).trans (.of_keeps hk₃)

theorem wp_detachForRemoval {ctx : SettleCtx} {key : PluginKey} :
    authority.wp p (perform (.detachForRemoval ctx key))
      (fun r s' => Keeps p s s' ∧
        ∀ group fibers, r = some (some (group, fibers)) → ∀ f ∈ fibers, Spawned s' f) s := by
  refine wp_look rfl rfl nofun nofun ?_
  intro c q s' s'' r _ hs' hexec hk
  have hun : Unmoved s' s'' := exec_unmoved rfl hexec
  refine ⟨hk, fun group fibers hr f hf => hun.spawned ?_⟩
  simp only [exec] at hexec
  split at hexec
  · cases hr
    simp at hexec
  · split at hexec
    · cases hr
      simp at hexec
    · simp only [Option.some.injEq, Prod.mk.injEq] at hexec
      rcases hexec with ⟨-, rfl⟩
      simp only [Option.some.injEq, Prod.mk.injEq] at hr
      rcases hr with ⟨rfl, rfl⟩
      exact hs'.groups _ f hf

theorem wp_removePlugins {ctx : SettleCtx} {key : PluginKey} (hs : SlotInv s) (hp : Free p s) :
    authority.wp p (removePlugins ctx key) (fun _ s' => Returns p s s') s := by
  refine authority.wp_seq hs wp_detachForRemoval ?_
  rintro detached s₁ hs₁ ⟨hk₁, hfibers⟩
  match detached with
  | none => exact .of_keeps hk₁
  | some none => exact .of_keeps hk₁
  | some (some (group, fibers)) =>
      refine authority.wp_seq hs₁ wp_handOff ?_
      intro _ s₂ hs₂ hdriven
      have hr₂ : Returns p s s₂ := (Returns.of_keeps hk₁).trans (.of_driven hdriven)
      have hspawned : ∀ f ∈ fibers, Spawned s₂ f := fun f hf =>
        hdriven.spawned (hfibers group fibers rfl f hf)
      refine authority.wp_seq hs₂ (wp_disposeAll hs₂ hspawned (hr₂.free hp)) ?_
      intro _ s₃ _ hr₃
      exact hr₂.trans hr₃

/-! ## Era replacement -/

/-- What a committed replacement still needs: nothing can drop it, and its handles are valid. -/
structure Detached (p : Party) (s : Root) : Prop where
  caller : (s.driving p).byCaller = false
  guard : (s.driving p).guard = none

theorem Detached.free (h : Detached p s) : Free p s := by
  intro hc
  exact h.guard

theorem Detached.keeps {s' : Root} (h : Detached p s) (hk : Keeps p s s') : Detached p s' :=
  ⟨hk.driving ▸ h.caller, hk.driving ▸ h.guard⟩

theorem Detached.returns {s' : Root} (h : Detached p s) (hr : Returns p s s') :
    Detached p s' := by
  refine ⟨?_, hr.guard.trans h.guard⟩
  cases hc : (s'.driving p).byCaller with
  | false => rfl
  | true => exact (hr.caller hc).symm.trans h.caller

theorem wp_converge {ctx : SettleCtx} {fibers : List FiberId} (hs : SlotInv s)
    (hd : Droppable p s) (hf : ∀ f ∈ fibers, Spawned s f) :
    authority.wp p (converge ctx fibers) (fun _ s' => Keeps p s s') s := by
  induction fibers generalizing s with
  | nil => exact Keeps.refl p s
  | cons f rest ih =>
      refine authority.wp_seq hs (neutral_handleReady s hs ⟨hd, hf f List.mem_cons_self⟩) ?_
      intro _ s₁ hs₁ hk₁
      refine authority.wp_mono hs₁ (ih hs₁ (hd.keeps hk₁) fun g hg => ?_) ?_
      · exact hk₁.spawned (hf g (List.mem_cons_of_mem _ hg))
      · intro _ s₂ _ hk₂
        exact hk₁.trans hk₂

theorem wp_captureAndConverge {ctx : SettleCtx} {edges : List DependencyEdge}
    {skip : List FiberId} (hs : SlotInv s) (hd : Droppable p s) :
    authority.wp p (captureAndConverge ctx edges skip) (fun _ s' => Keeps p s s') s := by
  refine authority.wp_seq hs wp_dependentsOf ?_
  rintro fibers s₁ hs₁ ⟨hfibers, hk₁⟩
  refine authority.wp_mono hs₁ (wp_converge hs₁ (hd.keeps hk₁) fun f hf => ?_) ?_
  · exact hfibers f (List.mem_of_mem_filter hf)
  · intro _ s₂ _ hk₂
    exact hk₁.trans hk₂

theorem neutral_refuseAny {ctx : SettleCtx} {fibers : List FiberId} :
    authority.Neutral (fun _ => True) p (refuseAny ctx fibers) := by
  induction fibers with
  | nil => exact Logic.Neutral.pure _
  | cons f rest ih =>
      refine neutral_seq (fun s hs _ => wp_refuse hs) fun refused => ?_
      cases refused with
      | true => exact Logic.Neutral.pure _
      | false => exact ih

/-- The call keeps being driven by nobody and its handles stay valid. -/
structure Onward (p : Party) (s s' : Root) : Prop where
  nextFiber : s.nextFiber ≤ s'.nextFiber
  detached : Detached p s'

theorem Onward.of_keeps {s' : Root} (hd : Detached p s) (hk : Keeps p s s') : Onward p s s' :=
  ⟨hk.nextFiber, hd.keeps hk⟩

theorem Onward.of_returns {s' : Root} (hd : Detached p s) (hr : Returns p s s') :
    Onward p s s' :=
  ⟨hr.nextFiber, hd.returns hr⟩

theorem Onward.trans {s' s'' : Root} (h : Onward p s s') (h' : Onward p s' s'') :
    Onward p s s'' :=
  ⟨Nat.le_trans h.nextFiber h'.nextFiber, h'.detached⟩

theorem Onward.spawned {s' : Root} (h : Onward p s s') (hf : Spawned s f) : Spawned s' f :=
  hf.mono h.nextFiber

theorem wp_cleanupUndelivered {ctx : SettleCtx} {oldEdges : List DependencyEdge}
    {source successor : FiberId} (hs : SlotInv s) (hf : Spawned s successor)
    (hd : Detached p s) :
    authority.wp p (cleanupUndeliveredSuccessor ctx oldEdges source successor)
      (fun _ s' => Onward p s s') s := by
  refine authority.wp_seq hs (wp_quiet hs rfl) ?_
  intro edges s₁ hs₁ hk₁
  have ho₁ : Onward p s s₁ := .of_keeps hd hk₁
  refine authority.wp_seq hs₁ (wp_dispose hs₁ (ho₁.spawned hf) ho₁.detached.free) ?_
  intro _ s₂ hs₂ hr₂
  have ho₂ : Onward p s₁ s₂ := .of_returns ho₁.detached hr₂
  refine authority.wp_mono hs₂ (wp_captureAndConverge hs₂ ho₂.detached.free.droppable) ?_
  intro _ s₃ _ hk₃
  exact ho₁.trans (ho₂.trans (.of_keeps ho₂.detached hk₃))

/-- The claimed source is disposed, and the successor is a spawn of its own. -/
theorem wp_runCommittedReplacement {ctx : SettleCtx} {key : PluginKey}
    {oldEdges : List DependencyEdge} {entryDependents : List FiberId} (hs : SlotInv s)
    (hf : Spawned s f) (hd : Detached p s) (ho : (part p s f).Owns)
    (hentry : ∀ g ∈ entryDependents, Spawned s g) :
    authority.wp p (runCommittedReplacement ctx f key oldEdges entryDependents)
      (fun result s' => Onward p s s' ∧ ∀ g, result = .ok g → Spawned s' g) s := by
  refine authority.wp_seq hs (wp_completeClaimedDispose hs hf hd.free.droppable ho) ?_
  intro _ s₁ hs₁ hm₁
  have ho₁ : Onward p s s₁ :=
    ⟨hm₁.nextFiber, hm₁.driving ▸ hd.caller, hm₁.driving ▸ hd.guard⟩
  refine authority.wp_seq hs₁ (wp_converge hs₁ ho₁.detached.free.droppable
    fun g hg => ho₁.spawned (hentry g hg)) ?_
  intro _ s₂ hs₂ hk₂
  have ho₂ : Onward p s s₂ := ho₁.trans (.of_keeps ho₁.detached hk₂)
  refine authority.wp_seq hs₂ (wp_quiet hs₂ rfl) ?_
  intro panicked s₃ hs₃ hk₃
  have ho₃ : Onward p s s₃ := ho₂.trans (.of_keeps ho₂.detached hk₃)
  cases panicked with
  | true =>
      refine authority.wp_seq hs₃ (wp_captureAndConverge hs₃ ho₃.detached.free.droppable) ?_
      intro _ s₄ _ hk₄
      exact ⟨ho₃.trans (.of_keeps ho₃.detached hk₄), nofun⟩
  | false =>
      refine authority.wp_seq hs₃ (wp_quiet hs₃ rfl) ?_
      intro edges s₄ hs₄ hk₄
      have ho₄ : Onward p s s₄ := ho₃.trans (.of_keeps ho₃.detached hk₄)
      refine authority.wp_seq hs₄ (wp_spawnPreparedInner hs₄ ho₄.detached.guard) ?_
      rintro spawned s₅ hs₅ ⟨hn₅, hdriving₅, hspawned⟩
      have ho₅ : Onward p s s₅ := by
        refine ho₄.trans ⟨hn₅, ?_, ?_⟩
        · rw [hdriving₅]
          exact ho₄.detached.caller
        · rw [hdriving₅]
          exact ho₄.detached.guard
      cases spawned with
      | error refusal =>
          refine authority.wp_seq hs₅
            (wp_captureAndConverge hs₅ ho₅.detached.free.droppable) ?_
          intro _ s₆ _ hk₆
          have ho₆ : Onward p s s₆ := ho₅.trans (.of_keeps ho₅.detached hk₆)
          cases refusal <;> exact ⟨ho₆, nofun⟩
      | ok successor =>
          refine authority.wp_seq hs₅ (wp_quiet hs₅ rfl) ?_
          intro successorEdges s₆ hs₆ hk₆
          have ho₆ : Onward p s s₆ := ho₅.trans (.of_keeps ho₅.detached hk₆)
          refine authority.wp_seq hs₆
            (wp_captureAndConverge hs₆ ho₆.detached.free.droppable) ?_
          intro _ s₇ _ hk₇
          refine ⟨ho₆.trans (.of_keeps ho₆.detached hk₇), fun g hg => ?_⟩
          cases hg
          exact (hk₆.trans hk₇).spawned (hspawned successor rfl)

/-- What the entry leaves: the dependents it captured are spawned. -/
theorem wp_enterEra {ctx : SettleCtx} (hs : SlotInv s) :
    authority.wp p (enterEra ctx f) (fun entry s' =>
      (∀ edges dependents, entry = .claimed edges dependents →
        ∀ g ∈ dependents, Spawned s' g) ∧ Keeps p s s') s := by
  refine authority.wp_seq hs (wp_quiet hs rfl) ?_
  intro _ s₁ hs₁ hk₁
  refine authority.wp_seq hs₁ (wp_quiet hs₁ rfl) ?_
  intro oldEdges s₂ hs₂ hk₂
  refine authority.wp_seq hs₂ wp_dependentsOf ?_
  rintro dependents s₃ hs₃ ⟨hdependents, hk₃⟩
  refine authority.wp_seq hs₃ (neutral_refuseAny s₃ hs₃ trivial) ?_
  intro refused s₄ hs₄ hk₄
  have hk : Keeps p s s₄ := hk₁.trans (hk₂.trans (hk₃.trans hk₄))
  cases refused with
  | true =>
      refine authority.wp_seq hs₄ (wp_quiet hs₄ rfl) ?_
      intro _ s₅ _ hk₅
      exact ⟨nofun, hk.trans hk₅⟩
  | false =>
      refine authority.wp_seq hs₄ (wp_quiet hs₄ rfl) ?_
      intro disposing s₅ hs₅ hk₅
      refine authority.wp_seq hs₅ (wp_quiet hs₅ rfl) ?_
      intro _ s₆ _ hk₆
      have hk' : Keeps p s s₆ := hk.trans (hk₅.trans hk₆)
      cases disposing with
      | true => exact ⟨nofun, hk'⟩
      | false =>
          refine ⟨fun edges captured hentry g hg => ?_, hk'⟩
          cases hentry
          exact (hk₄.trans (hk₅.trans hk₆)).spawned
            (hdependents g (List.mem_of_mem_filter hg))

theorem wp_replaceEra {ctx : SettleCtx} {change : PreparedChange}
    {oldEdges : List DependencyEdge} {entryDependents : List FiberId} (hs : SlotInv s)
    (hf : Spawned s f) (hd : Detached p s) (hp : (part p s f).Owns)
    (hentry : ∀ g ∈ entryDependents, Spawned s g) :
    authority.wp p (eraSwap.replaceEra ctx f change oldEdges entryDependents)
      (fun _ s' => (s'.driving p).guard = none) s := by
  refine authority.wp_seq hs (wp_runCommittedReplacement hs hf hd hp hentry) ?_
  rintro result s₁ hs₁ ⟨ho, hok⟩
  cases result with
  | error refusal => exact ho.detached.guard
  | ok successor =>
      refine authority.wp_seq hs₁ (wp_quiet hs₁ rfl) ?_
      intro taken s₂ hs₂ hk₂
      have hd₂ := ho.detached.keeps hk₂
      cases taken with
      | true => exact hd₂.guard
      | false =>
          refine authority.wp_seq hs₂ (wp_cleanupUndelivered hs₂
            (hk₂.spawned (hok successor rfl)) hd₂) ?_
          intro _ s₃ _ ho₃
          exact ho₃.detached.guard

theorem wp_eraClaimed {ctx : SettleCtx} {change : PreparedChange} (hs : SlotInv s)
    (hf : Spawned s f) (hp : (s.driving p).guard = none) :
    authority.wp p (eraSwap.eraClaimed ctx f change)
      (fun _ s' => (s'.driving p).guard = none) s := by
  have hfree : Free p s := fun _ => hp
  refine authority.wp_seq hs (wp_claim hf hfree.droppable) ?_
  intro _ s₁ hs₁ hw
  refine authority.wp_seq hs₁ (wp_quiet hs₁ rfl) ?_
  intro alive s₂ hs₂ hk₂
  have hw₂ : Won p f s s₂ := hw.keeps hk₂
  -- every refusal gives the slot back
  have hgive : ∀ {t} (refusal : EraSwapError), SlotInv t → Won p f s t →
      authority.wp p (do
        on f .abandon
        pure (.error refusal) : Prog (Except EraSwapError FiberId))
        (fun _ s' => (s'.driving p).guard = none) t := by
    intro t refusal ht hwt
    refine authority.wp_seq ht (wp_abandon (hwt.spawned hf) hwt.owns) ?_
    intro _ t' _ hm
    have hk : Keeps p s t' := hwt.restore hm
    exact (congrArg Driving.guard hk.driving).trans hp
  cases alive with
  | false => exact hgive .closed hs₂ hw₂
  | true =>
      refine authority.wp_seq hs₂ (wp_enterEra hs₂) ?_
      rintro entry s₃ hs₃ ⟨hentry, hk₃⟩
      have hw₃ : Won p f s s₃ := hw₂.keeps hk₃
      cases entry with
      | recursion => exact hgive .recursion hs₃ hw₃
      | closed => exact hgive .closed hs₃ hw₃
      | claimed oldEdges entryDependents =>
          refine authority.wp_seq hs₃ wp_handOff ?_
          intro _ s₄ hs₄ hdriven
          have hguard₃ : (s₃.driving p).guard = none := by
            rw [hw₃.2.driving]
            exact hp
          have hd₄ : Detached p s₄ := by
            refine ⟨?_, ?_⟩
            · rw [hdriven.driving]
            · rw [hdriven.driving]
              exact hguard₃
          exact wp_replaceEra hs₄ (hdriven.spawned (hw₃.spawned hf)) hd₄
            (congrFun hdriven.part f ▸ hw₃.owns)
            fun g hg => hdriven.spawned (hentry _ _ rfl g hg)

theorem neutral_closedSource : authority.Neutral (fun _ => True) p (closedSource f) := by
  have hload : ∀ flag, authority.Neutral (fun _ => True) p (on f (.load flag)) :=
    fun _ => neutral_quiet rfl
  refine neutral_seq (hload _) fun alive => ?_
  cases alive with
  | false => exact Logic.Neutral.pure _
  | true => exact hload _

theorem wp_eraSwap {ctx : SettleCtx} {change : PreparedChange} (hs : SlotInv s)
    (hf : Spawned s f) (hp : (s.driving p).guard = none) :
    authority.wp p (eraSwap ctx f change) (fun _ s' => (s'.driving p).guard = none) s := by
  have hkept : ∀ {t}, Keeps p s t → (t.driving p).guard = none := fun hk =>
    (congrArg Driving.guard hk.driving).trans hp
  refine authority.wp_seq hs (wp_refuse hs) ?_
  intro refused s₁ hs₁ hk₁
  cases refused with
  | true => exact hkept hk₁
  | false =>
      refine authority.wp_seq hs₁ (neutral_closedSource s₁ hs₁ trivial) ?_
      intro closed s₂ hs₂ hk₂
      have hk : Keeps p s s₂ := hk₁.trans hk₂
      cases closed with
      | true => exact hkept hk
      | false =>
          refine authority.wp_seq hs₂ (wp_quiet hs₂ rfl) ?_
          intro contract s₃ hs₃ hk₃
          have hk : Keeps p s s₃ := hk.trans hk₃
          split
          · exact hkept hk
          · exact wp_eraClaimed hs₃ (hk.spawned hf) (hkept hk)

end Runtime
end CordisCore
