import CordisCore.Authority.Unique
import CordisCore.Discipline.Routines

/-!
# Calls — every party keeps to the discipline, in every run

A fresh Fiber dies before it is registered or is registered for good, so whoever
finds it alive afterwards may read its edges.
-/

namespace CordisCore
namespace Runtime
namespace Discipline

open Interleaving

variable {p : Party} {f : FiberId} {s : Root} {D : Root → Prop}

/-! ## Assertions that last -/

theorem lasting_true : Lasting fun _ => True :=
  fun _ _ => trivial

theorem lasting_registered : Lasting fun s => Registered s f :=
  fun h ha => ha.registered h

theorem Lasting.and {E : Root → Prop} (hD : Lasting D) (hE : Lasting E) :
    Lasting fun s => D s ∧ E s :=
  fun h ha => ⟨hD h.1 ha, hE h.2 ha⟩

/-- The Fiber is past its registration, or died before it. -/
def Placed (f : FiberId) (s : Root) : Prop :=
  Registered s f ∨ Dead s f

theorem lasting_placed : Lasting (Placed f) :=
  fun h ha => h.imp ha.registered ha.dead

/-! ## A fresh Fiber -/

theorem wp_register (hD : Lasting D) (hd : D s) :
    discipline.wp p (perform (.register f)) (fun _ s' => D s' ∧ Placed f s') s := by
  refine wp_disciplined (disciplined_of_easy rfl) ?_
  intro s₁ s' q c r _ _ _ _ hexec hages
  refine ⟨hD hd hages, ?_⟩
  simp only [exec] at hexec
  split at hexec <;> simp only [Option.some.injEq, Prod.mk.injEq] at hexec <;>
    rcases hexec with ⟨rfl, -⟩
  · exact .inl (enroll_registered s₁ f)
  · rename_i hdead
    exact .inr (eq_false_of_ne_true hdead)

theorem wp_admitFiber (hD : Lasting D) (hs : Indexed s) (hd : D s) {key : PluginKey}
    {edges : List DependencyEdge} :
    discipline.wp p (admitFiber key edges) (fun g s' => D s' ∧ Placed g s') s := by
  refine discipline.wp_seq hs (maintains_easy hD rfl s hs hd) fun g s₁ hs₁ hd₁ => ?_
  refine discipline.wp_seq hs₁ (maintains_easy hD rfl s₁ hs₁ hd₁) fun _ s₂ hs₂ hd₂ => ?_
  refine discipline.wp_seq hs₂ (maintains_easy hD rfl s₂ hs₂ hd₂) fun _ s₃ hs₃ hd₃ => ?_
  refine discipline.wp_seq hs₃ (maintains_easy hD rfl s₃ hs₃ hd₃) fun _ s₄ hs₄ hd₄ => ?_
  exact discipline.wp_seq hs₄ (wp_register hD hd₄) fun _ _ _ hplaced => hplaced

/-- Whoever finds a placed Fiber alive may read its edges. -/
theorem wp_alive (hD : Lasting D) (hf : ∀ s, D s → Placed f s) (hd : D s) :
    discipline.wp p (on f (.load .alive))
      (fun alive s' => D s' ∧ (alive = true → Registered s' f)) s := by
  refine wp_disciplined (disciplined_of_easy rfl) ?_
  intro s₁ s' q c r _ _ _ _ hexec hages
  have hd' : D s' := hD hd hages
  refine ⟨hd', fun halive => (hf s' hd').resolve_right fun hdead => ?_⟩
  have hexec := hexec
  simp only [exec, FiberOp.exec, Option.map_some, Option.some.injEq, Prod.mk.injEq] at hexec
  rcases hexec with ⟨rfl, rfl⟩
  rw [Dead, Root.fibers_put, halive] at hdead
  cases hdead

theorem maintains_initialSpawnPass (hD : Lasting D) (hf : ∀ s, D s → Placed f s) :
    discipline.Maintains D p (initialSpawnPass f) := by
  refine .bind (maintains_blind hD protocol_claimInitial.routed) fun _ s hs hd => ?_
  refine discipline.wp_seq hs (wp_alive hD hf hd) ?_
  rintro alive s₁ hs₁ ⟨hd₁, hregistered⟩
  cases alive with
  | false =>
      exact maintains_blind hD (.bind routed_releaseResidency fun _ =>
        .bind (routed_op rfl) fun _ => .pure _) s₁ hs₁ hd₁
  | true =>
      have hread : discipline.Maintains (fun s => D s ∧ Registered s f) p (do
          on f (.store .creationOwned true)
          let outcome ← Program.iterate () fun _ => initialRound f
          on f (.store .creationOwned false)
          releaseInitial f outcome.released
          pure outcome : Prog InitialOutcome) :=
        maintains_reader (hD.and lasting_registered) (fun _ h => h.2)
          (.bind (routed_op rfl) fun _ => .bind (.iterate fun _ => routed_initialRound rfl)
            fun _ => .bind (routed_op rfl) fun _ =>
              .bind protocol_releaseInitial.routed fun _ => .pure _)
      exact discipline.wp_mono hs₁ (hread s₁ hs₁ ⟨hd₁, hregistered rfl⟩) fun _ _ _ h => h.1

theorem maintains_handoff (hD : Lasting D) (hf : ∀ s, D s → Placed f s) :
    discipline.Maintains D p (handoff f) := by
  refine .bind (maintains_blind hD protocol_claim.routed) fun _ s hs hd => ?_
  refine discipline.wp_seq hs (wp_alive hD hf hd) ?_
  rintro alive s₁ hs₁ ⟨hd₁, hregistered⟩
  cases alive with
  | false =>
      exact maintains_blind hD (.bind (routed_op rfl) fun _ => .bind routed_releaseResidency
        fun _ => .bind (routed_op rfl) fun _ => .pure _) s₁ hs₁ hd₁
  | true =>
      have hD' : Lasting fun s => D s ∧ Registered s f := hD.and lasting_registered
      have hread : discipline.Maintains (fun s => D s ∧ Registered s f) p (do
          on f .abandon
          on f (.store .creationPending false)
          perform .disarm
          on f .deliver
          pure (.ok f) : Prog (Except SpawnError FiberId)) :=
        .bind (maintains_easy hD' rfl) fun _ => .bind (maintains_easy hD' rfl) fun _ =>
          .bind (maintains_easy hD' rfl) fun _ =>
            .bind (maintains_indexed hD' ⟨rfl, rfl, rfl, rfl, rfl⟩ fun _ h => h.2) fun _ => .pure _
      exact discipline.wp_mono hs₁ (hread s₁ hs₁ ⟨hd₁, hregistered rfl⟩) fun _ _ _ h => h.1

theorem maintains_spawnPreparedInner (hD : Lasting D) {origin : FiberId} {key : PluginKey}
    {edges : List DependencyEdge} {requireOriginOpen : Bool} :
    discipline.Maintains D p (spawnPreparedInner origin key edges requireOriginOpen) := by
  refine .bind (maintains_blind hD protocol_admitOrigin.routed) fun admitted s hs hd => ?_
  cases admitted with
  | false => exact hd
  | true =>
      refine discipline.wp_seq hs (wp_admitFiber hD hs hd) fun g s₁ hs₁ hd₁ => ?_
      have hD' : Lasting fun s => D s ∧ Placed g s := hD.and lasting_placed
      refine discipline.wp_mono hs₁ (Logic.Maintains.bind
        (maintains_initialSpawnPass hD' fun _ h => h.2) (fun outcome => ?_) s₁ hs₁ hd₁)
        fun _ _ _ h => h.1
      cases outcome with
      | active | pending => exact maintains_handoff hD' fun _ h => h.2
      | failed failure => exact .bind (maintains_easy hD' rfl) fun _ => .pure _
      | interrupted => exact .bind (maintains_easy hD' rfl) fun _ => .pure _

/-! ## Era replacement -/

theorem maintains_converge (hD : Lasting D) {ctx : SettleCtx} {fibers : List FiberId}
    (h : ∀ s, D s → ∀ g ∈ fibers, Registered s g) :
    discipline.Maintains D p (converge ctx fibers) :=
  maintains_routed hD (A := fun g => g ∈ fibers) h (protocol_converge fun _ hg => hg).routed

theorem lasting_all {fibers : List FiberId} :
    Lasting fun s => ∀ g ∈ fibers, Registered s g :=
  fun h ha g hg => ha.registered (h g hg)

/-- Code that goes on with registered fibers it was given. -/
theorem wp_converge (hD : Lasting D) {ctx : SettleCtx} {fibers : List FiberId} (hs : Indexed s)
    (hd : D s) (h : ∀ g ∈ fibers, Registered s g) :
    discipline.wp p (converge ctx fibers) (fun _ s' => D s') s :=
  discipline.wp_mono hs
    (maintains_converge (hD.and lasting_all) (fun _ h => h.2) s hs ⟨hd, h⟩) fun _ _ _ h => h.1

theorem maintains_captureAndConverge (hD : Lasting D) {ctx : SettleCtx}
    {edges : List DependencyEdge} {skip : List FiberId} :
    discipline.Maintains D p (captureAndConverge ctx edges skip) := by
  intro s hs hd
  refine discipline.wp_seq hs (wp_dependentsOf (Has.none p s)) ?_
  rintro dependents s₁ hs₁ ⟨hdependents, -, ha₁⟩
  exact wp_converge hD hs₁ (hD hd ha₁) fun g hg => hdependents g (List.mem_of_mem_filter hg)

theorem maintains_cleanupUndeliveredSuccessor (hD : Lasting D) {ctx : SettleCtx}
    {oldEdges : List DependencyEdge} {source successor : FiberId} :
    discipline.Maintains D p (cleanupUndeliveredSuccessor ctx oldEdges source successor) :=
  .bind (maintains_easy hD rfl) fun _ => .bind (maintains_blind hD routed_dispose) fun _ =>
    maintains_captureAndConverge hD

theorem wp_runCommittedReplacement {ctx : SettleCtx} {key : PluginKey}
    {oldEdges : List DependencyEdge} {dependents : List FiberId} (hs : Indexed s)
    (hf : Registered s f) (hdependents : ∀ g ∈ dependents, Registered s g) :
    discipline.wp p (runCommittedReplacement ctx f key oldEdges dependents)
      (fun _ _ => True) s := by
  have hD : Lasting fun s => Registered s f ∧ ∀ g ∈ dependents, Registered s g :=
    lasting_registered.and lasting_all
  have hlast : Lasting fun s => Registered s f := lasting_registered
  refine discipline.wp_seq hs
    (maintains_blind hD routed_completeClaimedDispose s hs ⟨hf, hdependents⟩) ?_
  rintro _ s₁ hs₁ ⟨hf₁, hdependents₁⟩
  refine discipline.wp_seq hs₁ (wp_converge hlast hs₁ hf₁ hdependents₁) ?_
  intro _ s₂ hs₂ hf₂
  refine discipline.wp_seq hs₂ (maintains_easy hlast rfl s₂ hs₂ hf₂) ?_
  intro panicked s₃ hs₃ hf₃
  cases panicked with
  | true =>
      exact discipline.wp_seq hs₃ (maintains_captureAndConverge hlast s₃ hs₃ hf₃)
        fun _ _ _ _ => trivial
  | false =>
      refine discipline.wp_seq hs₃
        (maintains_indexed hlast ⟨rfl, rfl, rfl, rfl, rfl⟩ (fun _ h => h) s₃ hs₃ hf₃) ?_
      intro edges s₄ hs₄ hf₄
      refine discipline.wp_seq hs₄ (maintains_spawnPreparedInner hlast s₄ hs₄ hf₄) ?_
      intro spawned s₅ hs₅ hf₅
      cases spawned with
      | error refusal =>
          refine discipline.wp_seq hs₅ (maintains_captureAndConverge hlast s₅ hs₅ hf₅) ?_
          intro _ _ _ _
          cases refusal <;> exact trivial
      | ok successor =>
          refine discipline.wp_seq hs₅ (maintains_easy hlast rfl s₅ hs₅ hf₅) ?_
          intro _ s₆ hs₆ hf₆
          exact discipline.wp_seq hs₆ (maintains_captureAndConverge hlast s₆ hs₆ hf₆)
            fun _ _ _ _ => trivial

theorem wp_replaceEra {ctx : SettleCtx} {change : PreparedChange} {oldEdges : List DependencyEdge}
    {dependents : List FiberId} (hs : Indexed s) (hf : Registered s f)
    (hdependents : ∀ g ∈ dependents, Registered s g) :
    discipline.wp p (eraSwap.replaceEra ctx f change oldEdges dependents) (fun _ _ => True) s := by
  refine discipline.wp_seq hs (wp_runCommittedReplacement hs hf hdependents) ?_
  intro result s₁ hs₁ _
  cases result with
  | error refusal => exact trivial
  | ok successor =>
      refine discipline.wp_seq hs₁ (maintains_easy lasting_true rfl s₁ hs₁ trivial) ?_
      intro taken s₂ hs₂ _
      cases taken with
      | true => exact trivial
      | false =>
          exact discipline.wp_seq hs₂
            (maintains_cleanupUndeliveredSuccessor lasting_true s₂ hs₂ trivial)
            fun _ _ _ _ => trivial

theorem wp_eraClaimed {ctx : SettleCtx} {change : PreparedChange} (hs : Indexed s)
    (hf : Registered s f) :
    discipline.wp p (eraSwap.eraClaimed ctx f change) (fun _ _ => True) s := by
  have hlast : Lasting fun s => Registered s f := lasting_registered
  refine discipline.wp_seq hs (maintains_blind hlast protocol_claim.routed s hs hf) ?_
  intro _ s₁ hs₁ hf₁
  refine discipline.wp_seq hs₁ (maintains_easy hlast rfl s₁ hs₁ hf₁) ?_
  intro alive s₂ hs₂ hf₂
  have habandon : ∀ (refusal : EraSwapError) {t}, Indexed t → discipline.wp p (do
      on f .abandon
      pure (.error refusal) : Prog (Except EraSwapError FiberId)) (fun _ _ => True) t :=
    fun _ t ht => discipline.wp_seq ht (maintains_easy lasting_true rfl t ht trivial)
      fun _ _ _ _ => trivial
  cases alive with
  | false => exact habandon _ hs₂
  | true =>
      refine discipline.wp_seq hs₂ (wp_enterEra hs₂) ?_
      rintro entry s₃ hs₃ ⟨hcaptured, ha₃⟩
      cases entry with
      | recursion | closed => exact habandon _ hs₃
      | claimed oldEdges dependents =>
          have hD : Lasting fun s => Registered s f ∧ ∀ g ∈ dependents, Registered s g :=
            lasting_registered.and lasting_all
          refine discipline.wp_seq hs₃ (maintains_easy hD rfl s₃ hs₃
            ⟨ha₃.registered hf₂, hcaptured oldEdges dependents rfl⟩) ?_
          rintro _ s₄ hs₄ ⟨hf₄, hdependents₄⟩
          exact wp_replaceEra hs₄ hf₄ hdependents₄

theorem wp_eraSwap {ctx : SettleCtx} {change : PreparedChange} (hs : Indexed s)
    (hf : Registered s f) :
    discipline.wp p (eraSwap ctx f change) (fun _ _ => True) s := by
  have hlast : Lasting fun s => Registered s f := lasting_registered
  refine discipline.wp_seq hs (maintains_easy hlast rfl s hs hf) ?_
  intro refused s₁ hs₁ hf₁
  cases refused with
  | true => exact trivial
  | false =>
      have hclosed : discipline.Maintains (fun s => Registered s f) p (closedSource f) := by
        refine .bind (maintains_easy hlast rfl) fun alive => ?_
        cases alive with
        | true => exact maintains_easy hlast rfl
        | false => exact .pure _
      refine discipline.wp_seq hs₁ (hclosed s₁ hs₁ hf₁) ?_
      intro closed s₂ hs₂ hf₂
      cases closed with
      | true => exact trivial
      | false =>
          refine discipline.wp_seq hs₂ (maintains_easy hlast rfl s₂ hs₂ hf₂) ?_
          intro contract s₃ hs₃ hf₃
          split
          · exact trivial
          · exact wp_eraClaimed hs₃ hf₃

/-! ## Run tasks -/

theorem wp_nextCall : discipline.wp p (perform (.nextCall f))
    (fun call s' => ∀ g, call.handle = some g → Registered s' g) s := by
  refine wp_disciplined (disciplined_of_easy rfl) ?_
  intro s₁ s' q c r _ _ _ hindexed hexec _ g hg
  simp only [exec] at hexec
  split at hexec
  · rename_i call
    simp only [guarded, Option.ite_none_right_eq_some, Option.some.injEq, Prod.mk.injEq] at hexec
    rcases hexec with ⟨hcallable, rfl, rfl⟩
    refine hindexed.delivered g ?_
    cases call <;> simp only [TaskCall.handle, reduceCtorEq, Option.some.injEq] at hg <;>
      (subst hg; exact hcallable)
  · cases hexec

theorem wp_taskCall {call : TaskCall} (hs : Indexed s)
    (hcall : ∀ g, call.handle = some g → Registered s g) :
    discipline.wp p (taskCall f call) (fun _ _ => True) s := by
  -- calls on one Fiber read the edges of no other
  have hreads : ∀ {g : FiberId} {α : Type} {x : Prog α}, Routed (fun g' => g' = g) x →
      call.handle = some g → discipline.wp p (do
        let _ ← x
        pure () : Prog Unit) (fun _ _ => True) s := fun hx hg =>
    discipline.wp_seq hs
      (maintains_reader lasting_registered (fun _ h => h) hx s hs (hcall _ hg))
      fun _ _ _ _ => trivial
  cases call with
  | finish => exact trivial
  | ready g => exact hreads (protocol_handleReady (A := fun g' => g' = g) rfl).routed rfl
  | waitState g state bounded => exact hreads protocol_handleWaitState.routed rfl
  | dispose g => exact hreads routed_handleDispose rfl
  | restart g => exact hreads (protocol_handleRestart (A := fun g' => g' = g) rfl).routed rfl
  | update g change => exact hreads (routed_handleUpdate rfl) rfl
  | eraSwap g change =>
      exact discipline.wp_seq hs (wp_eraSwap hs (hcall g rfl)) fun _ _ _ _ => trivial
  | removePlugins key =>
      exact discipline.wp_seq hs (maintains_blind lasting_true routed_removePlugins s hs trivial)
        fun _ _ _ _ => trivial

theorem wp_taskBody (hs : Indexed s) : discipline.wp p (taskBody f) (fun _ _ => True) s := by
  refine discipline.wp_seq (R := fun _ _ => True) hs ?_ fun _ s₁ hs₁ _ =>
    maintains_easy lasting_true rfl s₁ hs₁ trivial
  refine discipline.wp_iterate (fun _ _ => True) trivial ?_
  intro _ s₁ hs₁ _
  refine discipline.wp_seq hs₁ wp_nextCall ?_
  intro call s₂ hs₂ hcall
  split
  · exact trivial
  · exact discipline.wp_seq hs₂ (wp_taskCall hs₂ hcall) fun _ _ _ _ => trivial

/-! ## Every routine -/

theorem wp_body {routine : Routine} (hs : Indexed s)
    (hpre : ∀ f, routine.needsIndex = some f → Registered s f) :
    discipline.wp p (body routine) (fun _ _ => True) s := by
  have hblind : ∀ {α : Type} {x : Prog α}, Routed (fun _ => False) x →
      discipline.wp p x (fun _ _ => True) s := fun hx =>
    maintains_blind lasting_true hx s hs trivial
  have hreads : ∀ {g : FiberId} {α : Type} {x : Prog α}, Routed (fun g' => g' = g) x →
      routine.needsIndex = some g → discipline.wp p x (fun _ _ => True) s := fun hx hg =>
    discipline.wp_mono hs
      (maintains_reader lasting_registered (fun _ h => h) hx s hs (hpre _ hg))
      fun _ _ _ _ => trivial
  cases routine with
  | spawn origin key edges =>
      exact discipline.wp_seq hs (maintains_spawnPreparedInner lasting_true s hs trivial)
        fun _ _ _ _ => trivial
  | ready ctx f =>
      have hx : Protocol (fun g => g = f) (handleReady ctx f) := protocol_handleReady rfl
      exact hreads (.bind hx.routed fun _ => .pure _) rfl
  | waitState ctx f state bounded =>
      exact hblind (.bind protocol_handleWaitState.routed fun _ => .pure _)
  | dispose ctx f =>
      refine hblind (.bind routed_handleDispose fun disposed => ?_)
      cases disposed <;> exact .pure _
  | restart ctx f =>
      have hx : Protocol (fun g => g = f) (handleRestart ctx f) := protocol_handleRestart rfl
      exact hreads (.bind hx.routed fun _ => .pure _) rfl
  | update ctx f change => exact hreads (.bind (routed_handleUpdate rfl) fun _ => .pure _) rfl
  | eraSwap ctx f change =>
      exact discipline.wp_seq hs (wp_eraSwap hs (hpre f rfl)) fun _ _ _ _ => trivial
  | removePlugins ctx key => exact hblind (.bind routed_removePlugins fun _ => .pure _)
  | provide f key contract value =>
      exact hblind (.bind (.block (.block (.provide f key contract value))) fun _ => .pure _)
  | set publication value =>
      exact hblind (.bind (.block (.block (.setExact publication value))) fun _ => .pure _)
  | remove publication =>
      exact hblind (.bind (.block (.block (.removePublication publication))) fun _ => .pure _)
  | tryService key contract => exact hblind (.bind (routed_op rfl) fun _ => .pure _)
  | effect f => exact hblind (.bind protocol_effect.routed fun _ => .pure _)
  | disarm f token => exact hblind (.bind protocol_disarm.routed fun _ => .pure _)
  | disposeEffect f token => exact hblind (.bind protocol_disposeEffect.routed fun _ => .pure _)
  | run f => exact hblind (.bind protocol_run.routed fun _ => .pure _)
  | convergence f =>
      have hx := protocol_convergencePass (A := fun g => g = f) rfl
      exact hreads (.bind hx.routed fun _ => .pure _) rfl
  | cleanup f id cleanup => exact hblind (.bind protocol_runCleanup.routed fun _ => .pure _)
  | task f => exact discipline.wp_seq hs (wp_taskBody hs) fun _ _ _ _ => trivial
  | creationGuard f => exact hblind (.bind routed_creationInterruptedTeardown fun _ => .pure _)

/-- Only delivered handles can be called from outside. -/
theorem indexed_of_admitted {routine : Routine} (hs : Indexed s)
    (h : admits s routine = true) {f : FiberId} (hf : routine.needsIndex = some f) :
    Registered s f := by
  cases routine <;> simp only [Routine.needsIndex, reduceCtorEq, Option.some.injEq] at hf <;>
    (subst hf; first | exact hs.delivered _ h | exact absurd h Bool.noConfusion)

theorem discipline_verified : discipline.Verified where
  grounded h _ _ _ _ := fresh_of_reachable h
  init := ⟨nofun, fun f hf => by
    simp only [cordis, Root.new, Fiber.root, Fiber.publish] at hf
    split at hf <;> simp at hf⟩
  vacant _ := trivial
  body routine p s hs hpre := wp_body hs hpre
  enter p routine s s' hs _ h := by
    simp only [cordis, enter, Option.ite_none_right_eq_some, Option.some.injEq] at h
    rcases h with ⟨hadmits, rfl⟩
    exact ⟨⟨hs.reverse, hs.delivered⟩, fun t _ => ⟨⟨id, fun _ => id, fun _ => id⟩, ⟨id, id⟩⟩,
      fun f hf => indexed_of_admitted hs hadmits hf⟩

end Discipline

/-! ## Every run -/

open Interleaving

/-- Every party is entitled to the operation it is about to perform, and only registered fibers
are in the index or were handed out. -/
structure Orderly (c : State) : Prop where
  disciplined : ∀ p op next, c.pool p = some (.act op next) → Disciplined p op c.shared
  indexed : Indexed c.shared

end Runtime
end CordisCore
