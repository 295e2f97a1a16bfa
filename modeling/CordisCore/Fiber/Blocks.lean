import CordisCore.Fiber.System

/-!
# Blocks — the routines as plain operations around a few protocol blocks
-/

namespace CordisCore
namespace Runtime

open Interleaving
open Interleaving.Program (Built iterate)

/-- The operations on a Fiber that belong to a protocol block, or to none. -/
def FiberOp.plain : FiberOp → Bool
  | .storeInertia _ | .release | .loadInertia _ | .reclaim _ | .kicked _ | .storeSettled _ _
  | .publish _ | .store .alive true | .swapGated .alive | .lockDisposables | .unlockDisposables
  | .lockGate | .unlockGate | .takeResidency => false
  | _ => true

/-- The operations that occur outside the protocol blocks. -/
def plain : Op → Bool
  | .on _ op => op.plain
  | .commitRecheck _ | .push _ _ | .lockStore | .unlockStore | .bindContract _ _
  | .occupied _ | .holds _ _ | .insertSlot _ | .replaceValue _ _ | .removeSlot _
  | .visibility _ | .allocate _ | .attach _ _ | .install _ _ | .upgradeClaim _ _
  | .releaseClaim _ _ | .commitChange _ => false
  | .fork (.cleanup _ _ _) | .fork (.task _) => true
  | .fork _ => false
  | _ => true

/-- The Fiber whose edges an operation reads or hands out for reading. -/
def reads : Op → Option FiberId
  | .on f .dependencyEdges | .on f .deliver => some f
  | _ => none

/-- The blocks of the recheck protocol, of service control and of registration. -/
inductive Block (A : FiberId → Prop) : (α : Type) → Prog α → Prop where
  | transition (f : FiberId) (next : FiberState) : Block A _ (transition f next)
  | exitRecheck {f : FiberId} (hf : A f) (settled : SemanticTarget) (revision : Nat) :
      Block A _ (exitRecheck f settled revision)
  | renudge {f : FiberId} (hf : A f) : Block A _ (renudge f)
  | pushNothing {ε : Type} (f : FiberId) (cleanup : Cleanup) (inactive : ε)
      (h : ∀ key occurrence, cleanup ≠ .withdraw key occurrence) :
      Block A _ (pushGated f cleanup inactive noPublish)
  | enterEra (ctx : SettleCtx) (f : FiberId) : Block A _ (enterEra ctx f)
  | provide (f : FiberId) (key : DependencyEdge) (contract : Contract) (value : Nat) :
      Block A _ (provide f key contract value)
  | setExact (publication : ServicePublication) (value : Nat) :
      Block A _ (setExact publication value)
  | removePublication (publication : ServicePublication) :
      Block A _ (removePublication publication)
  | withdraw (key : DependencyEdge) (occurrence : Occurrence) :
      Block A _ (cleanupBody (.withdraw key occurrence))

/-- Plain operations and protocol blocks, with the edges of `A` to read. -/
abbrev Protocol (A : FiberId → Prop) {α : Type} (x : Prog α) : Prop :=
  x.Built (fun op => plain op = true ∧ ∀ f, reads op = some f → A f) (Block A)

/-- The protocol blocks, and the stages of a Fiber's residency and input between them. -/
inductive Stage (A : FiberId → Prop) : (α : Type) → Prog α → Prop where
  | block {α : Type} {x : Prog α} (h : Block A α x) : Stage A α x
  | commitChange (f : FiberId) : Stage A _ (perform (.commitChange f))
  | admitFiber (key : PluginKey) (edges : List DependencyEdge) : Stage A _ (admitFiber key edges)
  | releaseResidency (f : FiberId) : Stage A _ (releaseResidency f)

/-- Plain operations, protocol blocks and stages. -/
abbrev Routed (A : FiberId → Prop) {α : Type} (x : Prog α) : Prop :=
  x.Built (fun op => plain op = true ∧ ∀ f, reads op = some f → A f) (Stage A)

variable {A : FiberId → Prop} {f : FiberId}

theorem Protocol.routed {α : Type} {x : Prog α} (h : Protocol A x) : Routed A x :=
  h.mono (fun _ hop => hop) fun hblock => .block (.block hblock)

theorem protocol_op {op : Op} (h : (plain op && (reads op).isNone) = true) :
    Protocol A (perform op) := by
  simp only [Bool.and_eq_true, Option.isNone_iff_eq_none] at h
  refine .op ⟨h.1, fun g hg => ?_⟩
  rw [h.2] at hg
  cases hg

theorem routed_op {op : Op} (h : (plain op && (reads op).isNone) = true) :
    Routed A (perform op) :=
  (protocol_op h).routed

theorem protocol_dependencyEdges (hf : A f) : Protocol A (on f .dependencyEdges) := by
  refine .op ⟨rfl, fun g hg => ?_⟩
  cases hg
  exact hf

/-! ## Looking and claiming -/

theorem protocol_claim : Protocol A (claim f) := by
  refine .iterate fun _ => .bind (protocol_op rfl) fun won => ?_
  cases won with
  | true => exact .pure _
  | false => exact .bind (protocol_op rfl) fun _ => .pure _

theorem protocol_readAssignments {edges : List DependencyEdge} :
    Protocol A (readAssignments edges) := by
  induction edges with
  | nil => exact .pure _
  | cons edge edges ih => exact .bind (protocol_op rfl) fun _ => .bind ih fun _ => .pure _

theorem protocol_computeTarget (hf : A f) : Protocol A (computeTarget f) :=
  .bind (protocol_op rfl) fun _ => .bind (protocol_dependencyEdges hf) fun _ =>
    .bind protocol_readAssignments fun _ => .pure _

theorem protocol_hasCommittedRecheck : Protocol A (hasCommittedRecheck f) :=
  .bind (protocol_op rfl) fun _ => .bind (protocol_op rfl) fun _ => .pure _

theorem protocol_assertCanRegister : Protocol A (assertCanRegister f) := by
  refine .bind (protocol_op rfl) fun alive => ?_
  cases alive with
  | false => exact .pure _
  | true =>
      refine .bind (protocol_op rfl) fun disposing => ?_
      cases disposing with
      | true => exact .pure _
      | false =>
          refine .bind (protocol_op rfl) fun replacing => ?_
          cases replacing with
          | true => exact .pure _
          | false => exact .bind (protocol_op rfl) fun _ => .pure _

/-! ## Settle passes and teardowns -/

theorem protocol_drainDisposables : Protocol A (drainDisposables f) := by
  have hclaimed : Protocol A (waitClaimedDrainCleanup f) := by
    refine .bind (protocol_op rfl) fun id => ?_
    cases id with
    | some id => exact protocol_op rfl
    | none => exact .pure _
  have htokens : ∀ tokens, Protocol A (runTokens f tokens) := by
    intro tokens
    induction tokens with
    | nil => exact .pure _
    | cons token rest ih =>
        refine .bind (.bind (protocol_op rfl) fun cleanup => ?_) fun _ => ih
        cases cleanup with
        | some cleanup => exact .bind (protocol_op rfl) fun _ => .bind (protocol_op rfl) fun _ => protocol_op rfl
        | none => exact .pure _
  exact .bind hclaimed fun _ => .bind (protocol_op rfl) fun _ => .bind (protocol_op rfl) fun _ =>
    .bind (htokens _) fun _ => protocol_op rfl

theorem protocol_transition {next : FiberState} : Protocol A (transition f next) :=
  .block (.transition f next)

theorem protocol_settleOnce {target : SemanticTarget} {ownsFirstApply : Bool} :
    Protocol A (settleOnce f target ownsFirstApply) := by
  have hunload : Protocol A (unloadGeneration f) := by
    refine .bind (protocol_op rfl) fun state => ?_
    cases state with
    | active | failed | loading => exact .bind protocol_transition fun _ => protocol_drainDisposables
    | pending | unloading | disposed => exact .pure _
  have hheld : Protocol A (firstApplyHeld f ownsFirstApply) := by
    unfold firstApplyHeld
    cases ownsFirstApply with
    | true => exact .pure _
    | false =>
        refine .bind (protocol_op rfl) fun pending => ?_
        cases pending with
        | false => exact .pure _
        | true => exact .bind (protocol_op rfl) fun _ => .pure _
  have hrollback : ∀ failure, Protocol A (rollback f failure) := fun _ =>
    .bind protocol_transition fun _ => .bind protocol_drainDisposables fun _ =>
      .bind (protocol_op rfl) fun _ => protocol_transition
  have happly : Protocol A (applyGeneration f target) := by
    refine .bind (protocol_op rfl) fun _ => .bind protocol_transition fun _ => .bind (protocol_op rfl) fun _ =>
      .bind (protocol_op rfl) fun outcome => .bind (protocol_op rfl) fun _ => ?_
    cases outcome.failure with
    | none => exact .bind (protocol_op rfl) fun _ => protocol_transition
    | some failure => exact hrollback failure
  refine .bind (protocol_op rfl) fun _ => .bind ?_ fun _ => protocol_op rfl
  refine .bind (protocol_op rfl) fun alive => ?_
  cases alive with
  | false => exact .pure _
  | true =>
      refine .bind hunload fun _ => ?_
      split
      · exact .bind (protocol_op rfl) fun _ => protocol_transition
      · refine .bind hheld fun held => ?_
        cases held with
        | true => exact .pure _
        | false => exact happly

theorem protocol_teardownBody : Protocol A (teardownBody f) := by
  have hunregister : Protocol A (unregisterInstalled f) := by
    refine .bind (protocol_op rfl) fun installed => ?_
    cases installed with
    | true => exact protocol_op rfl
    | false => exact .pure _
  refine .bind (protocol_op rfl) fun _ => .bind (protocol_op rfl) fun state => ?_
  split
  · exact .pure _
  · exact .bind protocol_transition fun _ => .bind (protocol_op rfl) fun _ => .bind (protocol_op rfl) fun _ =>
      .bind hunregister fun _ => .bind protocol_drainDisposables fun _ =>
        .bind protocol_transition fun _ => protocol_op rfl

theorem protocol_bracketedTeardown : Protocol A (bracketedTeardown f) :=
  .bind (protocol_op rfl) fun _ => .bind protocol_teardownBody fun _ => protocol_op rfl

theorem routed_releaseResidency : Routed A (releaseResidency f) :=
  .block (.releaseResidency f)

theorem routed_completeClaimedDispose : Routed A (completeClaimedDispose f) :=
  .bind (routed_op rfl) fun _ => .bind protocol_teardownBody.routed fun _ => .bind (routed_op rfl) fun _ =>
    .bind (routed_op rfl) fun _ => .bind routed_releaseResidency fun _ => routed_op rfl

theorem protocol_waitDisposeComplete : Protocol A (waitDisposeComplete f) := by
  refine .iterate fun _ => .bind (protocol_op rfl) fun complete => ?_
  cases complete with
  | true => exact .pure _
  | false => exact .bind (protocol_op rfl) fun _ => .pure _

theorem routed_dispose : Routed A (dispose f) := by
  refine .bind (routed_op rfl) fun complete => ?_
  cases complete with
  | true => exact .pure _
  | false =>
      refine .bind protocol_claim.routed fun _ => .bind (routed_op rfl) fun complete => ?_
      cases complete with
      | true => exact routed_op rfl
      | false =>
          refine .bind (routed_op rfl) fun disposing => ?_
          cases disposing with
          | true => exact .bind (routed_op rfl) fun _ => protocol_waitDisposeComplete.routed
          | false => exact .bind (routed_op rfl) fun _ => routed_completeClaimedDispose

theorem routed_creationTeardown : Routed A (creationTeardown f) :=
  .bind (routed_op rfl) fun _ => .bind protocol_bracketedTeardown.routed fun _ =>
    .bind routed_releaseResidency fun _ => routed_op rfl

theorem routed_finishInterrupted : Routed A (finishInterrupted f) :=
  .bind protocol_bracketedTeardown.routed fun _ => .bind (routed_op rfl) fun _ =>
    .bind routed_releaseResidency fun _ => routed_op rfl

theorem routed_creationInterruptedTeardown : Routed A (creationInterruptedTeardown f) := by
  refine .bind (routed_op rfl) fun taken => ?_
  cases taken with
  | true => exact .bind (routed_op rfl) fun _ => routed_finishInterrupted
  | false =>
      refine .bind (routed_op rfl) fun disposing => ?_
      cases disposing with
      | true => exact protocol_waitDisposeComplete.routed
      | false =>
          refine .bind protocol_claim.routed fun _ => .bind (routed_op rfl) fun alive => ?_
          cases alive with
          | true => exact routed_finishInterrupted
          | false => exact routed_op rfl

/-! ## Passes -/

theorem protocol_exitRecheck (hf : A f) {settled : SemanticTarget} {revision : Nat} :
    Protocol A (exitRecheck f settled revision) :=
  .block (.exitRecheck hf settled revision)

theorem routed_initialRound (hf : A f) : Routed A (initialRound f) := by
  have hexit : ∀ {settled revision} (outcome : InitialOutcome), Routed A (do
      if ← exitRecheck f settled revision then again () else leave outcome) := by
    intro settled revision outcome
    refine .bind (protocol_exitRecheck hf).routed fun kept => ?_
    cases kept <;> exact .pure _
  refine .bind (routed_op rfl) fun _ => .bind (protocol_computeTarget hf).routed fun target =>
    .bind protocol_settleOnce.routed fun _ => ?_
  split
  · exact .bind (routed_op rfl) fun _ => hexit .pending
  · refine .bind (routed_op rfl) fun _ => .bind (routed_op rfl) fun state => ?_
    split
    · exact .bind (routed_op rfl) fun _ => .bind routed_creationTeardown fun _ => .pure _
    · exact hexit .active

theorem protocol_claimInitial : Protocol A (claimInitial f) := by
  refine .bind (protocol_op rfl) fun won => ?_
  cases won with
  | true => exact .pure _
  | false => exact protocol_claim

theorem protocol_releaseInitial {released : Bool} : Protocol A (releaseInitial f released) := by
  refine .bind (protocol_op rfl) fun idle => ?_
  cases idle with
  | true => exact .pure _
  | false => exact protocol_op rfl

theorem routed_initialSpawnPass (hf : A f) : Routed A (initialSpawnPass f) := by
  refine .bind protocol_claimInitial.routed fun _ => .bind (routed_op rfl) fun alive => ?_
  cases alive with
  | true =>
      exact .bind (routed_op rfl) fun _ => .bind (.iterate fun _ => routed_initialRound hf)
        fun _ => .bind (routed_op rfl) fun _ => .bind protocol_releaseInitial.routed fun _ => .pure _
  | false =>
      exact .bind routed_releaseResidency fun _ => .bind (routed_op rfl) fun _ => .pure _

theorem protocol_convergencePass (hf : A f) : Protocol A (convergencePass f) := by
  refine .iterate fun _ => .bind (protocol_op rfl) fun revision =>
    .bind (protocol_op rfl) fun recorded => ?_
  cases recorded with
  | none => exact .bind (protocol_op rfl) nofun
  | some target =>
      refine .bind protocol_settleOnce fun _ => .bind (protocol_computeTarget hf) fun live => ?_
      split
      · exact .bind (protocol_op rfl) fun _ => .pure _
      · refine .bind (protocol_exitRecheck hf) fun kept => ?_
        cases kept <;> exact .pure _

theorem protocol_replacementCommitted (hf : A f) {α : Type} {result : Prog α}
    {target : SemanticTarget} {revision : Nat} (hresult : Protocol A result) :
    Protocol A (replacementCommitted f result target revision) := by
  refine .iterate fun g => .bind protocol_settleOnce fun _ => .bind hresult fun settled =>
    .bind (protocol_exitRecheck hf) fun kept => ?_
  cases kept with
  | true =>
      exact .bind (protocol_op rfl) fun _ => .bind (protocol_computeTarget hf) fun _ =>
        .bind (protocol_op rfl) fun _ => .pure _
  | false => exact .pure _

theorem protocol_restartPass (hf : A f) : Protocol A (restartPass f) := by
  have hresult : Protocol A (restartResult f) := by
    refine .bind (protocol_op rfl) fun parked => ?_
    cases parked <;> exact .pure _
  refine .bind protocol_claim fun _ => .bind (protocol_op rfl) fun alive => ?_
  cases alive with
  | true =>
      exact .bind (protocol_op rfl) fun _ => .bind (protocol_computeTarget hf) fun _ =>
        .bind (protocol_op rfl) fun _ => .bind (protocol_op rfl) fun _ =>
          .bind (protocol_op rfl) fun _ => protocol_replacementCommitted hf hresult
  | false => exact .bind (protocol_op rfl) fun _ => .pure _

theorem protocol_updateResult : Protocol A (updateResult f) := by
  refine .bind (protocol_op rfl) fun parked => ?_
  cases parked with
  | some failure => exact .pure _
  | none => exact .bind (protocol_op rfl) fun _ => .pure _

theorem routed_updatePass (hf : A f) : Routed A (updatePass f) := by
  refine .bind protocol_claim.routed fun _ => .bind (routed_op rfl) fun alive => ?_
  cases alive with
  | true =>
      exact .bind (routed_op rfl) fun _ => .bind (.block (.commitChange f)) fun _ =>
        .bind (routed_op rfl) fun _ => .bind (protocol_computeTarget hf).routed fun _ =>
          .bind (routed_op rfl) fun _ => .bind (routed_op rfl) fun _ =>
            (protocol_replacementCommitted hf protocol_updateResult).routed
  | false => exact .bind (routed_op rfl) fun _ => .pure _

/-! ## Ready -/

theorem protocol_judgeReady {observed : FiberState × Nat} :
    Protocol A (judgeReady f observed) := by
  refine .bind protocol_hasCommittedRecheck fun outstanding => ?_
  cases outstanding with
  | true => exact .pure _
  | false =>
      refine .bind (protocol_op rfl) fun sequence => ?_
      split
      · exact .pure _
      · split
        · refine .bind (protocol_op rfl) fun parked => ?_
          cases parked <;> exact .pure _
        · exact .pure _
        · exact .pure _
        · exact .pure _
        · exact .bind (protocol_op rfl) nofun
        · exact .bind (protocol_op rfl) nofun

theorem protocol_readyRound (hf : A f) : Protocol A (readyRound f) := by
  have hwait : Protocol A (waitIdle f) := by
    refine .iterate fun _ => .bind (protocol_op rfl) fun idle => ?_
    cases idle with
    | true => exact .pure _
    | false => exact .bind (protocol_op rfl) fun _ => .pure _
  refine .bind (.block (.renudge hf)) fun _ => .bind hwait fun _ => .bind (protocol_op rfl)
    fun _ => .bind (protocol_op rfl) fun idle => ?_
  cases idle with
  | true => exact protocol_judgeReady
  | false => exact .pure _

theorem protocol_handleReady {ctx : SettleCtx} (hf : A f) : Protocol A (handleReady ctx f) := by
  refine .bind (protocol_op rfl) fun refused => ?_
  cases refused with
  | true => exact .pure _
  | false =>
      exact .bind (.iterate fun _ => protocol_readyRound hf) fun _ => .bind (protocol_op rfl)
        fun _ => .pure _

/-! ## Calls -/

theorem protocol_handleWaitState {ctx : SettleCtx} {state : FiberState} {bounded : Bool} :
    Protocol A (handleWaitState ctx f state bounded) := by
  have hleave : Protocol A (leaveBounded f bounded) := by
    unfold leaveBounded
    split
    · exact protocol_op rfl
    · exact .pure _
  refine .bind (protocol_op rfl) fun refused => ?_
  cases refused with
  | true => exact .pure _
  | false =>
      refine .bind hleave fun _ => .bind (protocol_op rfl) fun _ => .bind (protocol_op rfl)
        fun observed => .bind (protocol_op rfl) fun _ => ?_
      cases observed <;> exact .pure _

theorem routed_handleDispose {ctx : SettleCtx} : Routed A (handleDispose ctx f) := by
  refine .bind (routed_op rfl) fun refused => ?_
  cases refused with
  | true => exact .pure _
  | false => exact .bind routed_dispose fun _ => .pure _

theorem protocol_handleRestart {ctx : SettleCtx} (hf : A f) : Protocol A (handleRestart ctx f) := by
  refine .bind (protocol_op rfl) fun refused => ?_
  cases refused with
  | true => exact .pure _
  | false =>
      refine .bind (protocol_op rfl) fun alive => ?_
      cases alive with
      | true => exact protocol_restartPass hf
      | false => exact .pure _

theorem routed_handleUpdate {ctx : SettleCtx} {change : PreparedChange} (hf : A f) :
    Routed A (handleUpdate ctx f change) := by
  refine .bind (routed_op rfl) fun refused => ?_
  cases refused with
  | true => exact .pure _
  | false =>
      refine .bind (routed_op rfl) fun alive => ?_
      cases alive with
      | false => exact .pure _
      | true =>
          refine .bind (routed_op rfl) fun contract => ?_
          split
          · exact .pure _
          · refine .bind (routed_op rfl) fun outcome => ?_
            cases outcome with
            | failed => exact .pure _
            | vetoed => exact .pure _
            | accepted =>
                refine .bind (routed_updatePass hf) fun result => ?_
                cases result <;> exact .pure _

theorem routed_removePlugins {ctx : SettleCtx} {key : PluginKey} :
    Routed A (removePlugins ctx key) := by
  have heach : ∀ fibers, Routed A (disposeEach fibers) := by
    intro fibers
    induction fibers with
    | nil => exact .pure _
    | cons f rest ih => exact .bind routed_dispose fun _ => ih
  refine .bind (routed_op rfl) fun detached => ?_
  match detached with
  | none => exact .pure _
  | some none => exact .pure _
  | some (some (group, fibers)) =>
      exact .bind (routed_op rfl) fun _ => .bind (.bind (heach fibers) fun _ =>
        .bind (routed_op rfl) fun _ => .bind (routed_op rfl) fun _ => .pure _) fun _ => .pure _

/-! ## Creation and replacement -/

theorem protocol_admitOrigin {origin : FiberId} {requireOriginOpen : Bool} :
    Protocol A (admitOrigin origin requireOriginOpen) := by
  unfold admitOrigin
  split
  · exact protocol_assertCanRegister
  · exact .pure _

theorem routed_admitFiber {key : PluginKey} {edges : List DependencyEdge} :
    Routed A (admitFiber key edges) :=
  .block (.admitFiber key edges)

theorem routed_handoff (hf : A f) : Routed A (handoff f) := by
  have hdeliver : Routed A (on f .deliver) := by
    refine .op ⟨rfl, fun g hg => ?_⟩
    cases hg
    exact hf
  refine .bind protocol_claim.routed fun _ => .bind (routed_op rfl) fun alive => .bind (routed_op rfl)
    fun _ => ?_
  cases alive with
  | true =>
      exact .bind (routed_op rfl) fun _ => .bind (routed_op rfl) fun _ => .bind hdeliver
        fun _ => .pure _
  | false =>
      exact .bind routed_releaseResidency fun _ => .bind (routed_op rfl) fun _ => .pure _

theorem protocol_converge {ctx : SettleCtx} {fibers : List FiberId} (hf : ∀ f ∈ fibers, A f) :
    Protocol A (converge ctx fibers) := by
  induction fibers with
  | nil => exact .pure _
  | cons f rest ih =>
      exact .bind (protocol_handleReady (hf f List.mem_cons_self)) fun _ =>
        ih fun g hg => hf g (List.mem_cons_of_mem _ hg)

section All

variable (hall : ∀ f, A f)

include hall

theorem routed_spawnPreparedInner {origin : FiberId} {key : PluginKey}
    {edges : List DependencyEdge} {requireOriginOpen : Bool} :
    Routed A (spawnPreparedInner origin key edges requireOriginOpen) := by
  refine .bind protocol_admitOrigin.routed fun admitted => ?_
  cases admitted with
  | false => exact .pure _
  | true =>
      refine .bind routed_admitFiber fun f => .bind (routed_initialSpawnPass (hall f))
        fun outcome => ?_
      cases outcome with
      | active | pending => exact routed_handoff (hall f)
      | failed failure => exact .bind (routed_op rfl) fun _ => .pure _
      | interrupted => exact .bind (routed_op rfl) fun _ => .pure _

theorem protocol_captureAndConverge {ctx : SettleCtx} {edges : List DependencyEdge}
    {skip : List FiberId} : Protocol A (captureAndConverge ctx edges skip) :=
  .bind (protocol_op rfl) fun _ => protocol_converge fun f _ => hall f

theorem routed_runCommittedReplacement {ctx : SettleCtx} {key : PluginKey}
    {oldEdges : List DependencyEdge} {entryDependents : List FiberId} :
    Routed A (runCommittedReplacement ctx f key oldEdges entryDependents) := by
  refine .bind routed_completeClaimedDispose fun _ =>
    .bind (protocol_converge fun f _ => hall f).routed fun _ => .bind (routed_op rfl) fun panicked => ?_
  cases panicked with
  | true => exact .bind (protocol_captureAndConverge hall).routed fun _ => .pure _
  | false =>
      refine .bind (protocol_dependencyEdges (hall f)).routed fun edges =>
        .bind (routed_spawnPreparedInner hall) fun spawned => ?_
      cases spawned with
      | error refusal =>
          refine .bind (protocol_captureAndConverge hall).routed fun _ => ?_
          cases refusal <;> exact .pure _
      | ok successor =>
          exact .bind (routed_op rfl) fun _ => .bind (protocol_captureAndConverge hall).routed fun _ =>
            .pure _

theorem routed_eraSwap {ctx : SettleCtx} {change : PreparedChange} :
    Routed A (eraSwap ctx f change) := by
  have hclosed : Routed A (closedSource f) := by
    refine .bind (routed_op rfl) fun alive => ?_
    cases alive with
    | true => exact routed_op rfl
    | false => exact .pure _
  have hreplace : ∀ oldEdges entryDependents,
      Routed A (eraSwap.replaceEra ctx f change oldEdges entryDependents) := by
    intro oldEdges entryDependents
    refine .bind (routed_runCommittedReplacement hall) fun result => ?_
    cases result with
    | error refusal => exact .pure _
    | ok successor =>
        refine .bind (routed_op rfl) fun taken => ?_
        cases taken with
        | true => exact .pure _
        | false =>
            exact .bind (.bind (routed_op rfl) fun _ => .bind routed_dispose fun _ =>
              (protocol_captureAndConverge hall).routed) fun _ => .pure _
  have hclaimed : Routed A (eraSwap.eraClaimed ctx f change) := by
    refine .bind protocol_claim.routed fun _ => .bind (routed_op rfl) fun alive => ?_
    cases alive with
    | false => exact .bind (routed_op rfl) fun _ => .pure _
    | true =>
        refine .bind (.block (.block (.enterEra ctx f))) fun entry => ?_
        cases entry with
        | recursion | closed => exact .bind (routed_op rfl) fun _ => .pure _
        | claimed oldEdges entryDependents =>
            exact .bind (routed_op rfl) fun _ => hreplace oldEdges entryDependents
  refine .bind (routed_op rfl) fun refused => ?_
  cases refused with
  | true => exact .pure _
  | false =>
      refine .bind hclosed fun closed => ?_
      cases closed with
      | true => exact .pure _
      | false =>
          refine .bind (routed_op rfl) fun contract => ?_
          split
          · exact .pure _
          · exact hclaimed

end All

/-! ## Registrations and cleanups -/

theorem protocol_effect : Protocol A (effect f) := by
  refine .bind (.block (.pushNothing f .effect () nofun)) fun pushed => ?_
  cases pushed <;> exact .pure _

theorem protocol_disarm {token : Token} : Protocol A (disarm f token) :=
  .bind (protocol_op rfl) fun _ => .pure _

theorem protocol_disposeEffect {token : Token} : Protocol A (disposeEffect f token) := by
  refine .bind (protocol_op rfl) fun cleanup => ?_
  cases cleanup with
  | some cleanup =>
      exact .bind (protocol_op rfl) fun _ => .bind (protocol_op rfl) fun _ => .pure _
  | none => exact .pure _

theorem protocol_run : Protocol A (run f) := by
  refine .bind protocol_assertCanRegister fun admitted => ?_
  cases admitted with
  | false => exact .pure _
  | true =>
      refine .bind (protocol_op rfl) fun current => ?_
      cases current with
      | false => exact .pure _
      | true =>
          refine .bind (protocol_op rfl) fun cell =>
            .bind (.block (.pushNothing f (.join cell) _ nofun)) fun pushed => ?_
          cases pushed with
          | error refusal => exact .pure _
          | ok pushed =>
              exact .bind (protocol_op rfl) fun _ => .bind (protocol_op rfl) fun _ => .pure _

theorem protocol_cleanupBody {cleanup : Cleanup} : Protocol A (cleanupBody cleanup) := by
  cases cleanup with
  | effect => exact protocol_op rfl
  | withdraw key occurrence => exact .block (.withdraw key occurrence)
  | join cell => exact .bind (protocol_op rfl) fun _ => protocol_op rfl

theorem protocol_runCleanup {id : CleanupId} {cleanup : Cleanup} :
    Protocol A (runCleanup f id cleanup) :=
  .bind (protocol_op rfl) fun _ => .bind protocol_cleanupBody fun _ => .bind (protocol_op rfl)
    fun _ => .bind (protocol_op rfl) fun _ => protocol_op rfl

/-! ## Every routine -/

section All

variable (hall : ∀ f, A f)

include hall

theorem routed_taskBody : Routed A (taskBody f) := by
  have hcall : ∀ call, Routed A (taskCall f call) := by
    intro call
    cases call with
    | finish => exact .pure _
    | ready g => exact .bind (protocol_handleReady (hall g)).routed fun _ => .pure _
    | waitState g state bounded => exact .bind protocol_handleWaitState.routed fun _ => .pure _
    | dispose g => exact .bind routed_handleDispose fun _ => .pure _
    | restart g => exact .bind (protocol_handleRestart (hall g)).routed fun _ => .pure _
    | update g change => exact .bind (routed_handleUpdate (hall g)) fun _ => .pure _
    | eraSwap g change => exact .bind (routed_eraSwap hall) fun _ => .pure _
    | removePlugins key => exact .bind routed_removePlugins fun _ => .pure _
  refine .bind (.iterate fun _ => .bind (routed_op rfl) fun call => ?_) fun _ => routed_op rfl
  split
  · exact .pure _
  · exact .bind (hcall call) fun _ => .pure _

theorem routed_body (routine : Routine) : Routed A (body routine) := by
  cases routine with
  | spawn origin key edges =>
      exact .bind (routed_spawnPreparedInner hall) fun _ => .pure _
  | ready ctx f => exact .bind (protocol_handleReady (hall f)).routed fun _ => .pure _
  | waitState ctx f state bounded => exact .bind protocol_handleWaitState.routed fun _ => .pure _
  | dispose ctx f =>
      refine .bind routed_handleDispose fun disposed => ?_
      cases disposed <;> exact .pure _
  | restart ctx f => exact .bind (protocol_handleRestart (hall f)).routed fun _ => .pure _
  | update ctx f change => exact .bind (routed_handleUpdate (hall f)) fun _ => .pure _
  | eraSwap ctx f change => exact .bind (routed_eraSwap hall) fun _ => .pure _
  | removePlugins ctx key => exact .bind routed_removePlugins fun _ => .pure _
  | provide f key contract value =>
      exact .bind (.block (.block (.provide f key contract value))) fun _ => .pure _
  | set publication value => exact .bind (.block (.block (.setExact publication value))) fun _ => .pure _
  | remove publication => exact .bind (.block (.block (.removePublication publication))) fun _ => .pure _
  | tryService key contract => exact .bind (routed_op rfl) fun _ => .pure _
  | effect f => exact .bind protocol_effect.routed fun _ => .pure _
  | disarm f token => exact .bind protocol_disarm.routed fun _ => .pure _
  | disposeEffect f token => exact .bind protocol_disposeEffect.routed fun _ => .pure _
  | run f => exact .bind protocol_run.routed fun _ => .pure _
  | convergence f => exact .bind (protocol_convergencePass (hall f)).routed fun _ => .pure _
  | cleanup f id cleanup => exact .bind protocol_runCleanup.routed fun _ => .pure _
  | task f => exact .bind (routed_taskBody hall) fun _ => .pure _
  | creationGuard f => exact .bind routed_creationInterruptedTeardown fun _ => .pure _

end All

end Runtime
end CordisCore
