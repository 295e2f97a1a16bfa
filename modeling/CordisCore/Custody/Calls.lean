import CordisCore.Custody.Creation

/-!
# Custody of every call — and with it of every run
-/

namespace CordisCore
namespace Runtime
namespace Custody

open Interleaving
open Interleaving.Program (iterate)

variable {p : Party} {f : FiberId} {s : Reel}

/-! ## Waiting calls -/

theorem clean_renudge : Clean p (renudge f) := by
  refine .bind clean_hasCommittedRecheck fun outstanding => ?_
  cases outstanding with
  | false => exact .pure _
  | true =>
      refine .bind (clean_op rfl) fun installed => ?_
      cases installed with
      | false => exact .pure _
      | true => exact clean_kick

theorem clean_waitIdle : Clean p (waitIdle f) := by
  refine .iterate fun _ => .bind (clean_op rfl) fun idle => ?_
  cases idle with
  | true => exact .pure _
  | false => exact .bind (clean_op rfl) fun _ => .pure _

/-- A free slot has a settled Fiber, also one that was never allocated. -/
theorem settled_of_idle (hs : Custody s) (hfresh : Fresh s.state) (hf : f ≠ 0)
    (hidle : (s.state.fibers f).inertia = .idle) : Settled (view s f) := by
  by_cases hborn : f < s.state.nextFiber
  · exact (hs.rest f ⟨Nat.pos_of_ne_zero hf, hborn⟩ hidle).settled
  · have hview : view s f = ({} : Fiber).view := congrArg Fiber.view (hfresh f (Nat.not_lt.mp hborn))
    rw [hview]
    exact ⟨⟨by simp [Fiber.view], by simp [Fiber.view]⟩, fun _ => by simp [Fiber.view],
      by simp [Fiber.view], fun _ => .inl rfl⟩

theorem stable_of_idle (hs : Custody s) (hfresh : Fresh s.state)
    (hidle : (s.state.fibers f).inertia = .idle) :
    (view s f).state ≠ .loading ∧ (view s f).state ≠ .unloading := by
  by_cases hf : f = 0
  · subst hf
    rw [hs.root]
    exact ⟨by simp, by simp⟩
  · exact (settled_of_idle hs hfresh hf hidle).state

/-- After `observed` was read the slot was seen free. -/
structure SeenFree (p : Party) (f : FiberId) (observed : FiberState × Nat)
    (look : Shot Root Op Op.Ret) (s : Reel) : Prop where
  idle : (look.before.fibers f).inertia = .idle
  settled : f ≠ 0 → Settled (look.before.fibers f).view
  stable : (look.before.fibers f).state ≠ .loading ∧ (look.before.fibers f).state ≠ .unloading
  after : observed.2 ≤ (look.before.fibers f).sequence
  same : (look.before.fibers f).sequence = observed.2 → (look.before.fibers f).state = observed.1
  since : (look.before.fibers f).sequence ≤ (s.state.fibers f).sequence

theorem SeenFree.later {observed : FiberState × Nat} {look : Shot Root Op Op.Ret} {s' : Reel}
    (h : SeenFree p f observed look s)
    (hle : (s.state.fibers f).sequence ≤ (s'.state.fibers f).sequence) :
    SeenFree p f observed look s' :=
  ⟨h.idle, h.settled, h.stable, h.after, h.same, Nat.le_trans h.since hle⟩

/-- A round of `ready` looks again, or answers for an instant of its window. -/
def Judged (p : Party) (f : FiberId) (s : Reel) (o : Unit ⊕ Except ReadyError FiberState)
    (s' : Reel) : Prop :=
  Beside p (fun _ => False) s s' ∧
    match o with
    | .inl _ => True
    | .inr result => Readied p f s' result

/-- The two loads of `has_committed_recheck`, on top of what the window showed. -/
theorem wp_hasCommittedRecheck {shots : List (Shot Root Op Op.Ret)} (hs : Custody s)
    (hshows : s.Shows p shots) :
    custody.wp p (hasCommittedRecheck f) (fun outstanding s' => Beside p (fun _ => False) s s' ∧
      (outstanding = false → ∃ read ack, s'.Shows p (ack :: read :: shots) ∧
        (ack.before.fibers f).recheckSettled = (read.before.fibers f).recheckCommitted)) s := by
  refine custody.wp_seq hs (wp_took rfl) ?_
  intro committed s₁ hs₁ htook₁
  have hb₁ := htook₁.beside rfl
  rcases htook₁.shows rfl hs hshows with ⟨mid₁, -, -, hshows₁, ⟨_, _, _, hexec₁⟩, -⟩
  refine custody.wp_seq hs₁ (wp_took rfl) ?_
  intro settled s₂ _ htook₂
  rcases htook₂.shows rfl hs₁ hshows₁ with ⟨mid₂, -, -, hshows₂, ⟨_, _, _, hexec₂⟩, -⟩
  refine ⟨hb₁.trans (htook₂.beside rfl), fun hquiet => ⟨_, _, hshows₂, ?_⟩⟩
  have hread := exec_on hexec₁
  have hack := exec_on hexec₂
  simp only [FiberOp.exec, Option.some.injEq, Prod.mk.injEq] at hread hack
  have hsame : committed = settled := by simpa using hquiet
  rw [hack.2, hread.2, hsame]

/-- What was observed is judged only when no state was published since. -/
theorem wp_judgeReady {observed : FiberState × Nat} {look : Shot Root Op Op.Ret} (hs : Custody s)
    (hshows : s.Shows p [look]) (hfree : SeenFree p f observed look s) :
    custody.wp p (judgeReady f observed) (fun o s' => Judged p f s o s') s := by
  refine custody.wp_seq hs (wp_hasCommittedRecheck hs hshows) ?_
  rintro outstanding s₁ hs₁ ⟨hb₁, hquiet⟩
  have hfree₁ : SeenFree p f observed look s₁ := hfree.later (hb₁.onward f).counted
  cases outstanding with
  | true => exact ⟨hb₁, trivial⟩
  | false =>
      rcases hquiet rfl with ⟨read, ack, hshows₁, hacknowledged⟩
      refine custody.wp_seq hs₁ (wp_took rfl) ?_
      intro sequence s₂ hs₂ htook₂
      have hb₂ : Beside p (fun _ => False) s s₂ := hb₁.trans (htook₂.beside rfl)
      rcases htook₂.shows rfl hs₁ hshows₁ with ⟨mid₂, -, -, hshows₂, ⟨_, _, _, hexec₂⟩, honward⟩
      have hlast := exec_on hexec₂
      simp only [FiberOp.exec, Option.some.injEq, Prod.mk.injEq] at hlast
      split
      · exact ⟨hb₂, trivial⟩
      · rename_i hsame
        have hsequence : (mid₂.state.fibers f).sequence = observed.2 :=
          hlast.2.trans (not_not.mp hsame)
        have hlook : (look.before.fibers f).sequence = observed.2 := by
          refine Nat.le_antisymm ?_ hfree₁.after
          exact hsequence ▸ Nat.le_trans hfree₁.since (honward f).1.counted
        have hquiescent : Quiescent f observed.1 look read ack
            ⟨p, .on f .sequence, sequence, mid₂.state⟩ :=
          ⟨hfree₁.idle, hfree₁.same hlook, hfree₁.settled, hacknowledged,
            hsequence.trans hlook.symm⟩
        have hanswer : ∀ state, state = observed.1 →
            (state = .active ∨ state = .pending ∨ state = .disposed) →
              Readied p f s₂ (.ok observed.1) := by
          rintro state rfl hstate
          exact ⟨hstate, look, read, ack, _, hshows₂, hquiescent⟩
        have hstable := hfree₁.stable
        rw [hfree₁.same hlook] at hstable
        rcases observed with ⟨state, count⟩
        cases state with
        | failed =>
            refine custody.wp_seq hs₂ (wp_took rfl) ?_
            intro parked s₃ _ htook₃
            have hb₃ := hb₂.trans (htook₃.beside rfl)
            cases parked with
            | none => exact ⟨hb₃, trivial⟩
            | some failure =>
                rcases htook₃.shows rfl hs₂ hshows₂ with ⟨mid₃, -, -, hshows₃, ⟨_, _, _, hexec₃⟩, -⟩
                have hpark := exec_on hexec₃
                simp only [FiberOp.exec, Option.some.injEq, Prod.mk.injEq] at hpark
                exact ⟨hb₃, look, read, ack, _, _, hshows₃, hquiescent, hpark.2⟩
        | active => exact ⟨hb₂, hanswer _ rfl (.inl rfl)⟩
        | pending => exact ⟨hb₂, hanswer _ rfl (.inr (.inl rfl))⟩
        | disposed => exact ⟨hb₂, hanswer _ rfl (.inr (.inr rfl))⟩
        -- a free slot has no pass in progress, so these arms are never reached
        | loading => exact absurd rfl hstable.1
        | unloading => exact absurd rfl hstable.2

theorem wp_readyRound (hs : Custody s) :
    custody.wp p (readyRound f) (fun o s' => Judged p f s o s') s := by
  refine custody.wp_seq hs (clean_renudge s hs) ?_
  intro _ s₁ hs₁ hb₁
  refine custody.wp_seq hs₁ (clean_waitIdle s₁ hs₁) ?_
  intro _ s₂ hs₂ hb₂
  refine custody.wp_seq hs₂ (wp_took rfl) ?_
  intro observed s₃ hs₃ htook₃
  have hb₃ : Beside p (fun _ => False) s s₃ := hb₁.trans (hb₂.trans (htook₃.beside rfl))
  rcases htook₃.shows rfl hs₂ (List.nil_sublist _) with
    ⟨mid₃, -, -, -, ⟨_, _, _, hexec₃⟩, honward₃⟩
  have hobserved := exec_on hexec₃
  simp only [FiberOp.exec, Option.some.injEq, Prod.mk.injEq] at hobserved
  refine custody.wp_seq hs₃ (wp_took rfl) ?_
  intro idle s₄ hs₄ htook₄
  have hb₄ := hb₃.trans (htook₄.beside rfl)
  cases idle with
  | false => exact ⟨hb₄, trivial⟩
  | true =>
      rcases htook₄.shows rfl hs₃ (List.nil_sublist _) with
        ⟨mid₄, hmid₄, hfresh, hshows₄, ⟨_, _, _, hexec₄⟩, honward₄⟩
      have hidle := exec_on hexec₄
      simp only [FiberOp.exec, Option.some.injEq, Prod.mk.injEq, decide_eq_true_eq] at hidle
      have honward : (mid₃.state.fibers f).Onward (mid₄.state.fibers f) :=
        (honward₃ f).2.trans (honward₄ f).1
      have hfree : SeenFree p f observed ⟨p, .on f .isIdle, true, mid₄.state⟩ s₄ := by
        refine ⟨hidle.2, fun hf => settled_of_idle hmid₄ hfresh hf hidle.2,
          stable_of_idle hmid₄ hfresh hidle.2, ?_, fun hsame => ?_, (honward₄ f).2.counted⟩
        · rw [← hobserved.2]
          exact honward.counted
        · rw [← hobserved.2] at hsame ⊢
          exact honward.same hsame
      refine custody.wp_mono hs₄ (wp_judgeReady hs₄ hshows₄ hfree) fun o s₅ _ hjudged => ?_
      exact ⟨hb₄.trans hjudged.1, hjudged.2⟩

/-- `ready` answers for an instant of its window at which the slot was free. -/
theorem wp_handleReady {ctx : SettleCtx} (hs : Custody s) :
    custody.wp p (handleReady ctx f) (fun a s' =>
      Beside p (fun _ => False) s s' ∧ Readied p f s' a) s := by
  refine custody.wp_seq hs (clean_op rfl s hs) ?_
  intro refused s₁ hs₁ hb₁
  cases refused with
  | true => exact ⟨hb₁, trivial⟩
  | false =>
      have hloop : custody.wp p (readyLoop f) (fun a s' =>
          Beside p (fun _ => False) s s' ∧ Readied p f s' a) s₁ := by
        refine custody.wp_iterate (fun _ s' => Beside p (fun _ => False) s s') hb₁ ?_
        intro _ s₂ hs₂ hb₂
        refine custody.wp_mono hs₂ (wp_readyRound hs₂) fun o s₃ _ hjudged => ?_
        cases o with
        | inl _ => exact hb₂.trans hjudged.1
        | inr result => exact ⟨hb₂.trans hjudged.1, hjudged.2⟩
      refine custody.wp_seq hs₁ hloop ?_
      rintro result s₂ hs₂ ⟨hb₂, hready⟩
      refine custody.wp_seq hs₂ (clean_op rfl s₂ hs₂) fun _ s₃ _ hb₃ => ?_
      exact ⟨hb₂.trans hb₃, (hb₃.later hs₂).readied hready⟩

theorem clean_handleReady {ctx : SettleCtx} : Clean p (handleReady ctx f) := by
  intro s hs
  exact custody.wp_mono hs (wp_handleReady hs) fun _ _ _ hb => hb.1

theorem clean_handleWaitState {ctx : SettleCtx} {state : FiberState} {bounded : Bool} :
    Clean p (handleWaitState ctx f state bounded) := by
  refine .bind (clean_op rfl) fun refused => ?_
  cases refused with
  | true => exact .pure _
  | false =>
      have hleave : Clean p (leaveBounded f bounded) := by
        unfold leaveBounded
        split
        · exact clean_op rfl
        · exact .pure _
      refine .bind hleave fun _ => .bind (clean_op rfl) fun baseline =>
        .bind (clean_op rfl) fun observed => .bind (clean_op rfl) fun _ => ?_
      cases observed <;> exact .pure _

/-! ## Calls that take the slot -/

/-- An admitted disposal returns past the complete barrier. -/
theorem wp_handleDispose {ctx : SettleCtx} (hs : Custody s) :
    custody.wp p (handleDispose ctx f) (fun done s' =>
      Beside p (fun _ => False) s s' ∧ (done = true → Complete f s'.state)) s := by
  refine custody.wp_seq hs (clean_op rfl s hs) ?_
  intro refused s₁ hs₁ hb₁
  cases refused with
  | true => exact ⟨hb₁, by simp⟩
  | false =>
      refine custody.wp_seq hs₁ (wp_dispose hs₁) ?_
      rintro _ s₂ _ ⟨hb₂, hcomplete⟩
      exact ⟨hb₁.trans hb₂, fun _ => hcomplete⟩

theorem clean_handleDispose {ctx : SettleCtx} : Clean p (handleDispose ctx f) := by
  intro s hs
  exact custody.wp_mono hs (wp_handleDispose hs) fun _ _ _ hb => hb.1

theorem wp_handleRestart {ctx : SettleCtx} (hs : Custody s) :
    custody.wp p (handleRestart ctx f) (fun a s' =>
      Beside p (fun _ => False) s s' ∧ Restarted p f s' a) s := by
  refine custody.wp_seq hs (clean_op rfl s hs) ?_
  intro refused s₁ hs₁ hb₁
  cases refused with
  | true => exact ⟨hb₁, trivial⟩
  | false =>
      refine custody.wp_seq hs₁ (clean_op rfl s₁ hs₁) ?_
      intro alive s₂ hs₂ hb₂
      cases alive with
      | false => exact ⟨hb₁.trans hb₂, trivial⟩
      | true =>
          refine custody.wp_mono hs₂ (wp_restartPass hs₂) ?_
          rintro result s₃ _ ⟨hb₃, hrestarted⟩
          exact ⟨hb₁.trans (hb₂.trans hb₃), hrestarted⟩

theorem clean_handleRestart {ctx : SettleCtx} : Clean p (handleRestart ctx f) := by
  intro s hs
  exact custody.wp_mono hs (wp_handleRestart hs) fun _ _ _ hb => hb.1

theorem wp_handleUpdate {ctx : SettleCtx} {change : PreparedChange} (hs : Custody s) :
    custody.wp p (handleUpdate ctx f change) (fun a s' =>
      Beside p (fun _ => False) s s' ∧ Updated p f s' a) s := by
  refine custody.wp_seq hs (clean_op rfl s hs) ?_
  intro refused s₁ hs₁ hb₁
  cases refused with
  | true => exact ⟨hb₁, trivial⟩
  | false =>
      refine custody.wp_seq hs₁ (clean_op rfl s₁ hs₁) ?_
      intro alive s₂ hs₂ hb₂
      cases alive with
      | false => exact ⟨hb₁.trans hb₂, trivial⟩
      | true =>
          refine custody.wp_seq hs₂ (clean_op rfl s₂ hs₂) ?_
          intro contract s₃ hs₃ hb₃
          have hb : Beside p (fun _ => False) s s₃ := hb₁.trans (hb₂.trans hb₃)
          split
          · exact ⟨hb, trivial⟩
          · refine custody.wp_seq hs₃ (clean_op rfl s₃ hs₃) ?_
            intro outcome s₄ hs₄ hb₄
            cases outcome with
            | failed => exact ⟨hb.trans hb₄, trivial⟩
            | vetoed => exact ⟨hb.trans hb₄, trivial⟩
            | accepted =>
                refine custody.wp_seq hs₄ (wp_updatePass hs₄) ?_
                rintro result s₅ _ ⟨hb₅, hupdated⟩
                have hb' := hb.trans (hb₄.trans hb₅)
                cases result with
                | ok state => exact ⟨hb', hupdated⟩
                | error refusal => exact ⟨hb', hupdated⟩

theorem clean_handleUpdate {ctx : SettleCtx} {change : PreparedChange} :
    Clean p (handleUpdate ctx f change) := by
  intro s hs
  exact custody.wp_mono hs (wp_handleUpdate hs) fun _ _ _ hb => hb.1

theorem wp_disposeEach {fibers : List FiberId} (hs : Custody s) :
    custody.wp p (disposeEach fibers) (fun _ s' =>
      Beside p (fun _ => False) s s' ∧ ∀ f ∈ fibers, Complete f s'.state) s := by
  induction fibers generalizing s with
  | nil => exact ⟨Beside.refl _ _ _, by simp⟩
  | cons f rest ih =>
      refine custody.wp_seq hs (wp_dispose hs) ?_
      rintro _ s₁ hs₁ ⟨hb₁, hcomplete⟩
      refine custody.wp_mono hs₁ (ih hs₁) ?_
      rintro _ s₂ _ ⟨hb₂, hrest⟩
      refine ⟨hb₁.trans hb₂, fun g hg => ?_⟩
      rcases List.mem_cons.mp hg with rfl | hg
      · exact (hb₂.onward g).complete hcomplete
      · exact hrest g hg

/-- A typed removal returns past the barrier of every member that it froze. -/
theorem wp_removePlugins {ctx : SettleCtx} {key : PluginKey} (hs : Custody s) :
    custody.wp p (removePlugins ctx key) (fun a s' =>
      Beside p (fun _ => False) s s' ∧ Removed p s' a) s := by
  refine custody.wp_seq hs (wp_took rfl) ?_
  intro detached s₁ hs₁ htook
  have hb₁ := htook.beside rfl
  rcases detached with _ | _ | ⟨group, fibers⟩
  · exact ⟨hb₁, trivial⟩
  · exact ⟨hb₁, trivial⟩
  · rcases htook.shows rfl hs (List.nil_sublist _) with
      ⟨mid, -, -, hshows₁, ⟨_, _, _, hexec⟩, -⟩
    have hfrozen : mid.state.allocationOf key = some group ∧ fibers = mid.state.groups group := by
      simp only [exec] at hexec
      split at hexec
      · simp at hexec
      · rename_i current hcurrent
        split at hexec
        · simp at hexec
        · simp only [Option.some.injEq, Prod.mk.injEq] at hexec
          rcases hexec.2 with ⟨rfl, rfl⟩
          exact ⟨hcurrent, rfl⟩
    rcases hfrozen with ⟨hallocation, rfl⟩
    refine custody.wp_seq hs₁ (clean_op rfl s₁ hs₁) fun _ s₂ hs₂ hb₂ => ?_
    have hall : custody.wp p (disposeAll group (mid.state.groups group)) (fun _ s' =>
        Beside p (fun _ => False) s₂ s' ∧
          ∀ f ∈ mid.state.groups group, Complete f s'.state) s₂ := by
      refine custody.wp_seq hs₂ (wp_disposeEach hs₂) ?_
      rintro _ s₃ hs₃ ⟨hb₃, hcomplete⟩
      refine custody.wp_seq hs₃ (clean_op rfl s₃ hs₃) fun count s₄ hs₄ hb₄ => ?_
      refine custody.wp_seq hs₄ (clean_op rfl s₄ hs₄) fun _ s₅ _ hb₅ => ?_
      have hb := hb₄.trans hb₅
      exact ⟨hb₃.trans hb, fun f hf => (hb.onward f).complete (hcomplete f hf)⟩
    refine custody.wp_seq hs₂ hall ?_
    rintro count s₃ _ ⟨hb₃, hcomplete⟩
    refine ⟨hb₁.trans (hb₂.trans hb₃), ctx, key, mid.state, ?_, hallocation, hcomplete⟩
    exact ((hb₂.trans hb₃).later hs₁).shows hshows₁

theorem clean_removePlugins {ctx : SettleCtx} {key : PluginKey} :
    Clean p (removePlugins ctx key) := by
  intro s hs
  exact custody.wp_mono hs (wp_removePlugins hs) fun _ _ _ hb => hb.1

/-! ## Era replacement -/

theorem clean_converge {ctx : SettleCtx} {fibers : List FiberId} :
    Clean p (converge ctx fibers) := by
  induction fibers with
  | nil => exact .pure _
  | cons f rest ih => exact .bind clean_handleReady fun _ => ih

theorem clean_captureAndConverge {ctx : SettleCtx} {edges : List DependencyEdge}
    {skip : List FiberId} : Clean p (captureAndConverge ctx edges skip) :=
  .bind (clean_op rfl) fun _ => clean_converge

theorem clean_enterEra {ctx : SettleCtx} : Clean p (enterEra ctx f) := by
  have hrefuse : ∀ fibers, Clean p (refuseAny ctx fibers) := by
    intro fibers
    induction fibers with
    | nil => exact .pure _
    | cons g rest ih =>
        refine .bind (clean_op rfl) fun refused => ?_
        cases refused with
        | true => exact .pure _
        | false => exact ih
  refine .bind (clean_op rfl) fun _ => .bind (clean_op rfl) fun _ => .bind (clean_op rfl) fun _ =>
    .bind (hrefuse _) fun refused => ?_
  cases refused with
  | true => exact .bind (clean_op rfl) fun _ => .pure _
  | false =>
      refine .bind (clean_op rfl) fun disposing => .bind (clean_op rfl) fun _ => ?_
      cases disposing <;> exact .pure _

/-- The successor is born of a source that has come to its end. -/
theorem wp_runCommittedReplacement {ctx : SettleCtx} {key : PluginKey}
    {oldEdges : List DependencyEdge} {entryDependents : List FiberId} (hs : Custody s)
    (hp : Holds p s f) :
    custody.wp p (runCommittedReplacement ctx f key oldEdges entryDependents)
      (fun a s' => Swapped p f s' a ∧ Complete f s'.state) s := by
  have hborn := lt_of_holds hp
  refine custody.wp_seq hs (wp_completeClaimedDispose hs hp) ?_
  rintro _ s₁ hs₁ ⟨hgone, hcomplete₁⟩
  refine custody.wp_seq hs₁ (clean_converge s₁ hs₁) ?_
  intro _ s₂ hs₂ hb₂
  have hcomplete₂ := (hb₂.later hs₁).complete hcomplete₁
  refine custody.wp_seq hs₂ (clean_op rfl s₂ hs₂) ?_
  intro panicked s₃ hs₃ hb₃
  have hcomplete₃ := (hb₃.later hs₂).complete hcomplete₂
  cases panicked with
  | true =>
      refine custody.wp_seq hs₃ (clean_captureAndConverge s₃ hs₃) fun _ s₄ _ hb₄ => ?_
      have hcomplete₄ := (hb₄.later hs₃).complete hcomplete₃
      exact ⟨hcomplete₄, hcomplete₄⟩
  | false =>
      refine custody.wp_seq hs₃ (wp_took rfl) ?_
      intro edges s₄ hs₄ htook
      have hb₄ := htook.beside rfl
      have hcomplete₄ := (hb₄.later hs₃).complete hcomplete₃
      -- the edges of a source do not change once it is born
      have hedges : edges = (s₄.state.fibers f).edges ∧ f < s₄.state.nextFiber := by
        have hlt : f < s₃.state.nextFiber := Nat.lt_of_lt_of_le hborn
          (Nat.le_trans hgone.beside.nextFiber (Nat.le_trans hb₂.nextFiber hb₃.nextFiber))
        rcases htook with ⟨mid, _, _, state, hr, -, -, hexec, rfl⟩
        have hmid := Nat.lt_of_lt_of_le hlt hr.beside.nextFiber
        have hstep := exec_on hexec
        simp only [FiberOp.exec, Option.some.injEq, Prod.mk.injEq] at hstep
        refine ⟨hstep.2.symm.trans ?_, Nat.lt_of_lt_of_le hmid (exec_nextFiber_le hexec)⟩
        exact (exec_declared hexec hmid).1.symm
      refine custody.wp_seq hs₄ (wp_spawnPreparedInner hs₄) ?_
      rintro spawned s₅ hs₅ ⟨hlater₅, hspawned⟩
      have hcomplete₅ := hlater₅.complete hcomplete₄
      -- the source has come to its end before its successor is born
      have hsource : ∀ {g born}, BearsAfter p edges g s₄ born → Complete f born.before ∧
          edges = (born.before.fibers f).edges := by
        intro g born hbears
        exact ⟨(hbears.onward f).complete hcomplete₄,
          hedges.1.trans (hbears.edges f hedges.2).symm⟩
      cases spawned with
      | error refusal =>
          refine custody.wp_seq hs₅ (clean_captureAndConverge s₅ hs₅) fun _ s₆ _ hb₆ => ?_
          have hlater₆ := hb₆.later hs₅
          have hcomplete₆ := hlater₆.complete hcomplete₅
          cases refusal with
          | initialApply failure =>
              rcases hspawned with ⟨g, born, fail, hshows, hbears, hfails, hend⟩
              exact ⟨⟨hcomplete₆, edges, g, born, fail, hlater₆.shows hshows, hbears.bears,
                (hsource hbears).1, hfails, hlater₆.complete hend⟩, hcomplete₆⟩
          | interrupted | inactiveContext => exact ⟨hcomplete₆, hcomplete₆⟩
      | ok successor =>
          refine custody.wp_seq hs₅ (clean_op rfl s₅ hs₅) fun _ s₆ hs₆ hb₆ => ?_
          refine custody.wp_seq hs₆ (clean_captureAndConverge s₆ hs₆) fun _ s₇ _ hb₇ => ?_
          have hlater₇ := (hb₆.later hs₅).trans (hb₇.later hs₆)
          have hcomplete₇ := hlater₇.complete hcomplete₅
          rcases hspawned with ⟨born, hand, opened, delivered, hshows, hbears, hhands⟩
          exact ⟨⟨hcomplete₇, edges, born, hand, opened, delivered, hlater₇.shows hshows,
            hbears.bears, (hsource hbears).1, (hsource hbears).2, hhands⟩, hcomplete₇⟩

theorem wp_replaceEra {ctx : SettleCtx} {change : PreparedChange}
    {oldEdges : List DependencyEdge} {entryDependents : List FiberId} (hs : Custody s)
    (hp : Holds p s f) :
    custody.wp p (eraSwap.replaceEra ctx f change oldEdges entryDependents)
      (fun a s' => Swapped p f s' a) s := by
  refine custody.wp_seq hs (wp_runCommittedReplacement hs hp) ?_
  rintro result s₁ hs₁ ⟨hswapped, hcomplete⟩
  cases result with
  | error refusal => exact hswapped
  | ok successor =>
      refine custody.wp_seq hs₁ (clean_op rfl s₁ hs₁) ?_
      intro taken s₂ hs₂ hb₂
      cases taken with
      | true => exact (hb₂.later hs₁).swapped hswapped
      | false =>
          have hcleanup : Clean p (cleanupUndeliveredSuccessor ctx oldEdges f successor) :=
            .bind (clean_op rfl) fun _ => .bind clean_dispose fun _ => clean_captureAndConverge
          refine custody.wp_seq hs₂ (hcleanup s₂ hs₂) fun _ s₃ _ hb₃ => ?_
          exact (hb₃.later hs₂).complete ((hb₂.later hs₁).complete hcomplete)

theorem wp_eraClaimed {ctx : SettleCtx} {change : PreparedChange} (hs : Custody s) :
    custody.wp p (eraSwap.eraClaimed ctx f change) (fun a s' => Swapped p f s' a) s := by
  -- every refusal gives the slot back
  have hgive : ∀ {t} (refusal : EraSwapError), (∀ s', Swapped p f s' (.error refusal)) →
      Custody t → Holds p t f → Rest f t → custody.wp p (do
        on f .abandon
        pure (.error refusal) : Prog (Except EraSwapError FiberId))
        (fun a s' => Swapped p f s' a) t := by
    intro t refusal hrefusal ht hp hrest
    refine custody.wp_mono ht (wp_refuse hp hrest ht) ?_
    rintro _ s' _ ⟨rfl, -⟩
    exact hrefusal s'
  refine custody.wp_seq hs wp_claim ?_
  intro _ s₁ hs₁ hclaimed
  refine custody.wp_seq hs₁ (wp_on hs₁ hclaimed.holds rfl nofun) ?_
  rintro alive s₂ hs₂ ⟨hw₂, hv₂, -⟩
  have hrest₂ : Rest f s₂ := hclaimed.rest.kept hw₂.unapplied hv₂
  cases alive with
  | false => exact hgive .closed (fun _ => trivial) hs₂ hw₂.holds hrest₂
  | true =>
      refine custody.wp_seq hs₂ (clean_enterEra s₂ hs₂) ?_
      intro entry s₃ hs₃ hb₃
      have hp₃ : Holds p s₃ f := (hb₃.holds f id).mpr hw₂.holds
      have hrest₃ : Rest f s₃ := hrest₂.beside hb₃ hw₂.holds
      cases entry with
      | recursion => exact hgive .recursion (fun _ => trivial) hs₃ hp₃ hrest₃
      | closed => exact hgive .closed (fun _ => trivial) hs₃ hp₃ hrest₃
      | claimed oldEdges entryDependents =>
          refine custody.wp_seq hs₃ (clean_op rfl s₃ hs₃) ?_
          intro _ s₄ hs₄ hb₄
          exact wp_replaceEra hs₄ ((hb₄.holds f id).mpr hp₃)

/-- Death comes before birth, and the source is at its end whatever came of the successor. -/
theorem wp_eraSwap {ctx : SettleCtx} {change : PreparedChange} (hs : Custody s) :
    custody.wp p (eraSwap ctx f change) (fun a s' => Swapped p f s' a) s := by
  refine custody.wp_seq hs (wp_clean (clean_op rfl) hs) ?_
  intro refused s₁ hs₁ _
  cases refused with
  | true => trivial
  | false =>
      have hclosed : Clean p (closedSource f) := by
        refine .bind (clean_op rfl) fun alive => ?_
        cases alive with
        | false => exact .pure _
        | true => exact clean_op rfl
      refine custody.wp_seq hs₁ (wp_clean hclosed hs₁) ?_
      intro closed s₂ hs₂ _
      cases closed with
      | true => trivial
      | false =>
          refine custody.wp_seq hs₂ (wp_clean (clean_op rfl) hs₂) ?_
          intro contract s₃ hs₃ _
          split
          · trivial
          · exact wp_eraClaimed hs₃

/-! ## Services and run tasks -/

theorem clean_pushGated {ε α : Type} {cleanup : Cleanup} {inactive : ε}
    {publish : Prog (Except ε α)} (h : Clean p publish) :
    Clean p (pushGated f cleanup inactive publish) := by
  refine .bind clean_assertCanRegister fun admitted => ?_
  cases admitted with
  | false => exact .pure _
  | true =>
      refine .bind (clean_op rfl) fun _ => .bind clean_assertCanRegister fun admitted => ?_
      cases admitted with
      | false => exact .bind (clean_op rfl) fun _ => .pure _
      | true =>
          refine .bind h fun published => ?_
          cases published with
          | ok published => exact .bind (clean_op rfl) fun _ => .bind (clean_op rfl) fun _ => .pure _
          | error refused => exact .bind (clean_op rfl) fun _ => .pure _

theorem clean_ownerDrift {key : DependencyEdge} : Clean p (ownerDrift f key) := by
  refine .bind (clean_op rfl) fun state => ?_
  split
  · exact clean_commitDrift
  · exact .pure _

theorem clean_provide {key : DependencyEdge} {contract : Contract} {value : Nat} :
    Clean p (provide f key contract value) := by
  have hinstall : ∀ slot, Clean p (installSlot f slot) := by
    intro slot
    refine .bind (clean_op rfl) fun _ => .bind (clean_op rfl) fun bound => ?_
    cases bound with
    | false => exact .bind (clean_op rfl) fun _ => .pure _
    | true =>
        refine .bind (clean_op rfl) fun occupied => ?_
        cases occupied with
        | true => exact .bind (clean_op rfl) fun _ => .pure _
        | false =>
            exact .bind clean_ownerDrift fun _ => .bind (clean_op rfl) fun _ =>
              .bind (clean_op rfl) fun _ => .pure _
  refine .bind clean_assertCanRegister fun admitted => ?_
  cases admitted with
  | false => exact .pure _
  | true =>
      refine .bind (clean_op rfl) fun occurrence =>
        .bind (clean_pushGated (hinstall _)) fun pushed => ?_
      cases pushed with
      | ok pushed => exact .bind clean_kickAll fun _ => .pure _
      | error refusal => exact .pure _

theorem clean_setExact {publication : ServicePublication} {value : Nat} :
    Clean p (setExact publication value) := by
  refine .bind (clean_op rfl) fun _ => .bind (clean_op rfl) fun holds => ?_
  cases holds with
  | false => exact .bind (clean_op rfl) fun _ => .pure _
  | true =>
      refine .bind (clean_op rfl) fun _ => .bind clean_assertCanRegister fun admitted => ?_
      cases admitted with
      | true =>
          exact .bind (clean_op rfl) fun _ => .bind (clean_op rfl) fun _ =>
            .bind (clean_op rfl) fun _ => .pure _
      | false => exact .bind (clean_op rfl) fun _ => .bind (clean_op rfl) fun _ => .pure _

theorem clean_removePublication {publication : ServicePublication} :
    Clean p (removePublication publication) := by
  have hremove : Clean p (removeExact publication) := by
    refine .bind (clean_op rfl) fun _ => .bind (clean_op rfl) fun holds => ?_
    cases holds with
    | false => exact .bind (clean_op rfl) fun _ => .pure _
    | true =>
        refine .bind (clean_op rfl) fun _ => .bind clean_assertCanRegister fun admitted => ?_
        cases admitted with
        | true =>
            exact .bind clean_ownerDrift fun _ => .bind (clean_op rfl) fun _ =>
              .bind (clean_op rfl) fun _ => .bind (clean_op rfl) fun _ => .pure _
        | false => exact .bind (clean_op rfl) fun _ => .bind (clean_op rfl) fun _ => .pure _
  refine .bind hremove fun removed => ?_
  cases removed with
  | ok drift => exact .bind (clean_op rfl) fun _ => .bind clean_kickAll fun _ => .pure _
  | error refusal => exact .pure _

theorem clean_noPublish {ε : Type} : Clean p (noPublish : Prog (Except ε Unit)) :=
  .pure _

theorem clean_effect : Clean p (effect f) := by
  refine .bind (clean_pushGated clean_noPublish) fun pushed => ?_
  cases pushed with
  | ok pushed => exact .pure _
  | error refusal => exact .pure _

theorem clean_disposeEffect {token : Token} : Clean p (disposeEffect f token) := by
  refine .bind (clean_op rfl) fun cleanup => ?_
  cases cleanup with
  | some cleanup => exact .bind (clean_op rfl) fun _ => .bind (clean_op rfl) fun _ => .pure _
  | none => exact .pure _

theorem clean_run : Clean p (run f) := by
  refine .bind clean_assertCanRegister fun admitted => ?_
  cases admitted with
  | false => exact .pure _
  | true =>
      refine .bind (clean_op rfl) fun current => ?_
      cases current with
      | false => exact .pure _
      | true =>
          refine .bind (clean_op rfl) fun cell => .bind (clean_pushGated clean_noPublish) fun pushed => ?_
          cases pushed with
          | error refusal => exact .pure _
          | ok pushed =>
              have hfork : Clean p (perform (.fork (.task f))) := clean_fork rfl fun _ _ _ => trivial
              exact .bind hfork fun _ => .bind (clean_op rfl) fun _ => .pure _

theorem clean_runCleanup {id : CleanupId} {cleanup : Cleanup} :
    Clean p (runCleanup f id cleanup) := by
  have hbody : Clean p (cleanupBody cleanup) := by
    cases cleanup with
    | effect => exact clean_op rfl
    | withdraw key occurrence =>
        have hexact : Clean p (withdrawExact key occurrence) := by
          refine .bind (clean_op rfl) fun holds => ?_
          cases holds with
          | true => exact clean_op rfl
          | false => exact .pure _
        exact .bind (clean_op rfl) fun _ => .bind hexact fun _ => clean_op rfl
    | join cell => exact .bind (clean_op rfl) fun _ => clean_op rfl
  exact .bind (clean_op rfl) fun _ => .bind hbody fun _ => .bind (clean_op rfl) fun _ =>
    .bind (clean_op rfl) fun _ => clean_op rfl

/-- A run task makes one call after the other. -/
theorem wp_taskBody (hs : Custody s) : custody.wp p (taskBody f) (fun _ _ => True) s := by
  have hloop : custody.wp p (iterate () fun _ => do
      let call ← perform (.nextCall f)
      if call = .finish then leave ()
      else do
        taskCall f call
        again ()) (fun (_ : Unit) _ => True) s := by
    refine custody.wp_iterate (fun _ _ => True) trivial ?_
    intro _ s₁ hs₁ _
    refine custody.wp_seq hs₁ (wp_clean (clean_op rfl) hs₁) ?_
    intro call s₂ hs₂ _
    split
    · trivial
    · have hcall : custody.wp p (taskCall f call) (fun _ _ => True) s₂ := by
        cases call with
        | finish => trivial
        | ready g => exact wp_clean (.bind clean_handleReady fun _ => .pure _) hs₂
        | waitState g state bounded =>
            exact wp_clean (.bind clean_handleWaitState fun _ => .pure _) hs₂
        | dispose g => exact wp_clean (.bind clean_handleDispose fun _ => .pure _) hs₂
        | restart g => exact wp_clean (.bind clean_handleRestart fun _ => .pure _) hs₂
        | update g change => exact wp_clean (.bind clean_handleUpdate fun _ => .pure _) hs₂
        | eraSwap g change =>
            exact custody.wp_seq hs₂ (wp_eraSwap hs₂) fun _ _ _ _ => trivial
        | removePlugins key => exact wp_clean (.bind clean_removePlugins fun _ => .pure _) hs₂
      exact custody.wp_seq hs₂ hcall fun _ _ _ _ => trivial
  refine custody.wp_seq hs hloop ?_
  intro _ s₁ hs₁ _
  exact wp_clean (clean_op rfl) hs₁

/-! ## Every routine is verified -/

theorem wp_body (hs : Custody s) (routine : Routine) (hpre : custody.pre routine p s) :
    custody.wp p (body routine) (fun a s' => Promised p s' a) s := by
  have hend : ∀ {α : Type} {x : Prog α} {answer : α → Answer},
      (∀ a s', Promised p s' (answer a)) → Clean p x → custody.wp p (do
        let a ← x
        pure (answer a)) (fun a s' => Promised p s' a) s := by
    intro α x answer hanswer hx
    exact custody.wp_seq hs (hx s hs) fun a s' _ _ => hanswer a s'
  cases routine with
  | convergence f =>
      exact custody.wp_seq hs (wp_convergencePass hpre.1 hpre.2) fun _ _ _ _ => trivial
  | creationGuard f =>
      exact custody.wp_seq hs (wp_creationInterruptedTeardown hs hpre) fun _ _ _ _ => trivial
  | cleanup f id cleanup => exact hend (fun _ _ => trivial) clean_runCleanup
  | task f => exact custody.wp_seq hs (wp_taskBody hs) fun _ _ _ _ => trivial
  | spawn origin key edges =>
      exact custody.wp_seq hs (wp_spawnPreparedInner hs) fun _ _ _ h => h.2.born
  | ready ctx f => exact custody.wp_seq hs (wp_handleReady hs) fun _ _ _ h => h.2
  | waitState ctx f state bounded => exact hend (fun _ _ => trivial) clean_handleWaitState
  | dispose ctx f =>
      refine custody.wp_seq hs (wp_handleDispose hs) ?_
      rintro disposed s' _ ⟨-, hcomplete⟩
      cases disposed with
      | true => exact hcomplete rfl
      | false => trivial
  | restart ctx f => exact custody.wp_seq hs (wp_handleRestart hs) fun _ _ _ h => h.2
  | update ctx f change => exact custody.wp_seq hs (wp_handleUpdate hs) fun _ _ _ h => h.2
  | eraSwap ctx f change => exact custody.wp_seq hs (wp_eraSwap hs) fun _ _ _ h => h
  | removePlugins ctx key => exact custody.wp_seq hs (wp_removePlugins hs) fun _ _ _ h => h.2
  | provide f key contract value => exact hend (fun _ _ => trivial) clean_provide
  | set publication value => exact hend (fun _ _ => trivial) clean_setExact
  | remove publication => exact hend (fun _ _ => trivial) clean_removePublication
  | tryService key contract => exact hend (fun _ _ => trivial) (clean_op rfl)
  | effect f => exact hend (fun _ _ => trivial) clean_effect
  | disarm f token =>
      exact hend (fun _ _ => trivial) (.bind (clean_op rfl) fun _ => .pure _)
  | disposeEffect f token => exact hend (fun _ _ => trivial) clean_disposeEffect
  | run f => exact hend (fun _ _ => trivial) clean_run

/-- Custody leaves out who drives a party. -/
theorem inv_drive {driving : Driving} (hs : Custody s) :
    Custody ((s.move (s.state.drive p driving)).begin p) := by
  have hmoved : Custody (s.move (s.state.drive p driving)) := by
    refine ⟨fun f hf hidle => ?_, hs.dead, hs.complete, hs.root, hs.begun,
      hs.flows.later fun _ => .refl _, hs.applies, hs.unborn⟩
    have hrest := hs.rest f hf hidle
    exact ⟨hrest.settled, hrest.tied,
      fun halive => (hrest.opened halive).imp id fun h => ⟨h.pending, h.unapplied, h.never⟩⟩
  exact hmoved.begin p

theorem waits_drive {t : Party} {driving : Driving} (ht : t ≠ p) :
    Waits t s ((s.move (s.state.drive p driving)).begin p) := by
  refine Waits.begin ⟨⟨Nat.le_refl _, rfl, fun _ _ => ⟨rfl, rfl⟩, fun _ _ => Iff.rfl,
    fun _ _ _ => rfl, fun _ _ _ h => .inr h, fun _ => .refl _, [], rfl, by simp⟩,
    keeps_drive _ ht⟩ ht

theorem pre_of_admits {routine : Routine} {state : Root} (h : admits state routine = true) :
    custody.pre routine p s := by
  cases routine <;> trivial

/-- What the authority of every run gives to custody. -/
theorem authorized_of_reachable {cfg : FilmedState} (h : cordis.filmed.Reachable tailIdle.filmed cfg)
    {op : Op} {next : op.Ret → Prog Answer} (hpool : cfg.pool p = some (.act op next)) :
    Authorized p op cfg.shared := by
  have hreach : Reachable tailIdle (Machine.unfilmed cfg) :=
    Machine.Reachable.unfilmed (fun _ _ _ _ hok => hok) h
  have hgood := Logic.sound authority_verified hreach
  have hact := hgood.verified p _ hpool cfg.shared.state (Keeps.refl _ _) hgood.inv
  exact ⟨hact.2.1.mono fun _ _ _ _ => trivial, hact.2.2, hact.1, hgood.inv,
    fresh_of_reachable hreach⟩

theorem custody_verified : custody.Verified where
  grounded hreach _ _ _ hpool := authorized_of_reachable hreach hpool
  init := by
    refine ⟨fun f hf _ => ?_, fun f hf hstate => ?_, fun f hf => ?_, rfl, fun _ => Nat.le_refl _,
      trivial, trivial, fun f _ => ⟨rfl, by rintro ⟨_, h, _⟩; cases h⟩⟩
    · exact absurd hf.2 (Nat.not_lt.mpr hf.1)
    · obtain rfl : f = 0 := Nat.lt_one_iff.mp hf
      cases hstate
    · by_cases h0 : f = 0
      · subst h0
        cases hf
      · simp only [Complete, Machine.filmed, cordis, Root.new, h0, if_false] at hf
        cases hf
  vacant p := authority_verified.vacant p
  body routine _ _ hs hpre :=
    custody.wp_mono hs (wp_body hs routine hpre) fun _ _ hs' h => ⟨hs'.begun _, h⟩
  enter p routine s s' hs _ henter := by
    simp only [Machine.filmed, Option.map_eq_some_iff] at henter
    rcases henter with ⟨state, henter, rfl⟩
    simp only [cordis, enter, Option.ite_none_right_eq_some, Option.some.injEq] at henter
    rcases henter with ⟨hadmitted, rfl⟩
    exact ⟨inv_drive hs, fun t ht => waits_drive ht, pre_of_admits hadmitted⟩

end Custody
end Runtime
end CordisCore
