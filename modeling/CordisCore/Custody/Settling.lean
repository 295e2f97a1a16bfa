import CordisCore.Custody.Kick

/-!
# Custody of settle passes, drains and teardowns

A settle pass leaves a stable state behind it, and an apply only where one was due.
-/

namespace CordisCore
namespace Runtime
namespace Custody

open Interleaving

variable {p : Party} {f : FiberId} {s : Reel}

/-! ## Drift -/

theorem clean_commitDrift {edges : List DependencyEdge} : Clean p (commitDrift edges) := by
  refine .bind (clean_op rfl) fun affected => ?_
  induction affected with
  | nil => exact .pure _
  | cons g rest ih => exact .bind (clean_op rfl) fun _ => .bind ih fun _ => .pure _

theorem clean_visibilityDrift {visibility : List DependencyEdge} :
    Clean p (visibilityDrift visibility) := by
  unfold visibilityDrift
  split
  · exact .pure _
  · exact clean_commitDrift

/-! ## Transitions -/

/-- An operation that leaves the view alone. -/
theorem under_look {op : FiberOp} {P : View → Prop} (hinside : op.inside = true)
    (hop : ∀ next, op ≠ .publish next) (hview : ∀ v, op.onView v = v) :
    Under p f (on f op) P fun _ v => P v := by
  refine Under.on hinside (fun next heq => absurd heq (hop next)) fun v r hv _ => ?_
  rw [hview]
  exact hv

/-- What a publication leads to, where it may be made. -/
def Leads (next : FiberState) (Q : View → Prop) (v : View) : Prop :=
  v.Publishes next ∧ Q { v with state := next }

theorem under_publish {next : FiberState} {Q : View → Prop} :
    Under p f (on f (.publish next)) (Leads next Q) fun _ v => Q v := by
  refine Under.on rfl (fun other heq v hv => ?_) fun v r hv _ => hv.2
  cases heq
  exact hv.1

theorem under_commitFiberTransition {next : FiberState} {Q : View → Prop} :
    Under p f (commitFiberTransition f next) (Leads next Q) fun _ v => Q v := by
  refine .bind (.clean (clean_op rfl)) fun _ => .bind (.clean (clean_op rfl)) fun visibility => ?_
  refine .bind (.clean clean_visibilityDrift) fun drift => .bind under_publish fun _ => ?_
  exact .bind (.clean (clean_op rfl)) fun _ => .pure fun _ hv => hv

/-- Whatever way a transition is published, the state is the next one. -/
theorem under_transition {next : FiberState} {Q : View → Prop} :
    Under p f (transition f next) (Leads next Q) fun _ v => Q v := by
  have hstate : Under p f (on f .state) (Leads next Q)
      fun old v => old = v.state ∧ Leads next Q v :=
    Under.on rfl nofun fun v r hv htells => ⟨htells, hv⟩
  refine .bind hstate fun old => ?_
  split
  · rename_i hsame
    refine .pure fun v hv => ?_
    have heq : v = { v with state := next } := by rw [← hsame, hv.1]
    exact heq ▸ hv.2.2
  · have hweak : Under p f (on f .installed) (fun v => old = v.state ∧ Leads next Q v)
        fun _ v => Leads next Q v :=
      Under.on rfl nofun fun v r hv _ => hv.2
    refine .bind hweak fun root => ?_
    split
    · exact .bind under_commitFiberTransition fun _ => .clean clean_kickAll
    · exact under_publish

/-- A state other than Disposed may follow every state but Disposed. -/
theorem leads_of_live {next : FiberState} {Q : View → Prop} {v : View}
    (hv : v.state ≠ .disposed) (hnext : next ≠ .disposed) (hQ : Q { v with state := next }) :
    Leads next Q v :=
  ⟨⟨fun heq => absurd heq hnext, fun heq => absurd heq hv⟩, hQ⟩

/-! ## Drains -/

/-- An operation under the slot that is none of the Fiber's own. -/
theorem under_slot {op : Op} {P : View → Prop} (hslot : underSlot op = some f)
    (hon : ∀ op', op ≠ .on f op') (hhandles : handles op = none) (hunseals : unseals op = none)
    (howns : owns op = none) (hforks : forks op = none) (hplain : tampers op = false) :
    Under p f (perform op) P fun _ v => P v := by
  intro s _ hp hP
  have hpublish : ∀ s' g next, op = .on g (.publish next) → (view s' g).Publishes next := by
    intro s' g next hop
    subst hop
    cases hslot
    exact absurd rfl (hon _)
  have hcleared : ∀ s', Cleared p op s' := by
    refine fun s' => ⟨hplain, fun g hop => ?_, hpublish s', fun g hop => ?_,
      fun g target hop => ?_, fun g hop => ?_, fun g hop => ?_⟩
    · rcases hop with rfl | rfl <;> cases hhandles
    · subst hop
      cases hslot
    · subst hop
      cases hslot
      exact absurd rfl (hon _)
    · subst hop
      cases hforks
    · subst hop
      cases hunseals
  refine wp_op hforks fun s' hr _ => ⟨hcleared s', ?_⟩
  intro q c state r ha hexec
  have hp' : Holds p s' f := (hr.beside.holds f id).mpr hp
  have hborn := lt_of_holds hp'
  -- the operation is on no fiber, so the view stays
  have hsame : (state.fibers f).view = view s' f := by
    rcases exec_touch hexec f with ⟨op', r', hop, -⟩ | ⟨_, -, rfl, -⟩ | ⟨-, hcore, -⟩
    · exact absurd hop (hon _)
    · exact absurd hborn (Nat.lt_irrefl _)
    · simp only [Fiber.view, hcore.state, hcore.error, hcore.target, hcore.flags]
  have happlied : applied f ⟨p, op, r, s'.state⟩ = none := by
    unfold applied
    split
    · rename_i g target hop
      split
      · rename_i hg
        subst hg
        exact absurd hop (hon _)
      · rfl
    · rfl
  have hbeside : Beside p (fun g => g = f) s' (s'.shoot p op r state) := by
    refine beside_of_exec ha hexec hplain (hpublish s') (fun g hg => ?_) (fun g hg => ?_) (fun g hg => ?_) howns
    · exact (Option.some.inj (hslot.symm.trans hg)).symm
    · exact absurd (hhandles.symm.trans hg) (by simp)
    · exact absurd (hunseals.symm.trans hg) (by simp)
  refine ⟨(Within.of_waits hr hp).trans ⟨hbeside, ?_, ?_⟩, ?_⟩
  · exact (holds_shoot ha hexec (by rw [hhandles]; simp)).mpr hp'
  · refine unapplied_shoot hexec hborn happlied fun hop => ?_
    subst hop
    cases hunseals
  · show P (state.fibers f).view
    rw [hsame, hr.beside.view f id hp]
    exact hP

theorem under_runCleanupContained {cleanup : Cleanup} {P : View → Prop} :
    Under p f (runCleanupContained f cleanup) P fun _ v => P v := by
  refine .bind (under_slot rfl nofun rfl rfl rfl rfl rfl) fun id => ?_
  have hfork : Clean p (perform (.fork (.cleanup f id cleanup))) :=
    clean_fork rfl fun _ _ _ => trivial
  exact .bind (.clean hfork) fun _ => .clean (clean_op rfl)

theorem under_runTokens {tokens : List Token} {P : View → Prop} :
    Under p f (runTokens f tokens) P fun _ v => P v := by
  induction tokens with
  | nil => exact .pure fun _ hv => hv
  | cons token rest ih =>
      refine .bind (.bind (.clean (clean_op rfl)) fun cleanup => ?_) fun _ => ih
      cases cleanup with
      | some cleanup => exact under_runCleanupContained
      | none => exact .pure fun _ hv => hv

/-- A drain leaves the view alone. -/
theorem under_drainDisposables {P : View → Prop} :
    Under p f (drainDisposables f) P fun _ v => P v := by
  have hwait : Under p f (waitClaimedDrainCleanup f) P fun _ v => P v := by
    refine .bind (.clean (clean_op rfl)) fun id => ?_
    cases id with
    | some id => exact .clean (clean_op rfl)
    | none => exact .pure fun _ hv => hv
  refine .bind hwait fun _ => .bind (under_look rfl nofun fun _ => rfl) fun tokens => ?_
  refine .bind (under_look rfl nofun fun _ => rfl) fun _ => .bind under_runTokens fun _ => ?_
  exact under_look rfl nofun fun _ => rfl

/-! ## Settle passes -/

/-- The state once the previous generation is unloaded. -/
def unloaded : FiberState → FiberState
  | .active | .failed | .loading => .unloading
  | state => state

theorem under_unloadGeneration {Q : View → Prop} :
    Under p f (unloadGeneration f) (fun v => Q { v with state := unloaded v.state })
      fun _ v => Q v := by
  have hstate : Under p f (on f .state) (fun v => Q { v with state := unloaded v.state })
      fun state v => state = v.state ∧ Q { v with state := unloaded v.state } :=
    Under.on rfl nofun fun v r hv htells => ⟨htells, hv⟩
  refine .bind hstate fun state => ?_
  have hunload : ∀ {P : View → Prop}, (∀ v, P v → Leads .unloading Q v) →
      Under p f (do
        transition f .unloading
        drainDisposables f) P fun _ v => Q v := fun hP =>
    .bind (Under.mono under_transition hP fun _ _ hv => hv) fun _ => under_drainDisposables
  have hstay : ∀ {P : View → Prop}, (∀ v, P v → Q v) →
      Under p f (pure () : Prog Unit) P fun _ v => Q v := fun hP => .pure hP
  cases state with
  | active | failed | loading =>
      refine hunload fun v hv => leads_of_live ?_ (by simp) ?_
      · rw [← hv.1]
        simp
      · have hQ := hv.2
        rw [← hv.1] at hQ
        exact hQ
  | pending | unloading | disposed =>
      refine hstay fun v hv => ?_
      have hQ := hv.2
      rw [← hv.1] at hQ
      have hsame : v = { v with state := _ } := congrArg (fun state => { v with state := state }) hv.1.symm
      exact hsame ▸ hQ

/-- A cleared pending mark says that the initial pass won the slot. -/
theorem wp_loadPending (hp : Holds p s f) (ho : Opened f s) :
    custody.wp p (on f (.load .creationPending)) (fun pending s' => Within p f s s' ∧
      view s' f = view s f ∧ (pending = false → Owned f s'.film)) s := by
  have hloose : Loose (.on f (.load .creationPending)) := loose_iff.mp rfl
  refine wp_op rfl fun s' hr _ => ⟨hloose.cleared, ?_⟩
  intro q c state pending ha hexec
  have hbeside := hr.beside.trans (hloose.beside ha hexec)
  refine ⟨Within.of_beside hbeside hp, hbeside.view f id hp, fun hcleared => ?_⟩
  have hstep := exec_on hexec
  simp only [FiberOp.exec, Option.some.injEq, Prod.mk.injEq] at hstep
  have hview : view s' f = view s f := hr.beside.view f id hp
  rcases (hr.beside.unapplied id hp).opened (congrArg View.applied hview) ho with howned | hsealed
  · exact Owned.shoot howned
  · have hpending : pending = true := hstep.2.symm.trans hsealed.pending
    rw [hpending] at hcleared
    cases hcleared

/-- The first apply of a pending creation is left to its initial pass. -/
theorem wp_firstApplyHeld {ownsFirstApply : Bool} (hs : Custody s) (hp : Holds p s f)
    (ho : Opened f s) (hown : ownsFirstApply = true → Owned f s.film) :
    custody.wp p (firstApplyHeld f ownsFirstApply) (fun held s' => Within p f s s' ∧
      view s' f = view s f ∧ if held then (view s f).applied = false else Owned f s'.film) s := by
  unfold firstApplyHeld
  cases ownsFirstApply with
  | true => exact ⟨Within.refl hp, rfl, hown rfl⟩
  | false =>
      refine custody.wp_seq hs (wp_loadPending hp ho) ?_
      rintro pending s₁ hs₁ ⟨hw₁, hv₁, hcleared⟩
      cases pending with
      | false => exact ⟨hw₁, hv₁, hcleared rfl⟩
      | true =>
          refine custody.wp_seq hs₁ (wp_on hs₁ hw₁.holds rfl nofun) ?_
          rintro applied s₂ _ ⟨hw₂, hv₂, htells⟩
          have happlied : (view s f).applied = applied :=
            (congrArg View.applied hv₁).symm.trans (Eq.symm htells)
          have hv : view s₂ f = view s f := hv₂.trans hv₁
          have hw : Within p f s s₂ := hw₁.trans hw₂
          refine ⟨hw, hv, ?_⟩
          cases applied with
          | false => exact happlied
          | true =>
              rcases hw.unapplied.opened (congrArg View.applied hv) ho with howned | hsealed
              · exact howned
              · have hunapplied := hsealed.unapplied
                rw [hv, happlied] at hunapplied
                cases hunapplied

/-- What a settle pass toward the target leaves behind. -/
structure Passed (p : Party) (f : FiberId) (target : SemanticTarget) (s s' : Reel) : Prop where
  beside : Beside p (fun g => g = f) s s'
  holds : Holds p s' f
  settled : Settled (view s' f)
  recorded : (view s' f).target = (view s f).target
  alive : (view s' f).alive = (view s f).alive
  opened : (view s' f).alive = true → Opened f s'
  moved : Unapplied f s s' ∨ target.hasMissing = false ∧ lastApply f s'.film = some target

/-- A pass is under way toward the recorded target. -/
structure Underway (recorded : Option SemanticTarget) (v : View) : Prop where
  alive : v.alive = true
  recorded : v.target = recorded
  live : v.state ≠ .disposed

theorem Underway.leads {recorded : Option SemanticTarget} {v : View} (h : Underway recorded v)
    {next : FiberState} (hnext : next ≠ .disposed) {Q : View → Prop}
    (hQ : Underway recorded { v with state := next } → Q { v with state := next }) :
    Leads next Q v :=
  leads_of_live h.live hnext (hQ ⟨h.alive, h.recorded, hnext⟩)

/-- The outcome of an apply settles the Fiber. -/
theorem settled_of_applied {v : View} (halive : v.alive = true) (happlied : v.applied = true)
    (h : v.state = .active ∧ v.error = none ∨ v.state = .failed ∧ v.error.isSome = true) :
    Settled v := by
  rcases h with ⟨hstate, herror⟩ | ⟨hstate, herror⟩
  · refine ⟨?_, fun _ => ?_, ?_, fun hno => ?_⟩
    · rw [hstate]
      exact ⟨nofun, nofun⟩
    · rw [hstate, herror]
      exact ⟨nofun, nofun⟩
    · rw [hstate, halive]
      exact ⟨nofun, nofun⟩
    · exact absurd (hno.symm.trans happlied) nofun
  · refine ⟨?_, fun _ => ?_, ?_, fun hno => ?_⟩
    · rw [hstate]
      exact ⟨nofun, nofun⟩
    · exact ⟨fun _ => hstate, fun _ => herror⟩
    · rw [hstate, halive]
      exact ⟨nofun, nofun⟩
    · exact absurd (hno.symm.trans happlied) nofun

/-- What came of the apply is published. -/
theorem under_finish {recorded : Option SemanticTarget} :
    Under p f (do
      let outcome ← on f .finishApply
      on f (.store .applied true)
      match outcome.failure with
      | none => do
          on f (.storeError none)
          transition f .active
      | some failure => rollback f failure)
      (Underway recorded)
      (fun _ v => Settled v ∧ v.alive = true ∧ v.target = recorded) := by
  refine .bind (under_look rfl nofun fun _ => rfl) fun outcome => ?_
  have happlied : Under p f (on f (.store .applied true)) (Underway recorded)
      (fun _ v => Underway recorded v ∧ v.applied = true) :=
    Under.on rfl nofun fun v r hv _ => ⟨⟨hv.alive, hv.recorded, hv.live⟩, rfl⟩
  refine .bind happlied fun _ => ?_
  cases outcome.failure with
  | none =>
      have herror : Under p f (on f (.storeError none))
          (fun v => Underway recorded v ∧ v.applied = true)
          (fun _ v => v.error = none ∧ Underway recorded v ∧ v.applied = true) :=
        Under.on rfl nofun fun v r hv _ =>
          ⟨rfl, ⟨hv.1.alive, hv.1.recorded, hv.1.live⟩, hv.2⟩
      refine .bind herror fun _ => Under.mono under_transition
        (R := fun v => v.error = none ∧ Underway recorded v ∧ v.applied = true)
        (Q := fun _ v => Settled v ∧ v.alive = true ∧ v.target = recorded) ?_ fun _ _ hv => hv
      rintro v ⟨herror, hway, happlied⟩
      refine hway.leads (by simp) fun hnext => ?_
      exact ⟨settled_of_applied hnext.alive happlied (.inl ⟨rfl, herror⟩), hnext.alive,
        hnext.recorded⟩
  | some failure =>
      -- a failed apply is rolled back: the journal is drained before the error shows
      have hunload : Under p f (transition f .unloading)
          (fun v => Underway recorded v ∧ v.applied = true)
          (fun _ v => Underway recorded v ∧ v.applied = true) :=
        Under.mono (under_transition (Q := fun v => Underway recorded v ∧ v.applied = true))
          (fun v hv => hv.1.leads (by simp) fun hnext => ⟨hnext, hv.2⟩) fun _ _ hv => hv
      have herror : Under p f (on f (.storeError (some failure)))
          (fun v => Underway recorded v ∧ v.applied = true)
          (fun _ v => v.error.isSome = true ∧ Underway recorded v ∧ v.applied = true) :=
        Under.on rfl nofun fun v r hv _ =>
          ⟨rfl, ⟨hv.1.alive, hv.1.recorded, hv.1.live⟩, hv.2⟩
      refine .bind hunload fun _ => .bind under_drainDisposables fun _ => .bind herror fun _ => ?_
      refine Under.mono under_transition
        (R := fun v => v.error.isSome = true ∧ Underway recorded v ∧ v.applied = true)
        (Q := fun _ v => Settled v ∧ v.alive = true ∧ v.target = recorded) ?_ fun _ _ hv => hv
      rintro v ⟨herror, hway, happlied⟩
      refine hway.leads (by simp) fun hnext => ?_
      exact ⟨settled_of_applied hnext.alive happlied (.inr ⟨rfl, herror⟩), hnext.alive,
        hnext.recorded⟩

/-- The apply is due, and its window closes inside the pass. -/
theorem wp_applyGeneration {target : SemanticTarget} (hs : Custody s) (hp : Holds p s f)
    (halive : (view s f).alive = true) (hlive : (view s f).state ≠ .disposed)
    (hpresent : target.hasMissing = false) (he : Excused f s) (howned : Owned f s.film) :
    custody.wp p (applyGeneration f target) (fun _ s' => Passed p f target s s') s := by
  refine custody.wp_seq hs (wp_on hs hp rfl nofun) ?_
  rintro _ s₁ hs₁ ⟨hw₁, hv₁, -⟩
  have hway : Underway (view s f).target (view s f) := ⟨halive, rfl, hlive⟩
  have hloading : Under p f (transition f .loading) (fun v => v = view s f)
      (fun _ v => Underway (view s f).target v ∧ v.state = .loading) := by
    refine Under.mono (under_transition
      (Q := fun v => Underway (view s f).target v ∧ v.state = .loading)) ?_ fun _ _ hv => hv
    rintro v rfl
    exact hway.leads (by simp) fun hnext => ⟨hnext, rfl⟩
  refine custody.wp_seq hs₁ (hloading s₁ hs₁ hw₁.holds hv₁) ?_
  rintro _ s₂ hs₂ ⟨hw₂, hv₂, hstate₂⟩
  have hw : Within p f s s₂ := hw₁.trans hw₂
  refine custody.wp_seq hs₂ (wp_startApply hw₂.holds (hw.unapplied.excused he)
    (hw.beside.owned howned) hpresent hstate₂ hv₂.alive) ?_
  rintro _ s₃ hs₃ ⟨hb₃, hp₃, hv₃, hlast⟩
  refine custody.wp_mono hs₃ (under_finish s₃ hs₃ hp₃ (hv₃ ▸ hv₂)) ?_
  rintro _ s₄ _ ⟨hw₄, hsettled, halive₄, htarget₄⟩
  have hb : Beside p (fun g => g = f) s s₄ := hw.beside.trans (hb₃.trans hw₄.beside)
  exact ⟨hb, hw₄.holds, hsettled, htarget₄, halive₄.trans halive.symm,
    fun _ => .inl (hb.owned howned), .inr ⟨hpresent, hw₄.unapplied.lastApply.trans hlast⟩⟩

theorem Passed.of_within {target : SemanticTarget} {s' : Reel} (hw : Within p f s s')
    (hsettled : Settled (view s' f)) (htarget : (view s' f).target = (view s f).target)
    (halive : (view s' f).alive = (view s f).alive)
    (happlied : (view s' f).applied = (view s f).applied)
    (ho : (view s f).alive = true → Opened f s) : Passed p f target s s' :=
  ⟨hw.beside, hw.holds, hsettled, htarget, halive,
    fun h => hw.unapplied.opened happlied (ho (halive ▸ h)), .inl hw.unapplied⟩

theorem Passed.after {target : SemanticTarget} {s' s'' : Reel} (h : Passed p f target s' s'')
    (hw : Within p f s s') (htarget : (view s' f).target = (view s f).target)
    (halive : (view s' f).alive = (view s f).alive) : Passed p f target s s'' :=
  ⟨hw.beside.trans h.beside, h.holds, h.settled, h.recorded.trans htarget, h.alive.trans halive,
    h.opened, h.moved.imp_left hw.unapplied.trans⟩

theorem wp_settleOnceInner {target : SemanticTarget} {ownsFirstApply : Bool} (hs : Custody s)
    (hp : Holds p s f) (hsettled : Settled (view s f))
    (he : Excused f s ∨ (view s f).alive = false) (ho : (view s f).alive = true → Opened f s)
    (hown : ownsFirstApply = true → Owned f s.film) :
    custody.wp p (settleOnceInner f target ownsFirstApply)
      (fun _ s' => Passed p f target s s') s := by
  refine custody.wp_seq hs (wp_on hs hp rfl nofun) ?_
  rintro alive s₁ hs₁ ⟨hw₁, hv₁, halive⟩
  change alive = (view s f).alive at halive
  have hv₁ : view s₁ f = view s f := hv₁
  cases alive with
  | false => exact .of_within hw₁ (hv₁ ▸ hsettled) (by rw [hv₁]) (by rw [hv₁]) (by rw [hv₁]) ho
  | true =>
      have hexcused : Excused f s := he.resolve_right fun hdead => nomatch halive.trans hdead
      have hunload : Under p f (unloadGeneration f) (fun v => v = view s f)
          (fun _ v => v = { view s f with state := unloaded (view s f).state }) := by
        refine Under.mono (under_unloadGeneration
          (Q := fun v => v = { view s f with state := unloaded (view s f).state })) ?_
          fun _ _ hv => hv
        rintro v rfl
        rfl
      refine custody.wp_seq hs₁ (hunload s₁ hs₁ hw₁.holds hv₁) ?_
      rintro _ s₂ hs₂ ⟨hw₂, hv₂⟩
      have hw : Within p f s s₂ := hw₁.trans hw₂
      have halive₂ : (view s₂ f).alive = true := by rw [hv₂, halive]
      have hlive₂ : (view s₂ f).state ≠ .disposed := by
        rw [hv₂]
        intro hdisposed
        refine nomatch halive.trans (hsettled.dead.mpr ?_)
        cases hstate : (view s f).state <;> rw [hstate] at hdisposed <;> first | rfl | cases hdisposed
      by_cases hmissing : target.hasMissing = true
      · rw [if_pos hmissing]
        have hpending : Under p f (do
            on f (.storeError none)
            transition f .pending) (fun v => v = view s₂ f)
            (fun _ v => v = { view s₂ f with state := .pending, error := none }) := by
          have herror : Under p f (on f (.storeError none)) (fun v => v = view s₂ f)
              (fun _ v => v = { view s₂ f with error := none }) :=
            Under.on rfl nofun fun v r hv _ => hv ▸ rfl
          refine .bind herror fun _ => Under.mono (under_transition
            (Q := fun v => v = { view s₂ f with state := .pending, error := none })) ?_
            fun _ _ hv => hv
          rintro v rfl
          exact leads_of_live hlive₂ (by simp) rfl
        refine custody.wp_mono hs₂ (hpending s₂ hs₂ hw.holds rfl) ?_
        rintro _ s₃ _ ⟨hw₃, hv₃⟩
        refine .of_within (hw.trans hw₃) ?_ ?_ ?_ ?_ ho
        · rw [hv₃]
          refine ⟨⟨nofun, nofun⟩, fun _ => ⟨nofun, nofun⟩, ?_, fun _ => .inl rfl⟩
          show (view s₂ f).alive = false ↔ _
          rw [halive₂]
          exact ⟨nofun, nofun⟩
        all_goals rw [hv₃, hv₂]
      · rw [if_neg hmissing]
        have ho₂ : Opened f s₂ := hw.unapplied.opened (by rw [hv₂]) (ho halive.symm)
        refine custody.wp_seq hs₂ (wp_firstApplyHeld hs₂ hw.holds ho₂
          fun h => hw.beside.owned (hown h)) ?_
        rintro held s₃ hs₃ ⟨hw₃, hv₃, hheld⟩
        have hw' : Within p f s s₃ := hw.trans hw₃
        cases held with
        | true =>
            -- nothing was ever applied, so nothing was unloaded
            have hunapplied : (view s f).applied = false := by
              have hunapplied : (view s₂ f).applied = false := hheld
              rwa [hv₂] at hunapplied
            have hstate : (view s f).state = .pending := by
              refine (hsettled.unapplied hunapplied).resolve_right fun hdisposed => ?_
              exact nomatch halive.trans (hsettled.dead.mpr hdisposed)
            have hv : view s₃ f = view s f := by
              rw [hv₃, hv₂, hstate]
              show { view s f with state := .pending } = view s f
              rw [← hstate]
            exact .of_within hw' (hv ▸ hsettled) (by rw [hv]) (by rw [hv]) (by rw [hv]) ho
        | false =>
            refine custody.wp_mono hs₃ (wp_applyGeneration hs₃ hw'.holds
              (hv₃ ▸ halive₂) (hv₃ ▸ hlive₂) (eq_false_of_ne_true hmissing) (hw'.unapplied.excused hexcused) hheld) ?_
            intro _ s₄ _ hpassed
            refine hpassed.after hw' ?_ ?_
            all_goals rw [hv₃, hv₂]

/-- A settle pass leaves a stable state, and applies only where an apply is due. -/
theorem wp_settleOnce {target : SemanticTarget} {ownsFirstApply : Bool} (hs : Custody s)
    (hp : Holds p s f) (hsettled : Settled (view s f))
    (he : Excused f s ∨ (view s f).alive = false) (ho : (view s f).alive = true → Opened f s)
    (hown : ownsFirstApply = true → Owned f s.film) :
    custody.wp p (settleOnce f target ownsFirstApply) (fun _ s' => Passed p f target s s') s := by
  refine custody.wp_seq hs (wp_on hs hp rfl nofun) ?_
  rintro _ s₁ hs₁ ⟨hw₁, hv₁, -⟩
  have hv₁ : view s₁ f = view s f := hv₁
  have hpre : Excused f s₁ ∨ (view s₁ f).alive = false := by
    rw [hv₁]
    exact he.imp_left hw₁.unapplied.excused
  have ho₁ : (view s₁ f).alive = true → Opened f s₁ := by
    rw [hv₁]
    exact fun h => hw₁.unapplied.opened (by rw [hv₁]) (ho h)
  refine custody.wp_seq hs₁ (wp_settleOnceInner hs₁ hw₁.holds (hv₁ ▸ hsettled) hpre ho₁
    fun h => hw₁.beside.owned (hown h)) ?_
  intro _ s₂ hs₂ hpassed
  refine custody.wp_mono hs₂ (wp_on hs₂ hpassed.holds rfl nofun) ?_
  rintro _ s₃ _ ⟨hw₃, hv₃, -⟩
  have hv₃ : view s₃ f = view s₂ f := hv₃
  refine Passed.after ⟨hpassed.beside.trans hw₃.beside, hw₃.holds, hv₃ ▸ hpassed.settled, ?_, ?_,
    fun h => ?_, ?_⟩ hw₁ (by rw [hv₁]) (by rw [hv₁])
  · rw [hv₃, hpassed.recorded]
  · rw [hv₃, hpassed.alive]
  · exact hw₃.unapplied.opened (by rw [hv₃]) (hpassed.opened (hv₃ ▸ h))
  · exact hpassed.moved.imp (fun h => h.trans hw₃.unapplied)
      fun h => ⟨h.1, hw₃.unapplied.lastApply.trans h.2⟩

/-! ## Teardown -/

/-- The Fiber has come to its end under the slot. -/
structure Ended (p : Party) (f : FiberId) (s s' : Reel) : Prop where
  beside : Beside p (fun g => g = f) s s'
  holds : Holds p s' f
  state : (view s' f).state = .disposed
  dead : (view s' f).alive = false

theorem Ended.rest {s' : Reel} (h : Ended p f s s') : Rest f s' := by
  refine ⟨⟨?_, fun halive => ?_, ⟨fun _ => h.state, fun _ => h.dead⟩, fun _ => .inr h.state⟩,
    .inr (.inl h.dead), fun halive => ?_⟩
  · rw [h.state]
    exact ⟨nofun, nofun⟩
  · exact nomatch h.dead.symm.trans halive
  · exact nomatch h.dead.symm.trans halive

theorem Ended.after {s' s'' : Reel} (h : Ended p f s' s'')
    (hb : Beside p (fun g => g = f) s s') : Ended p f s s'' :=
  ⟨hb.trans h.beside, h.holds, h.state, h.dead⟩

theorem Ended.within {s' s'' : Reel} (h : Ended p f s s') (hw : Within p f s' s'')
    (hv : view s'' f = view s' f) : Ended p f s s'' :=
  ⟨h.beside.trans hw.beside, hw.holds, hv ▸ h.state, hv ▸ h.dead⟩

/-- The holder ends the creation window with the Fiber. -/
theorem wp_unseal (hp : Holds p s f) :
    custody.wp p (on f (.store .creationPending false)) (fun _ s' =>
      Beside p (fun g => g = f) s s' ∧ Holds p s' f ∧ view s' f = view s f) s := by
  refine wp_op rfl fun s' hr _ => ?_
  have hp' : Holds p s' f := (hr.beside.holds f id).mpr hp
  refine ⟨⟨rfl, ?_, nofun, nofun, nofun, nofun, ?_⟩, ?_⟩
  · intro g hop
    rcases hop with hop | hop <;> cases hop
  · intro g hop
    cases hop
    exact .inr hp'
  intro q c state r ha hexec
  have hbeside : Beside p (fun g => g = f) s'
      (s'.shoot p (.on f (.store .creationPending false)) r state) :=
    beside_of_exec ha hexec rfl nofun (fun g hg => nomatch hg) (fun g hg => nomatch hg)
      (fun g hg => (Option.some.inj hg).symm) rfl
  refine ⟨(hr.beside.mono fun _ hF => hF.elim).trans hbeside, ?_, ?_⟩
  · exact (holds_shoot ha hexec nofun).mpr hp'
  · exact (exec_view hexec rfl (lt_of_holds hp') nofun).trans (hr.beside.view f id hp)

theorem clean_unregisterInstalled : Clean p (unregisterInstalled f) := by
  refine .bind (clean_op rfl) fun installed => ?_
  cases installed with
  | true => exact clean_op rfl
  | false => exact .pure _

theorem under_end :
    Under p f (do
      transition f .unloading
      on f .pinInactive
      on f (.store .alive false)
      unregisterInstalled f
      drainDisposables f
      transition f .disposed
      on f (.storeError none)) (fun v => v.state ≠ .disposed)
      (fun _ v => v.state = .disposed ∧ v.alive = false) := by
  have hunload : Under p f (transition f .unloading) (fun v => v.state ≠ .disposed)
      fun _ _ => True :=
    Under.mono (under_transition (Q := fun _ => True))
      (fun v hv => leads_of_live hv (by simp) trivial) fun _ _ hv => hv
  have hpin : Under p f (on f .pinInactive) (fun _ => True) fun _ _ => True :=
    Under.on rfl nofun fun _ _ _ _ => trivial
  have hdead : Under p f (on f (.store .alive false)) (fun _ => True)
      fun _ v => v.alive = false :=
    Under.on rfl nofun fun _ _ _ _ => rfl
  have hdisposed : Under p f (transition f .disposed) (fun v => v.alive = false)
      fun _ v => v.state = .disposed ∧ v.alive = false :=
    Under.mono (under_transition (Q := fun v => v.state = .disposed ∧ v.alive = false))
      (fun _ hv => ⟨⟨fun _ => hv, fun _ => rfl⟩, rfl, hv⟩) fun _ _ hv => hv
  have herror : Under p f (on f (.storeError none))
      (fun v => v.state = .disposed ∧ v.alive = false)
      fun _ v => v.state = .disposed ∧ v.alive = false :=
    Under.on rfl nofun fun _ _ hv _ => hv
  exact .bind hunload fun _ => .bind hpin fun _ => .bind hdead fun _ =>
    .bind (.clean clean_unregisterInstalled) fun _ => .bind under_drainDisposables fun _ =>
      .bind hdisposed fun _ => herror

/-- Whatever state a teardown finds, it leaves a disposed Fiber. -/
theorem wp_teardownBody (hs : Custody s) (hp : Holds p s f) :
    custody.wp p (teardownBody f) (fun _ s' => Ended p f s s') s := by
  refine custody.wp_seq hs (wp_unseal hp) ?_
  rintro _ s₁ hs₁ ⟨hb₁, hp₁, -⟩
  refine custody.wp_seq hs₁ (wp_on hs₁ hp₁ rfl nofun) ?_
  rintro state s₂ hs₂ ⟨hw₂, hv₂, hstate⟩
  have hb : Beside p (fun g => g = f) s s₂ := hb₁.trans hw₂.beside
  change state = (view s₁ f).state at hstate
  have hv₂ : view s₂ f = view s₁ f := hv₂
  split
  · rename_i hdisposed
    have hstate₂ : (view s₂ f).state = .disposed := by rw [hv₂, ← hstate, hdisposed]
    exact ⟨hb, hw₂.holds, hstate₂, hs₂.dead f (lt_of_holds hw₂.holds) hstate₂⟩
  · rename_i hlive
    have hlive₂ : (view s₂ f).state ≠ .disposed := by
      rw [hv₂, ← hstate]
      exact hlive
    refine custody.wp_mono hs₂ (under_end s₂ hs₂ hw₂.holds hlive₂) ?_
    rintro _ s₃ _ ⟨hw₃, hdisposed, hdead⟩
    exact ⟨hb.trans hw₃.beside, hw₃.holds, hdisposed, hdead⟩

theorem wp_bracketedTeardown (hs : Custody s) (hp : Holds p s f) :
    custody.wp p (bracketedTeardown f) (fun _ s' => Ended p f s s') s := by
  refine custody.wp_seq hs (wp_on hs hp rfl nofun) ?_
  rintro _ s₁ hs₁ ⟨hw₁, -, -⟩
  refine custody.wp_seq hs₁ (wp_teardownBody hs₁ hw₁.holds) ?_
  intro _ s₂ hs₂ hended
  refine custody.wp_mono hs₂ (wp_on hs₂ hended.holds rfl nofun) ?_
  rintro _ s₃ _ ⟨hw₃, hv₃, -⟩
  exact (hended.within hw₃ hv₃).after hw₁.beside

theorem clean_releaseResidency : Clean p (releaseResidency f) := by
  refine .bind (clean_op rfl) fun claim => ?_
  cases claim with
  | none => exact .pure _
  | some group =>
      refine .bind (clean_op rfl) fun upgraded => ?_
      cases upgraded with
      | true => exact clean_op rfl
      | false => exact .pure _

/-- Who finds the barrier published finds the Fiber at its end. -/
theorem wp_loadComplete : custody.wp p (on f (.load .disposeComplete)) (fun complete s' =>
    Beside p (fun _ => False) s s' ∧ (complete = true → Complete f s'.state)) s := by
  refine wp_op rfl fun s' hr _ => ⟨(loose_iff.mp rfl).cleared, ?_⟩
  intro q c state complete ha hexec
  have hloose : Loose (.on f (.load .disposeComplete)) := loose_iff.mp rfl
  refine ⟨hr.beside.trans (hloose.beside ha hexec), fun hcomplete => ?_⟩
  have hstep := exec_on hexec
  simp only [FiberOp.exec, Option.some.injEq, Prod.mk.injEq] at hstep
  show (state.fibers f).flags .disposeComplete = true
  rw [← hstep.1]
  exact hstep.2.trans hcomplete

theorem wp_waitDisposeComplete :
    custody.wp p (waitDisposeComplete f) (fun _ s' =>
      Beside p (fun _ => False) s s' ∧ Complete f s'.state) s := by
  refine custody.wp_iterate (fun _ s' => Beside p (fun _ => False) s s') (Beside.refl p _ s) ?_
  intro _ s₁ hs₁ hb₁
  refine custody.wp_seq hs₁ wp_loadComplete ?_
  rintro complete s₂ hs₂ ⟨hb₂, hcomplete⟩
  cases complete with
  | true => exact ⟨hb₁.trans hb₂, hcomplete rfl⟩
  | false =>
      refine custody.wp_seq hs₂ (clean_op rfl s₂ hs₂) ?_
      intro _ s₃ _ hb₃
      exact hb₁.trans (hb₂.trans hb₃)

/-- The barrier of a disposal is published at its end. -/
theorem wp_publishDisposeComplete (hstate : (view s f).state = .disposed) :
    custody.wp p (publishDisposeComplete f) (fun _ s' =>
      Beside p (fun _ => False) s s' ∧ Complete f s'.state) s := by
  refine wp_op rfl fun s' hr _ => ⟨⟨rfl, by simp, by simp, ?_, by simp, by simp, by simp⟩, ?_⟩
  · intro g hop
    cases hop
    exact (hr.beside.onward f).final hstate
  · intro q c state r ha hexec
    refine ⟨hr.beside.trans (beside_of_exec ha hexec rfl (by simp) ?_ ?_ ?_ rfl), ?_⟩
    · rintro _ ⟨⟩
    · rintro _ ⟨⟩
    · rintro _ ⟨⟩
    · have hstep := exec_on hexec
      simp only [FiberOp.exec, Option.some.injEq, Prod.mk.injEq] at hstep
      show (state.fibers f).flags .disposeComplete = true
      rw [← hstep.1]
      rfl

/-- What follows a teardown: the residency goes, and the barrier is published. -/
theorem wp_conclude (hs : Custody s) (hstate : (view s f).state = .disposed) :
    custody.wp p (do
      releaseResidency f
      publishDisposeComplete f) (fun _ s' =>
        Beside p (fun _ => False) s s' ∧ Complete f s'.state) s := by
  refine custody.wp_seq hs (clean_releaseResidency s hs) ?_
  intro _ s₁ hs₁ hb₁
  refine custody.wp_mono hs₁ (wp_publishDisposeComplete ((hb₁.onward f).final hstate)) ?_
  rintro _ s₂ _ ⟨hb₂, hcomplete⟩
  exact ⟨hb₁.trans hb₂, hcomplete⟩

theorem wp_creationTeardown (hs : Custody s) (hp : Holds p s f) :
    custody.wp p (creationTeardown f) (fun _ s' =>
      Ended p f s s' ∧ Complete f s'.state) s := by
  refine custody.wp_seq hs (wp_on hs hp rfl nofun) ?_
  rintro _ s₁ hs₁ ⟨hw₁, -, -⟩
  refine custody.wp_seq hs₁ (wp_bracketedTeardown hs₁ hw₁.holds) ?_
  intro _ s₂ hs₂ hended
  refine custody.wp_mono hs₂ (wp_conclude hs₂ hended.state) ?_
  rintro _ s₃ _ ⟨hb₃, hcomplete⟩
  have hkept := hended.within (Within.of_beside hb₃ hended.holds) (hb₃.view f id hended.holds)
  exact ⟨hkept.after hw₁.beside, hcomplete⟩

theorem wp_finishInterrupted (hs : Custody s) (hp : Holds p s f) :
    custody.wp p (finishInterrupted f) (fun _ s' => Gone p f s s' ∧ Complete f s'.state) s := by
  refine custody.wp_seq hs (wp_bracketedTeardown hs hp) ?_
  intro _ s₁ hs₁ hended
  refine custody.wp_seq hs₁ (wp_abandon hs₁ hended.holds hended.rest) ?_
  intro _ s₂ hs₂ hgone
  refine custody.wp_mono hs₂ (wp_conclude hs₂ ((hgone.beside.onward f).final hended.state)) ?_
  rintro _ s₃ _ ⟨hb₃, hcomplete⟩
  exact ⟨(hgone.before hb₃).after hended.beside, hcomplete⟩

theorem wp_completeClaimedDispose (hs : Custody s) (hp : Holds p s f) :
    custody.wp p (completeClaimedDispose f) (fun _ s' =>
      Gone p f s s' ∧ Complete f s'.state) s := by
  refine custody.wp_seq hs (wp_on hs hp rfl nofun) ?_
  rintro _ s₁ hs₁ ⟨hw₁, -, -⟩
  refine custody.wp_seq hs₁ (wp_teardownBody hs₁ hw₁.holds) ?_
  intro _ s₂ hs₂ hended
  refine custody.wp_seq hs₂ (wp_abandon hs₂ hended.holds hended.rest) ?_
  intro _ s₃ hs₃ hgone
  refine custody.wp_seq hs₃ (clean_op rfl s₃ hs₃) ?_
  intro _ s₄ hs₄ hb₄
  have hstate₄ : (view s₄ f).state = .disposed :=
    (hb₄.onward f).final ((hgone.beside.onward f).final hended.state)
  refine custody.wp_mono hs₄ (wp_conclude hs₄ hstate₄) ?_
  rintro _ s₅ _ ⟨hb₅, hcomplete⟩
  exact ⟨(hgone.before (hb₄.trans hb₅)).after (hw₁.beside.trans hended.beside), hcomplete⟩

end Custody
end Runtime
end CordisCore
