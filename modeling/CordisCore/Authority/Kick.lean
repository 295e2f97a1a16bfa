import CordisCore.Authority.Rules

/-!
# Authority of claims, exit rechecks and kicks
-/

namespace CordisCore
namespace Runtime

open Interleaving
open Interleaving.Program (iterate)

variable {p : Party} {f : FiberId} {s : Root}

/-! ## Code that moves no slot -/

/-- The operation moves no slot and needs at most the slot of its own Fiber. -/
def FiberOp.stays (op : FiberOp) : Bool :=
  !op.movesSlot && !op.byCreator

/-- The operation moves no slot and needs none. -/
def outside (op : Op) : Bool :=
  !movesSlot op && (byCreator op).isNone && (underSlot op).isNone

/-- Such an operation at which nobody is dropped. -/
def quiet (op : Op) : Bool :=
  outside op && !op.awaits

theorem outside_iff {op : Op} :
    outside op = true ↔ movesSlot op = false ∧ byCreator op = none ∧ underSlot op = none := by
  simp [outside, and_assoc]

/-- The party holds the slot and may be dropped. -/
structure Holding (p : Party) (f : FiberId) (s : Root) : Prop where
  droppable : Droppable p s
  holds : (part p s f).holds

theorem Holding.keeps {s' : Root} (h : Holding p f s) (hk : Keeps p s s') : Holding p f s' :=
  ⟨h.droppable.keeps hk, hk.holds h.holds⟩

theorem neutral_stays {op : FiberOp} (h : op.stays = true) :
    authority.Neutral (Holding p f) p (on f op) := by
  simp only [FiberOp.stays, Bool.and_eq_true, Bool.not_eq_true'] at h
  have hc : byCreator (.on f op) = none := by simp [byCreator, h.2]
  refine neutral_op h.1 hc (fun _ hd _ => hd.droppable) fun s hd g hg => ?_
  simp only [underSlot, Option.ite_none_right_eq_some, Option.some.injEq] at hg
  exact hg.2 ▸ hd.holds

theorem neutral_outside {op : Op} (h : outside op = true) :
    authority.Neutral (Droppable p) p (perform op) := by
  rcases outside_iff.mp h with ⟨hm, hc, hu⟩
  refine neutral_op hm hc (fun _ hd _ => hd) fun s _ g hg => ?_
  rw [hu] at hg
  cases hg

theorem neutral_quiet {op : Op} (h : quiet op = true) :
    authority.Neutral (fun _ => True) p (perform op) := by
  simp only [quiet, Bool.and_eq_true, Bool.not_eq_true'] at h
  rcases outside_iff.mp h.1 with ⟨hm, hc, hu⟩
  refine neutral_op hm hc (fun _ _ ha => ?_) fun s _ g hg => ?_
  · rw [h.2] at ha
    cases ha
  · rw [hu] at hg
    cases hg

theorem wp_quiet {op : Op} (hs : SlotInv s) (h : quiet op = true) :
    authority.wp p (perform op) (fun _ s' => Keeps p s s') s :=
  neutral_quiet h s hs trivial

/-- An operation of the holder at which nobody is dropped. -/
theorem wp_held {op : FiberOp} (hs : SlotInv s) (h : op.stays = true)
    (ha : (Op.on f op).awaits = false) (hp : (part p s f).holds) :
    authority.wp p (on f op) (fun _ s' => Keeps p s s') s := by
  simp only [FiberOp.stays, Bool.and_eq_true, Bool.not_eq_true'] at h
  have hc : byCreator (.on f op) = none := by simp [byCreator, h.2]
  have hm : movesSlot (.on f op) = false := h.1
  refine neutral_op (D := fun s => (part p s f).holds) hm hc (fun _ _ hw => ?_)
    (fun s hd g hg => ?_) s hs hp
  · rw [ha] at hw
    cases hw
  · simp only [underSlot, Option.ite_none_right_eq_some, Option.some.injEq] at hg
    exact hg.2 ▸ hd

/-! ## Reading the live target -/

theorem neutral_seq {α β : Type} {x : Prog α} {y : α → Prog β}
    (hx : authority.Neutral (fun _ => True) p x)
    (hy : ∀ a, authority.Neutral (fun _ => True) p (y a)) :
    authority.Neutral (fun _ => True) p (x >>= y) :=
  Logic.Neutral.bind (fun _ _ => trivial) hx hy

theorem neutral_hasCommittedRecheck :
    authority.Neutral (fun _ => True) p (hasCommittedRecheck f) := by
  refine neutral_seq (neutral_quiet rfl) fun _ => ?_
  exact neutral_seq (neutral_quiet rfl) fun _ => Logic.Neutral.pure _

theorem neutral_readAssignments {edges : List DependencyEdge} :
    authority.Neutral (fun _ => True) p (readAssignments edges) := by
  induction edges with
  | nil => exact Logic.Neutral.pure _
  | cons edge edges ih =>
      refine neutral_seq (neutral_quiet rfl) fun _ => ?_
      exact neutral_seq ih fun _ => Logic.Neutral.pure _

theorem neutral_computeTarget : authority.Neutral (fun _ => True) p (computeTarget f) := by
  refine neutral_seq (neutral_quiet rfl) fun _ => ?_
  refine neutral_seq (neutral_quiet rfl) fun _ => ?_
  exact neutral_seq neutral_readAssignments fun _ => Logic.Neutral.pure _

/-! ## Claims -/

/-- The slot is won: nothing else of it is in the party's hands. -/
def Won (p : Party) (f : FiberId) (s s' : Root) : Prop :=
  (part p s f).Clear ∧ Moves p f ((part p s f).withHolds True) s s'

theorem Won.owns {s' : Root} (h : Won p f s s') : (part p s' f).Owns :=
  h.2.here ▸ h.1.withHolds_true

theorem Won.of_keeps {s' s'' : Root} (hk : Keeps p s s') (h : Won p f s' s'') :
    Won p f s s'' := by
  rcases h with ⟨hc, hm⟩
  rw [hk.at_ f] at hc hm
  exact ⟨hc, Moves.keeps_trans hk hm⟩

theorem Won.keeps {s' s'' : Root} (h : Won p f s s') (hk : Keeps p s' s'') : Won p f s s'' :=
  ⟨h.1, h.2.trans_keeps hk⟩

theorem Won.spawned {s' : Root} (h : Won p f s s') (hf : Spawned s f) : Spawned s' f :=
  h.2.spawned hf

/-- Giving the won slot back restores the party's part. -/
theorem Won.restore {s' s'' : Root} (h : Won p f s s')
    (hm : Moves p f ((part p s' f).withHolds False) s' s'') : Keeps p s s'' := by
  refine (h.2.trans hm).keeps ?_
  rw [h.2.here, Part.withHolds_withHolds]
  exact Part.withHolds_eq ⟨False.elim, h.1.holds⟩

theorem wp_claim (hf : Spawned s f) (hd : Droppable p s) :
    authority.wp p (claim f) (fun _ s' => Won p f s s') s := by
  refine authority.wp_iterate (fun _ s' => Keeps p s s') (Keeps.refl p s) ?_
  intro _ s' hs' hk
  refine authority.wp_seq hs' (wp_tryClaim (hk.spawned hf)) ?_
  rintro won s'' hs'' hwon
  cases won with
  | true => exact Won.of_keeps hk hwon
  | false =>
      have hk' : Keeps p s s'' := hk.trans hwon
      refine authority.wp_seq hs'' (neutral_outside rfl s'' hs'' (hd.keeps hk')) ?_
      intro _ s₃ _ hk₃
      exact hk'.trans hk₃

/-! ## Exit rechecks -/

/-- A kept slot is kept; otherwise it was released through the CAS. -/
theorem wp_exitRecheck {settled : SemanticTarget} {revision : Nat}
    (hf : Spawned s f) (hp : (part p s f).Owns) :
    authority.wp p (exitRecheck f settled revision) (fun kept s' =>
      if kept then Keeps p s s' else Moves p f ((part p s f).withHolds False) s s') s := by
  refine authority.wp_iterate (fun _ s' => Keeps p s s') (Keeps.refl p s) ?_
  intro revision s₁ hs₁ hk₁
  have hold : ∀ {t}, Keeps p s t → (part p t f).holds := fun hk => hk.holds hp.holds
  refine authority.wp_seq hs₁ (wp_storeInertia (hk₁.spawned hf) (by decide) (hold hk₁)) ?_
  intro _ s₂ hs₂ hk₂
  refine authority.wp_seq hs₂ (neutral_computeTarget s₂ hs₂ trivial) ?_
  intro live s₃ hs₃ hk₃
  refine authority.wp_seq hs₃ (wp_quiet hs₃ rfl) ?_
  intro observed s₄ hs₄ hk₄
  have hk : Keeps p s s₄ := hk₁.trans (hk₂.trans (hk₃.trans hk₄))
  by_cases hlive : live ≠ settled
  · rw [if_pos hlive]
    refine authority.wp_seq hs₄ (wp_held hs₄ rfl rfl (hold hk)) ?_
    intro _ s₅ hs₅ hk₅
    have hk' := hk.trans hk₅
    refine authority.wp_seq hs₅ (wp_storeInertia (hk'.spawned hf) (by decide) (hold hk')) ?_
    intro _ s₆ _ hk₆
    exact hk'.trans hk₆
  · rw [if_neg hlive]
    by_cases hobserved : observed ≠ revision
    · rw [if_pos hobserved]
      exact hk
    · rw [if_neg hobserved]
      refine authority.wp_seq hs₄ (wp_held hs₄ rfl rfl (hold hk)) ?_
      intro _ s₅ hs₅ hk₅
      have hk' := hk.trans hk₅
      refine authority.wp_seq hs₅ (wp_release (hk'.spawned hf) (hk'.at_ f ▸ hp)) ?_
      intro word s₆ hs₆ hword
      cases word with
      | releasing =>
          rw [hk'.at_ f] at hword
          exact Moves.keeps_trans hk' hword
      | active =>
          refine authority.wp_seq hs₆ (wp_quiet hs₆ rfl) ?_
          intro _ s₇ _ hk₇
          exact hk'.trans (hword.trans hk₇)
      | idle => exact hword.elim

/-! ## Forks -/

theorem Authority.handover {x : Fiber} (h : Authority x) (hp : (x.part p).Owns) (q : Party) :
    Authority ((x.unhold p).hold q) where
  idle hidle := absurd hidle (h.not_idle hp.holds)
  busy _ := ⟨q, by simp [Fiber.hold, Fiber.unhold, Fiber.track, h.holders_eq hp.holds]⟩
  settling := .inl (h.settling_nil hp.holds hp.settling)
  applying := .inl (h.applying_nil hp.holds hp.applying)

theorem part_handover {x : Fiber} (h : Authority x) (hp : p ∈ x.trace.holders) (q t : Party) :
    ((x.unhold p).hold q).part t = (x.part t).withHolds (t = q) := by
  simp [Fiber.part, Part.withHolds, Fiber.hold, Fiber.unhold, Fiber.track, Fiber.settling,
    h.holders_eq hp]

/-- The slot goes to the convergence task. -/
theorem wp_forkConvergence (hf : Spawned s f) (hp : (part p s f).Owns) :
    authority.wp p (perform (.fork (.convergence f)))
      (fun _ s' => Moves p f ((part p s f).withHolds False) s s') s := by
  refine authority.wp_perform fun s' hr hs' => ?_
  have hf' : Spawned s' f := hr.spawned hf
  have hx : ((s'.fibers f).part p).Owns := by
    rw [← part_of_spawned hf', hr.at_ f]
    exact hp
  refine ⟨⟨nofun, nofun, nofun, nofun⟩, .of_fork rfl ?_, drops_of_droppable hs' nofun⟩
  intro q c s'' r _ _ hexec hq hblank
  replace hexec := cordis_exec hexec
  simp only [exec, Option.some.injEq, Prod.mk.injEq] at hexec
  rcases hexec with ⟨rfl, -⟩
  have hauth := hs'.slot f hf'.2
  have hpart := part_handover hauth hx.holds q
  refine ⟨inv_put hs' (hauth.handover hx q) (fun h0 => absurd h0 (Nat.ne_of_gt hf'.1))
    fun _ => hf', fun t htp htq => ?_, ?_, ?_⟩
  · refine keeps_put ((hpart t).trans (Part.withHolds_eq ⟨fun h => absurd h htq, fun h => ?_⟩))
    have ht : t ∈ (s'.fibers f).trace.holders := h
    rw [hauth.holders_eq hx.holds, List.mem_singleton] at ht
    exact absurd ht htp
  · have hmoves := Moves.of_put (p := q) hf' (((s'.fibers f).unhold p).hold q)
    refine ⟨hmoves.driving.trans hblank.1, hmoves.spawned hf', ?_⟩
    have hnone : (s'.fibers f).part q = {} := by
      rw [← part_of_spawned hf', hblank.2]
    rw [hmoves.here, hpart q, hnone]
    exact ⟨rfl, id, id⟩
  · have hmoves := Moves.of_put (p := p) hf' (((s'.fibers f).unhold p).hold q)
    rw [hpart p, ← part_of_spawned hf', hr.at_ f] at hmoves
    have hfalse : (p = q) = False := eq_false (Ne.symm hq)
    rw [hfalse] at hmoves
    exact Moves.keeps_trans hr hmoves

/-- A task that starts with nothing takes nothing from anybody. -/
theorem neutral_fork {routine : Routine}
    (hexec : ∀ s self fresh c s' r, exec self fresh c (.fork routine) s = some (s', r) →
      Unmoved s s')
    (hpre : ∀ q s, s.driving q = {} → slotPre routine q s) :
    authority.Neutral (fun _ => True) p (perform (.fork routine)) := by
  intro s _ _
  refine authority.wp_perform fun s' hr hs' => ?_
  refine ⟨⟨nofun, nofun, nofun, nofun⟩, .of_fork rfl ?_, drops_of_droppable hs' nofun⟩
  intro q c s'' r _ _ hstep _ hblank
  have hun : Unmoved s' s'' := hexec s' p q c s'' r (cordis_exec hstep)
  exact ⟨hun.inv hs', fun t _ _ => hun.keeps t,
    hpre q s'' ((hun.keeps q).driving.trans hblank.1), hr.trans (hun.keeps p)⟩

theorem neutral_forkCleanup {id : CleanupId} {cleanup : Cleanup} :
    authority.Neutral (fun _ => True) p (perform (.fork (.cleanup f id cleanup))) := by
  refine neutral_fork (fun s self fresh c s' r h => ?_) fun _ _ h => h
  simp only [exec, Option.some.injEq, Prod.mk.injEq] at h
  rcases h with ⟨rfl, -⟩
  exact Unmoved.put s f (.of_eq rfl)

theorem neutral_forkTask : authority.Neutral (fun _ => True) p (perform (.fork (.task f))) := by
  refine neutral_fork (fun s self fresh c s' r h => ?_) fun _ _ h => h
  simp only [exec, Option.some.injEq, Prod.mk.injEq] at h
  rcases h with ⟨rfl, -⟩
  exact Unmoved.put s f (.of_eq rfl)

/-! ## Kicks -/

theorem wp_kickClaimed {s₀ : Root} (hf : Spawned s f) (hw : Won p f s₀ s) (hs : SlotInv s) :
    authority.wp p (kickClaimed f) (fun _ s' => Keeps p s₀ s') s := by
  refine authority.wp_seq hs (wp_quiet hs rfl) ?_
  intro revision s₁ hs₁ hk₁
  refine authority.wp_seq hs₁ (wp_quiet hs₁ rfl) ?_
  intro target s₂ hs₂ hk₂
  have hk : Keeps p s s₂ := hk₁.trans hk₂
  have hw₂ : Won p f s₀ s₂ := hw.keeps hk
  have hf₂ := hk.spawned hf
  cases target with
  | some settled =>
      refine authority.wp_seq hs₂ (wp_exitRecheck hf₂ hw₂.owns) ?_
      intro kept s₃ hs₃ hkept
      cases kept with
      | false => exact hw₂.restore hkept
      | true =>
          have hw₃ : Won p f s₀ s₃ := hw₂.keeps hkept
          refine authority.wp_seq hs₃ (wp_forkConvergence (hkept.spawned hf₂) hw₃.owns) ?_
          intro _ s₄ _ hm
          exact hw₃.restore hm
  | none =>
      refine authority.wp_seq hs₂ (neutral_computeTarget s₂ hs₂ trivial) ?_
      intro live s₃ hs₃ hk₃
      have hw₃ : Won p f s₀ s₃ := hw₂.keeps hk₃
      refine authority.wp_seq hs₃ (wp_held hs₃ rfl rfl hw₃.owns.holds) ?_
      intro _ s₄ hs₄ hk₄
      have hw₄ : Won p f s₀ s₄ := hw₃.keeps hk₄
      have hf₄ := (hk₃.trans hk₄).spawned hf₂
      refine authority.wp_seq hs₄ (wp_forkConvergence hf₄ hw₄.owns) ?_
      intro _ s₅ _ hm
      exact hw₄.restore hm

theorem neutral_kickOnce {revision : Nat} :
    authority.Neutral (fun s => Spawned s f) p (kickOnce f revision) := by
  intro s hs hf
  refine authority.wp_seq hs (wp_quiet hs rfl) ?_
  intro word s₁ hs₁ hk₁
  cases word with
  | active => exact hk₁
  | releasing =>
      refine authority.wp_seq hs₁ (wp_quiet hs₁ rfl) ?_
      intro reclaimed s₂ _ hk₂
      cases reclaimed <;> exact hk₁.trans hk₂
  | idle =>
      refine authority.wp_seq hs₁ (wp_quiet hs₁ rfl) ?_
      intro current s₂ hs₂ hk₂
      have hk : Keeps p s s₂ := hk₁.trans hk₂
      cases current with
      | false => exact hk
      | true =>
          refine authority.wp_seq hs₂ (wp_tryClaim (hk.spawned hf)) ?_
          intro won s₃ hs₃ hwon
          cases won with
          | false => exact hk.trans hwon
          | true =>
              have hw : Won p f s s₃ := .of_keeps hk hwon
              refine authority.wp_seq hs₃ (wp_quiet hs₃ rfl) ?_
              intro _ s₄ hs₄ hk₄
              have hw' : Won p f s s₄ := hw.keeps hk₄
              refine authority.wp_seq hs₄ (wp_kickClaimed (hw'.spawned hf) hw' hs₄) ?_
              intro _ s₅ _ hk₅
              exact hk₅

theorem neutral_ensureDriven {revision : Nat} :
    authority.Neutral (fun s => Spawned s f) p (ensureDriven f revision) := by
  have hD : ∀ {s s'}, Spawned s f → Keeps p s s' → Spawned s' f := fun hf hk => hk.spawned hf
  have hload : authority.Neutral (fun _ => True) p (on f (.load .alive)) :=
    neutral_quiet rfl
  refine Logic.Neutral.bind hD (fun s hs _ => hload s hs trivial) fun alive => ?_
  cases alive with
  | false => exact Logic.Neutral.pure ()
  | true =>
      refine Logic.Neutral.bind hD (fun s hs _ => neutral_hasCommittedRecheck s hs trivial) ?_
      intro outstanding
      cases outstanding with
      | false => exact Logic.Neutral.pure ()
      | true => exact Logic.Neutral.iterate hD fun _ => neutral_kickOnce

theorem neutral_kick {revision : Nat} :
    authority.Neutral (fun s => Spawned s f) p (kick f revision) := by
  have hkicked : authority.Neutral (fun _ => True) p (on f (.kicked revision)) :=
    neutral_quiet rfl
  have hD : ∀ {s s'}, Spawned s f → Keeps p s s' → Spawned s' f := fun hf hk => hk.spawned hf
  exact Logic.Neutral.bind hD neutral_ensureDriven fun _ s hs _ => hkicked s hs trivial

theorem neutral_kickAll {drift : List (FiberId × Nat)} :
    authority.Neutral (fun s => ∀ row ∈ drift, Spawned s row.1) p (kickAll drift) := by
  induction drift with
  | nil => exact Logic.Neutral.pure ()
  | cons row rest ih =>
      intro s hs hrows
      refine authority.wp_seq hs (neutral_kick s hs (hrows row List.mem_cons_self)) ?_
      intro _ s₁ hs₁ hk₁
      refine authority.wp_mono hs₁ (ih s₁ hs₁ ?_) fun _ s₂ _ hk₂ => hk₁.trans hk₂
      intro row' hrow'
      exact hk₁.spawned (hrows row' (List.mem_cons_of_mem _ hrow'))

end Runtime
end CordisCore
