import CordisCore.Authority.Passes

/-!
# Authority of the spawn transaction and of its guard
-/

namespace CordisCore
namespace Runtime

open Interleaving
open Interleaving.Program (iterate)

variable {p : Party} {f : FiberId} {s : Root}

/-! ## Admission of a fresh Fiber -/

theorem inv_takeFiber (hs : SlotInv s) (edges : List DependencyEdge) :
    SlotInv (s.put s.nextFiber (Fiber.created edges p)).takeFiber where
  slot g hg := by
    by_cases hgn : g = s.nextFiber
    · subst hgn
      simp only [Root.takeFiber, Root.fibers_put]
      exact ⟨fun _ => rfl, fun hb => absurd rfl hb, .inl rfl, .inl rfl⟩
    · simp only [Root.takeFiber, Root.fibers_put_of_ne _ _ hgn]
      exact hs.slot g (Nat.lt_of_le_of_ne (Nat.le_of_lt_succ hg) hgn)
  root := by
    simp only [Root.takeFiber, Root.fibers_put_of_ne _ _ (Nat.ne_of_lt hs.born)]
    exact hs.root
  born := Nat.succ_pos _
  reverse row hrow := (hs.reverse row hrow).mono (Nat.le_succ _)
  groups g h hh := (hs.groups g h hh).mono (Nat.le_succ _)
  delivered g hg := by
    by_cases hgn : g = s.nextFiber
    · subst hgn
      simp [Root.takeFiber, Fiber.created] at hg
    · simp only [Root.takeFiber, Root.fibers_put_of_ne _ _ hgn] at hg
      exact (hs.delivered g hg).mono (Nat.le_succ _)

theorem part_takeFiber (edges : List DependencyEdge) (t : Party) (g : FiberId) :
    part t (s.put s.nextFiber (Fiber.created edges p)).takeFiber g =
      if g = s.nextFiber then { creates := p = t } else part t s g := by
  by_cases hg : g = s.nextFiber
  · subst hg
    have hlt : s.nextFiber < s.nextFiber + 1 := Nat.lt_succ_self _
    show (if s.nextFiber < s.nextFiber + 1 then
      ((s.put s.nextFiber _).fibers s.nextFiber).part t else {}) = _
    rw [if_pos rfl, if_pos hlt, Root.fibers_put]
    simp [Fiber.part, Fiber.settling, Fiber.created]
  · have hiff : g < s.nextFiber + 1 ↔ g < s.nextFiber :=
      ⟨fun h => Nat.lt_of_le_of_ne (Nat.le_of_lt_succ h) hg, fun h => Nat.lt_succ_of_lt h⟩
    rw [if_neg hg]
    show (if g < s.nextFiber + 1 then ((s.put s.nextFiber _).fibers g).part t else {}) = _
    simp only [hiff, Root.fibers_put_of_ne _ _ hg]
    rfl

theorem wp_allocate {edges : List DependencyEdge} :
    authority.wp p (perform (.allocate edges))
      (fun f s' => Spawned s' f ∧ Moves p f { creates := True } s s') s := by
  refine authority.wp_perform fun s₁ hr hs₁ => ?_
  refine ⟨⟨nofun, nofun, nofun, nofun⟩, .of_step rfl ?_, drops_of_droppable hs₁ nofun⟩
  intro q c s' r _ _ hexec
  replace hexec := cordis_exec hexec
  simp only [exec, Option.some.injEq, Prod.mk.injEq] at hexec
  rcases hexec with ⟨rfl, rfl⟩
  refine ⟨inv_takeFiber hs₁ edges, fun t ht => ⟨Nat.le_succ _, rfl, ?_⟩,
    ⟨hs₁.born, Nat.lt_succ_self _⟩,
    Moves.keeps_trans hr ⟨Nat.le_succ _, rfl, ?_, fun g hg => ?_⟩⟩
  · funext g
    rw [part_takeFiber]
    split
    · rename_i hg
      subst hg
      simp [part, Ne.symm ht]
    · rfl
  · rw [part_takeFiber, if_pos rfl]
    simp
  · rw [part_takeFiber, if_neg hg]

theorem inv_join (hs : SlotInv s) (hf : Spawned s f) (group : GroupId) :
    SlotInv (s.join f group) := by
  refine ⟨hs.slot, hs.root, hs.born, hs.reverse, fun g h hh => ?_, hs.delivered⟩
  simp only [Root.join] at hh
  split at hh
  · rcases List.mem_append.mp hh with hh | hh
    · exact hs.groups _ h hh
    · rcases List.mem_singleton.mp hh with rfl
      exact hf
  · exact hs.groups g h hh

theorem attach_inv (hs : SlotInv s) (hf : Spawned s f) (key : PluginKey) :
    SlotInv (s.attach f key) := by
  have hsame : ∀ group, SameSlot (s.fibers f) ((s.fibers f).reside group) := fun _ =>
    .of_eq rfl
  have hauth := fun group => (hsame group).authority (hs.slot f hf.2)
  have hroot : f = 0 → (s.fibers f).trace.holders = [] :=
    fun h => absurd h (Nat.ne_of_gt hf.1)
  unfold Root.attach
  split
  · exact inv_put (inv_join hs hf _) (hauth _) hroot fun _ => hf
  · have hs' : SlotInv (s.newGroup key) :=
      ⟨hs.slot, hs.root, hs.born, hs.reverse, hs.groups, hs.delivered⟩
    exact inv_put (inv_join hs' hf _) (hauth _) hroot fun _ => hf

theorem attach_keeps (s : Root) (f : FiberId) (key : PluginKey) (t : Party) :
    Keeps t s (s.attach f key) := by
  unfold Root.attach
  split
  · exact ⟨Nat.le_refl _, rfl, part_put (s := s.join f _) rfl⟩
  · exact ⟨Nat.le_refl _, rfl, part_put (s := (s.newGroup key).join f _) rfl⟩

theorem wp_attach {key : PluginKey} (hf : Spawned s f) :
    authority.wp p (perform (.attach f key)) (fun _ s' => Keeps p s s') s := by
  refine authority.wp_perform fun s₁ hr hs₁ => ?_
  refine ⟨⟨nofun, nofun, nofun, nofun⟩, .of_step rfl ?_, drops_of_droppable hs₁ nofun⟩
  intro q c s' r _ _ hexec
  replace hexec := cordis_exec hexec
  simp only [exec, Option.some.injEq, Prod.mk.injEq] at hexec
  rcases hexec with ⟨rfl, -⟩
  exact ⟨attach_inv hs₁ (hr.spawned hf) key, fun t _ => attach_keeps s₁ f key t,
    hr.trans (attach_keeps s₁ f key p)⟩

theorem wp_register (hf : Spawned s f) :
    authority.wp p (perform (.register f)) (fun _ s' => Keeps p s s') s := by
  refine authority.wp_perform fun s₁ hr hs₁ => ?_
  refine ⟨⟨nofun, nofun, nofun, nofun⟩, .of_step rfl ?_, drops_of_droppable hs₁ nofun⟩
  intro q c s' r _ _ hexec
  replace hexec := cordis_exec hexec
  simp only [exec] at hexec
  split at hexec <;> simp only [Option.some.injEq, Prod.mk.injEq] at hexec <;>
    rcases hexec with ⟨rfl, -⟩
  · have hun : Unmoved s₁ (s₁.enroll f) := enroll_unmoved s₁ f
    have hs₂ : SlotInv (s₁.enroll f) := hun.inv hs₁
    have hk : ∀ t, Keeps t s₁ ((s₁.enroll f).register f) := fun t =>
      (hun.keeps t).trans ⟨Nat.le_refl _, rfl, rfl⟩
    refine ⟨⟨hs₂.slot, hs₂.root, hs₂.born, fun row hrow => ?_, hs₂.groups, hs₂.delivered⟩,
      fun t _ => hk t, hr.trans (hk p)⟩
    rcases List.mem_append.mp hrow with hrow | hrow
    · exact hs₂.reverse row hrow
    · rcases List.mem_map.mp hrow with ⟨edge, -, rfl⟩
      exact hun.spawned (hr.spawned hf)
  · exact ⟨hs₁, fun t _ => Keeps.refl t s₁, hr⟩

/-- The creation of `f` by this party: its guard is armed, and it holds nothing else. -/
structure Creating (p : Party) (f : FiberId) (s : Root) : Prop where
  guard : (s.driving p).guard = some f
  spawned : Spawned s f
  creates : (part p s f).creates

theorem Creating.keeps {s' : Root} (h : Creating p f s) (hk : Keeps p s s') :
    Creating p f s' :=
  ⟨hk.driving ▸ h.guard, hk.spawned h.spawned, hk.at_ f ▸ h.creates⟩

theorem Creating.moves {s' : Root} {x : Part} (h : Creating p f s) (hm : Moves p f x s s')
    (hx : x.creates) : Creating p f s' :=
  ⟨hm.driving ▸ h.guard, hm.spawned h.spawned, hm.here ▸ hx⟩

theorem Creating.droppable (h : Creating p f s)
    (ho : (part p s f).owned ↔ (part p s f).holds) : Droppable p s := by
  intro _ g hguard
  rw [h.guard] at hguard
  cases hguard
  exact ⟨h.spawned, h.creates, ho⟩

theorem wp_admitFiber {key : PluginKey} {edges : List DependencyEdge} (hs : SlotInv s) :
    authority.wp p (admitFiber key edges) (fun f s' =>
      Spawned s' f ∧ s.nextFiber ≤ s'.nextFiber ∧ part p s' f = { creates := True } ∧
        s'.driving p = { s.driving p with guard := some f }) s := by
  refine authority.wp_seq hs wp_allocate ?_
  rintro f s₁ hs₁ ⟨hf₁, hm₁⟩
  refine authority.wp_seq hs₁ (wp_attach hf₁) ?_
  intro _ s₃ hs₃ hk
  refine authority.wp_seq hs₃ wp_arm ?_
  intro _ s₄ hs₄ hdriven
  refine authority.wp_seq hs₄ (wp_quiet hs₄ rfl) ?_
  intro _ s₅ hs₅ hk₅
  have hf₅ := hk₅.spawned (hdriven.spawned (hk.spawned hf₁))
  refine authority.wp_seq hs₅ (wp_register hf₅) ?_
  intro _ s₆ _ hk₆
  have hk' : Keeps p s₄ s₆ := hk₅.trans hk₆
  refine ⟨hk₆.spawned hf₅, ?_, ?_, ?_⟩
  · calc
      s.nextFiber ≤ s₁.nextFiber := hm₁.nextFiber
      _ ≤ s₃.nextFiber := hk.nextFiber
      _ ≤ s₄.nextFiber := hdriven.nextFiber
      _ ≤ s₆.nextFiber := hk'.nextFiber
  · calc
      part p s₆ f = part p s₄ f := hk'.at_ f
      _ = part p s₃ f := congrFun hdriven.part f
      _ = part p s₁ f := hk.at_ f
      _ = { creates := True } := hm₁.here
  · rw [hk'.driving, hdriven.driving, hk.driving, hm₁.driving]

/-! ## The initial pass -/

theorem wp_claimInitial (hs : SlotInv s) (hf : Spawned s f) (hd : Droppable p s) :
    authority.wp p (claimInitial f) (fun _ s' => Won p f s s') s := by
  refine authority.wp_seq hs (wp_tryClaim hf) ?_
  intro won s₁ hs₁ hwon
  cases won with
  | true => exact hwon
  | false =>
      refine authority.wp_mono hs₁ (wp_claim (Keeps.spawned hwon hf) (hd.keeps hwon)) ?_
      intro _ s₂ _ hw
      exact .of_keeps hwon hw

/-- An exit that released the slot leaves the ownership mark behind. -/
theorem wp_initialRound (hs : SlotInv s) (hc : Creating p f s) (ho : (part p s f).Owns)
    (hown : (part p s f).owned) :
    authority.wp p (initialRound f) (fun o s' =>
      match o with
      | .inl _ => Keeps p s s'
      | .inr outcome =>
          if outcome.released then Moves p f ((part p s f).withHolds False) s s'
          else Keeps p s s') s := by
  have hdrop : ∀ {t}, Keeps p s t → Droppable p t := fun hk =>
    ((hc.droppable ⟨fun _ => ho.holds, fun _ => hown⟩)).keeps hk
  refine authority.wp_seq hs (wp_quiet hs rfl) ?_
  intro revision s₁ hs₁ hk₁
  refine authority.wp_seq hs₁ (neutral_computeTarget s₁ hs₁ trivial) ?_
  intro target s₂ hs₂ hk₂
  have hk : Keeps p s s₂ := hk₁.trans hk₂
  refine authority.wp_seq hs₂ (wp_settleOnce hs₂ (hk.spawned hc.spawned) (hdrop hk)
    (hk.at_ f ▸ ho)) ?_
  intro _ s₃ hs₃ hk₃
  have hk : Keeps p s s₃ := hk.trans hk₃
  -- both exits of a settled round: with a recheck outstanding the slot is kept
  have hexit : ∀ {t} (outcome : InitialOutcome), outcome.released = true → SlotInv t →
      Keeps p s t → authority.wp p (do
        if ← exitRecheck f target revision then again () else leave outcome)
        (fun o s' =>
          match o with
          | .inl (_ : Unit) => Keeps p s s'
          | .inr (outcome : InitialOutcome) =>
              if outcome.released then Moves p f ((part p s f).withHolds False) s s'
              else Keeps p s s') t := by
    intro t outcome hreleased ht hkt
    refine authority.wp_seq ht (wp_exitRecheck (hkt.spawned hc.spawned) (hkt.at_ f ▸ ho)) ?_
    intro kept t' _ hkept
    cases kept with
    | true => exact hkt.trans hkept
    | false =>
        have hm : Moves p f ((part p t f).withHolds False) t t' := hkept
        rw [hkt.at_ f] at hm
        show if outcome.released = true then _ else _
        rw [if_pos hreleased]
        exact Moves.keeps_trans hkt hm
  split
  · refine authority.wp_seq hs₃ (wp_held hs₃ rfl rfl (hk.holds ho.holds)) ?_
    intro _ s₄ hs₄ hk₄
    exact hexit .pending rfl hs₄ (hk.trans hk₄)
  · refine authority.wp_seq hs₃ (wp_held hs₃ rfl rfl (hk.holds ho.holds)) ?_
    intro _ s₄ hs₄ hk₄
    refine authority.wp_seq hs₄ (wp_quiet hs₄ rfl) ?_
    intro state s₅ hs₅ hk₅
    have hk₅ : Keeps p s s₅ := hk.trans (hk₄.trans hk₅)
    split
    -- a failed apply is torn down under the slot, which stays with the creator
    · have hheld : ∀ {t}, Keeps p s t → Holding p f t := fun hk => ⟨hdrop hk, hk.holds ho.holds⟩
      refine authority.wp_seq hs₅ (neutral_stays rfl s₅ hs₅ (hheld hk₅)) ?_
      intro parked s₆ hs₆ hk₆
      have hk₆ : Keeps p s s₆ := hk₅.trans hk₆
      refine authority.wp_seq hs₆ (neutral_creationTeardown s₆ hs₆ (hheld hk₆)) ?_
      intro _ s₇ _ hk₇
      exact hk₆.trans hk₇
    · exact hexit .active rfl hs₅ hk₅

theorem wp_initialLoop (hc : Creating p f s) (ho : (part p s f).Owns)
    (hown : (part p s f).owned) :
    authority.wp p (iterate () fun _ => initialRound f) (fun outcome s' =>
      Moves p f ((part p s f).withHolds (outcome.released = false)) s s') s := by
  refine authority.wp_iterate (fun _ s' => Keeps p s s') (Keeps.refl p s) ?_
  intro _ s₁ hs₁ hk₁
  have hx := hk₁.at_ f
  refine authority.wp_mono hs₁
    (wp_initialRound hs₁ (hc.keeps hk₁) (hx ▸ ho) (hx ▸ hown)) ?_
  intro o s₂ _ hround
  cases o with
  | inl _ => exact hk₁.trans hround
  | inr outcome =>
      cases hreleased : outcome.released with
      | true =>
          have hm : Moves p f ((part p s₁ f).withHolds False) s₁ s₂ := by
            simpa only [hreleased, if_true] using hround
          rw [hx] at hm
          simpa only [hreleased, Bool.true_eq_false] using Moves.keeps_trans hk₁ hm
      | false =>
          have hk₂ : Keeps p s₁ s₂ := by
            simpa only [hreleased, Bool.false_eq_true, if_false] using hround
          exact Moves.of_keeps (hk₁.trans hk₂)
            (Part.withHolds_eq ⟨fun _ => ho.holds, fun _ => hreleased⟩).symm

theorem wp_releaseInitial {released : Bool} (hs : SlotInv s) (hf : Spawned s f)
    (hp : released = false → (part p s f).holds) (hset : ¬ (part p s f).settling)
    (happ : ¬ (part p s f).applying) :
    authority.wp p (releaseInitial f released)
      (fun _ s' => Moves p f ((part p s f).withHolds (released = true ∧ (part p s f).holds)) s s')
      s := by
  refine authority.wp_seq hs (wp_probeIdle hf hp) ?_
  rintro idle s₁ hs₁ ⟨hidle, hk₁⟩
  cases idle with
  | true =>
      exact Moves.of_keeps hk₁
        (Part.withHolds_eq ⟨fun h => h.2, fun h => ⟨hidle.symm, h⟩⟩).symm
  | false =>
      have ho : (part p s₁ f).Owns := hk₁.at_ f ▸ ⟨hp hidle.symm, hset, happ⟩
      refine authority.wp_mono hs₁ (wp_abandon (hk₁.spawned hf) ho) ?_
      intro _ s₂ _ hm
      rw [hk₁.at_ f] at hm
      simpa only [← hidle, Bool.false_eq_true, false_and] using Moves.keeps_trans hk₁ hm

/-- Whatever way the pass ends, the slot is released by whoever holds it. -/
theorem wp_initialSpawnPass (hs : SlotInv s) (hc : Creating p f s)
    (hx : part p s f = { creates := True }) :
    authority.wp p (initialSpawnPass f) (fun _ s' => Keeps p s s') s := by
  have hdrop : Droppable p s := hc.droppable (by rw [hx])
  refine authority.wp_seq hs (wp_claimInitial hs hc.spawned hdrop) ?_
  intro _ s₁ hs₁ hw
  refine authority.wp_seq hs₁ (wp_quiet hs₁ rfl) ?_
  intro alive s₂ hs₂ hk₂
  have hw₂ : Won p f s s₂ := hw.keeps hk₂
  have hf₂ := hw₂.spawned hc.spawned
  cases alive with
  | false =>
      refine authority.wp_seq hs₂ (neutral_releaseResidency s₂ hs₂ trivial) ?_
      intro _ s₃ hs₃ hk₃
      have hw₃ : Won p f s s₃ := hw₂.keeps hk₃
      refine authority.wp_seq hs₃ (wp_abandon (hk₃.spawned hf₂) hw₃.owns) ?_
      intro _ s₄ _ hm
      exact hw₃.restore hm
  | true =>
      have hx₂ : part p s₂ f = { creates := True, holds := True } := by
        rw [hw₂.2.here, hx]
        rfl
      refine authority.wp_seq hs₂ (wp_storeOwned hf₂ (hx₂ ▸ trivial)) ?_
      intro _ s₃ hs₃ hm₃
      have hm : Moves p f { creates := True, holds := True, owned := True } s s₃ := by
        have hm' := hw₂.2.trans hm₃
        rw [hx₂] at hm'
        simpa [Part.withOwned] using hm'
      have hc₃ : Creating p f s₃ := hc.moves hm trivial
      have ho₃ : (part p s₃ f).Owns := hm.here ▸ ⟨trivial, id, id⟩
      refine authority.wp_seq hs₃ (wp_initialLoop hc₃ ho₃ (hm.here ▸ trivial)) ?_
      intro outcome s₄ hs₄ hm₄
      have hc₄ : Creating p f s₄ := hc₃.moves hm₄ (hm.here ▸ trivial)
      refine authority.wp_seq hs₄ (wp_storeOwned hc₄.spawned hc₄.creates) ?_
      intro _ s₅ hs₅ hm₅
      have hm' : Moves p f { creates := True, holds := outcome.released = false } s s₅ := by
        have hm' := hm.trans (hm₄.trans hm₅)
        rw [hm₄.here, hm.here] at hm'
        simpa [Part.withOwned, Part.withHolds] using hm'
      refine authority.wp_seq hs₅
        (wp_releaseInitial hs₅ (hm'.spawned hc.spawned) (hm'.here ▸ id) ?_ ?_) ?_
      · rw [hm'.here]
        exact id
      · rw [hm'.here]
        exact id
      intro _ s₆ _ hm₆
      refine (hm'.trans hm₆).keeps ?_
      rw [hm'.here, hx]
      cases outcome.released <;> simp [Part.withHolds]

/-! ## Handoff -/

theorem wp_handoff (hs : SlotInv s) (hc : Creating p f s)
    (hx : part p s f = { creates := True }) :
    authority.wp p (handoff f) (fun result s' =>
      Driven p { s.driving p with guard := none } s s' ∧
        ∀ g, result = .ok g → Spawned s' g) s := by
  have hdrop : Droppable p s := hc.droppable (by rw [hx])
  refine authority.wp_seq hs (wp_claim hc.spawned hdrop) ?_
  intro _ s₁ hs₁ hw
  refine authority.wp_seq hs₁ (wp_quiet hs₁ rfl) ?_
  intro alive s₂ hs₂ hk₂
  have hw₂ : Won p f s s₂ := hw.keeps hk₂
  refine authority.wp_seq hs₂ (wp_abandon (hw₂.spawned hc.spawned) hw₂.owns) ?_
  intro _ s₃ hs₃ hm
  have hk₃ : Keeps p s s₃ := hw₂.restore hm
  cases alive with
  | true =>
      refine authority.wp_seq hs₃ (wp_quiet hs₃ rfl) ?_
      intro _ s₄ hs₄ hk₄
      have hk : Keeps p s s₄ := hk₃.trans hk₄
      refine authority.wp_seq hs₄ wp_disarm ?_
      intro _ s₅ hs₅ hdriven
      rw [hk.driving] at hdriven
      have hx₅ : part p s₅ f = { creates := True } :=
        (congrFun hdriven.part f).trans ((hk.at_ f).trans hx)
      have hf₅ := hdriven.spawned (hk.spawned hc.spawned)
      refine authority.wp_seq hs₅ (wp_deliver hf₅ (hx₅ ▸ trivial)) ?_
      intro _ s₆ _ hk₆
      exact ⟨hdriven.after hk hk₆, fun g hg => by cases hg; exact hk₆.spawned hf₅⟩
  | false =>
      refine authority.wp_seq hs₃ (neutral_releaseResidency s₃ hs₃ trivial) ?_
      intro _ s₄ hs₄ hk₄
      refine authority.wp_seq hs₄ wp_disarm ?_
      intro _ s₅ _ hdriven
      have hk : Keeps p s s₄ := hk₃.trans hk₄
      rw [hk.driving] at hdriven
      exact ⟨hdriven.after hk (Keeps.refl p s₅), nofun⟩

theorem neutral_assertCanRegister :
    authority.Neutral (fun _ => True) p (assertCanRegister f) := by
  have hload : ∀ flag, authority.Neutral (fun _ => True) p (on f (.load flag)) :=
    fun _ => neutral_quiet rfl
  have hstate : authority.Neutral (fun _ => True) p (on f .state) :=
    neutral_quiet rfl
  refine neutral_seq (hload _) fun alive => ?_
  cases alive with
  | false => exact Logic.Neutral.pure _
  | true =>
      refine neutral_seq (hload _) fun disposing => ?_
      cases disposing with
      | true => exact Logic.Neutral.pure _
      | false =>
          refine neutral_seq (hload _) fun replacing => ?_
          cases replacing with
          | true => exact Logic.Neutral.pure _
          | false => exact neutral_seq hstate fun _ => Logic.Neutral.pure _

theorem neutral_admitOrigin {origin : FiberId} {requireOriginOpen : Bool} :
    authority.Neutral (fun _ => True) p (admitOrigin origin requireOriginOpen) := by
  unfold admitOrigin
  split
  · exact neutral_assertCanRegister
  · exact Logic.Neutral.pure _

/-- The transaction ends without its guard; only a delivered Fiber is answered. -/
theorem wp_spawnPreparedInner {origin : FiberId} {key : PluginKey} {edges : List DependencyEdge}
    {requireOriginOpen : Bool} (hs : SlotInv s) (hguard : (s.driving p).guard = none) :
    authority.wp p (spawnPreparedInner origin key edges requireOriginOpen)
      (fun result s' => s.nextFiber ≤ s'.nextFiber ∧ s'.driving p = s.driving p ∧
        ∀ g, result = .ok g → Spawned s' g) s := by
  refine authority.wp_seq hs (neutral_admitOrigin s hs trivial) ?_
  intro admitted s₁ hs₁ hk₁
  cases admitted with
  | false => exact ⟨hk₁.nextFiber, hk₁.driving, nofun⟩
  | true =>
      refine authority.wp_seq hs₁ (wp_admitFiber hs₁) ?_
      rintro f s₂ hs₂ ⟨hf, hn, hx, hdriving⟩
      have hc : Creating p f s₂ := ⟨by rw [hdriving], hf, hx ▸ trivial⟩
      -- once disarmed, the party is driven as it was before
      have hrest : { s₂.driving p with guard := none } = s.driving p := by
        rw [hdriving, hk₁.driving, ← hguard]
      refine authority.wp_seq hs₂ (wp_initialSpawnPass hs₂ hc hx) ?_
      intro outcome s₃ hs₃ hk₃
      have hn₃ : s.nextFiber ≤ s₃.nextFiber :=
        Nat.le_trans hk₁.nextFiber (Nat.le_trans hn hk₃.nextFiber)
      rw [← hk₃.driving] at hrest
      have hend : ∀ refusal, authority.wp p (do
          perform .disarm
          pure (.error refusal) : Prog (Except SpawnError FiberId))
          (fun result s' => s.nextFiber ≤ s'.nextFiber ∧ s'.driving p = s.driving p ∧
            ∀ g, result = .ok g → Spawned s' g) s₃ := by
        intro refusal
        refine authority.wp_seq hs₃ wp_disarm ?_
        intro _ s₄ _ hdriven
        exact ⟨Nat.le_trans hn₃ hdriven.nextFiber, hdriven.driving.trans hrest, nofun⟩
      have hhandoff : authority.wp p (handoff f)
          (fun result s' => s.nextFiber ≤ s'.nextFiber ∧ s'.driving p = s.driving p ∧
            ∀ g, result = .ok g → Spawned s' g) s₃ := by
        refine authority.wp_mono hs₃
          (wp_handoff hs₃ (hc.keeps hk₃) ((hk₃.at_ f).trans hx)) ?_
        rintro result s₄ _ ⟨hdriven, hok⟩
        exact ⟨Nat.le_trans hn₃ hdriven.nextFiber, hdriven.driving.trans hrest, hok⟩
      cases outcome with
      | active | pending => exact hhandoff
      | failed failure => exact hend _
      | interrupted => exact hend _

/-! ## The creation guard -/

theorem wp_creationInterruptedTeardown (hs : SlotInv s) (hf : Spawned s f) (hp : Free p s)
    (hin : (part p s f).Inheritable) (hset : ¬ (part p s f).settling)
    (happ : ¬ (part p s f).applying) :
    authority.wp p (creationInterruptedTeardown f) (fun _ _ => True) s := by
  refine authority.wp_seq hs (wp_takeCreationOwnership hf hin.creates) ?_
  rintro taken s₁ hs₁ ⟨htaken, hm₁⟩
  have hf₁ := hm₁.spawned hf
  have hp₁ : Free p s₁ := hm₁.free hp
  have hswap : authority.Neutral (fun _ => True) p (on f (.swapGated .disposing)) :=
    neutral_quiet rfl
  cases taken with
  | true =>
      -- inherited from the pass that died holding the slot
      have ho : (part p s₁ f).Owns := by
        rw [hm₁.here]
        exact ⟨hin.owned.mp (htaken.mp rfl), hset, happ⟩
      refine authority.wp_seq hs₁ (hswap s₁ hs₁ trivial) ?_
      intro _ s₂ hs₂ hk₂
      refine authority.wp_mono hs₂ (wp_finishInterrupted hs₂ (hk₂.spawned hf₁)
        (hp₁.keeps hk₂).droppable (hk₂.at_ f ▸ ho)) ?_
      exact fun _ _ _ _ => trivial
  | false =>
      refine authority.wp_seq hs₁ (hswap s₁ hs₁ trivial) ?_
      intro disposing s₂ hs₂ hk₂
      have hp₂ : Free p s₂ := hp₁.keeps hk₂
      cases disposing with
      | true =>
          exact authority.wp_mono hs₂ (neutral_waitDisposeComplete s₂ hs₂ hp₂.droppable)
            fun _ _ _ _ => trivial
      | false =>
          refine authority.wp_seq hs₂ (wp_claim (hk₂.spawned hf₁) hp₂.droppable) ?_
          intro _ s₃ hs₃ hw
          refine authority.wp_seq hs₃ (wp_quiet hs₃ rfl) ?_
          intro alive s₄ hs₄ hk₄
          have hw₄ : Won p f s₂ s₄ := hw.keeps hk₄
          have hf₄ := hw₄.spawned (hk₂.spawned hf₁)
          cases alive with
          | true =>
              exact authority.wp_mono hs₄ (wp_finishInterrupted hs₄ hf₄
                (hw₄.2.free hp₂).droppable hw₄.owns) fun _ _ _ _ => trivial
          | false =>
              exact authority.wp_mono hs₄ (wp_abandon hf₄ hw₄.owns) fun _ _ _ _ => trivial

end Runtime
end CordisCore
