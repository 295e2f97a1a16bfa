import CordisCore.Authority.Logic

/-!
# Authority rules — one rule for each operation that moves a slot
-/

namespace CordisCore
namespace Runtime

open Interleaving

variable {p : Party} {f : FiberId} {s : Root}

/-! ## Operations that move no slot -/

theorem forks_of_unmoved {op : Op} (hop : movesSlot op = false) : forks op = none := by
  cases op <;> simp only [movesSlot, Bool.true_eq_false] at hop <;> rfl

theorem Entitled.of_unmoved {op : Op} (hop : movesSlot op = false) (hc : byCreator op = none)
    (hdrop : op.awaits = true → Droppable p s)
    (hslot : ∀ f, underSlot op = some f → (part p s f).holds) : Entitled p op s := by
  have hclaims : claims op = none := by
    cases op <;> try rfl
    case on g op =>
      cases op <;> simp only [movesSlot, FiberOp.movesSlot, Bool.true_eq_false] at hop <;> rfl
  refine ⟨hslot, fun f hf => ?_, fun f hf => ?_, hdrop⟩
  · rw [hc] at hf
    cases hf
  · rw [hclaims] at hf
    cases hf

/-- An operation that moves no slot, together with what it tells. -/
theorem wp_look {op : Op} {Q : op.Ret → Root → Prop} (hop : movesSlot op = false)
    (hc : byCreator op = none) (hdrop : op.awaits = true → Droppable p s)
    (hslot : ∀ f, underSlot op = some f → (part p s f).holds)
    (h : ∀ c q s' s'' r, Keeps p s s' → SlotInv s' →
      exec p q c op s' = some (s'', r) → Keeps p s s'' → Q r s'') :
    authority.wp p (perform op) Q s := by
  refine authority.wp_perform fun s' hr hs' => ?_
  refine ⟨(Entitled.of_unmoved hop hc hdrop hslot).keeps hr, .of_step (forks_of_unmoved hop) ?_,
    drops_of_droppable hs' fun ha => (hdrop ha).keeps hr⟩
  intro q c s'' r _ _ hexec
  replace hexec := cordis_exec hexec
  have hstep : Unmoved s' s'' := exec_unmoved hop hexec
  exact ⟨hstep.inv hs', fun t _ => hstep.keeps t,
    h c q s' s'' r hr hs' hexec (hr.trans (hstep.keeps p))⟩

/-- An operation that moves no slot is neutral for whoever may perform it. -/
theorem neutral_op {op : Op} {D : Root → Prop} (hop : movesSlot op = false)
    (hc : byCreator op = none) (hdrop : ∀ s, D s → op.awaits = true → Droppable p s)
    (hslot : ∀ s, D s → ∀ f, underSlot op = some f → (part p s f).holds) :
    authority.Neutral D p (perform op) := by
  intro s _ hd
  exact wp_look hop hc (hdrop s hd) (hslot s hd) fun _ _ _ _ _ _ _ _ hk => hk

/-! ## Operations on one slot -/

theorem wp_on {op : FiberOp} {Q : op.Ret → Root → Prop} (hf : Spawned s f)
    (hslot : op.underSlot = true → (part p s f).holds)
    (hcreates : op.byCreator = true → (part p s f).creates)
    (hdrop : (Op.on f op).awaits = true → Droppable p s)
    (h : ∀ c x y r, Authority x → x.part p = part p s f →
      (op = .probeIdle true → x.inertia = .idle) → op.exec p c x = some (y, r) →
      Authority y ∧ ∀ s', Moves p f (y.part p) s s' → Q r s') :
    authority.wp p (on f op) Q s := by
  refine authority.wp_perform fun s' hr hs' => ?_
  have hf' : Spawned s' f := hr.spawned hf
  have hx : (s'.fibers f).part p = part p s f := by
    rw [← part_of_spawned hf', hr.part]
  have hcreates' : op.byCreator = true → (s'.fibers f).trace.creator = some p := by
    intro hop
    have hpart := hcreates hop
    rw [← hx] at hpart
    exact hpart
  refine ⟨⟨fun g hg => ?_, fun g hg => ?_, fun g hg => ?_,
      fun ha => (hdrop ha).keeps hr⟩, .of_step rfl ?_,
    drops_of_droppable hs' fun ha => (hdrop ha).keeps hr⟩
  · simp only [underSlot, Option.ite_none_right_eq_some, Option.some.injEq] at hg
    rcases hg with ⟨hop, rfl⟩
    rw [hr.part]
    exact hslot hop
  · simp only [byCreator, Option.ite_none_right_eq_some, Option.some.injEq] at hg
    rcases hg with ⟨hop, rfl⟩
    rw [hr.part]
    exact hcreates hop
  · have hgf : g = f := by
      cases op <;> simp only [claims, reduceCtorEq, Option.some.injEq] at hg
      exact hg.symm
    exact hgf ▸ hf'
  · intro q c s'' r hok _ hexec
    replace hexec := cordis_exec hexec
    simp only [exec, Option.map_eq_some_iff, Prod.mk.injEq] at hexec
    rcases hexec with ⟨⟨y, r'⟩, hexec, rfl, rfl⟩
    have hstep := h c (s'.fibers f) y r' (hs'.slot f hf'.2) hx
      (fun hop => hok f (hop ▸ rfl)) hexec
    exact ⟨inv_put hs' hstep.1 (fun h0 => absurd h0 (Nat.ne_of_gt hf'.1)) fun _ => hf',
      fun t ht => keeps_put (FiberOp.exec_part ht hcreates' hexec),
      hstep.2 _ (Moves.keeps_trans hr (Moves.of_put hf' y))⟩

/-! ## Claim and release -/

theorem Authority.claim {x : Fiber} (h : Authority x) (hx : x.inertia = .idle) (p : Party) :
    Authority ((x.setInertia .active).hold p) where
  idle hidle := by cases hidle
  busy _ := ⟨p, by simp [Fiber.hold, Fiber.track, Fiber.setInertia, h.idle hx]⟩
  settling := .inl (by
    have hnil : x.settling = [] := by
      rcases h.settling with hs | hs
      · exact hs
      · exact hs.trans (h.idle hx)
    exact hnil)
  applying := .inl (by
    have hnil : x.trace.applying = [] := by
      rcases h.applying with hs | hs
      · exact hs
      · exact hs.trans (h.idle hx)
    exact hnil)

theorem Authority.clear {x : Fiber} (h : Authority x) (hx : x.inertia = .idle) (p : Party) :
    (x.part p).Clear where
  holds hp := h.not_idle hp hx
  settling hp := by
    rcases h.settling with hs | hs
    · exact absurd (hs ▸ hp : p ∈ ([] : List Party)) List.not_mem_nil
    · exact h.not_idle (hs ▸ hp : p ∈ x.trace.holders) hx
  applying hp := by
    rcases h.applying with hs | hs
    · exact absurd (hs ▸ hp : p ∈ ([] : List Party)) List.not_mem_nil
    · exact h.not_idle (hs ▸ hp : p ∈ x.trace.holders) hx

theorem Authority.release {x : Fiber} (h : Authority x) (hp : (x.part p).Owns) :
    Authority ((x.setInertia .idle).unhold p) where
  idle _ := by simp [Fiber.unhold, Fiber.track, Fiber.setInertia, h.holders_eq hp.holds]
  busy hbusy := absurd rfl hbusy
  settling := .inl (h.settling_nil hp.holds hp.settling)
  applying := .inl (h.applying_nil hp.holds hp.applying)

theorem part_claim (x : Fiber) (p : Party) :
    ((x.setInertia .active).hold p).part p = (x.part p).withHolds True := by
  simp [Fiber.part, Part.withHolds, Fiber.hold, Fiber.track, Fiber.setInertia, Fiber.settling]

theorem part_release {x : Fiber} (h : Authority x) (hp : p ∈ x.trace.holders) :
    ((x.setInertia .idle).unhold p).part p = (x.part p).withHolds False := by
  simp [Fiber.part, Part.withHolds, Fiber.unhold, Fiber.track, Fiber.setInertia, Fiber.settling,
    h.holders_eq hp]

/-- The claim that wins finds nothing of the slot in its party's hands. -/
theorem wp_tryClaim (hf : Spawned s f) :
    authority.wp p (on f .tryClaim) (fun won s' =>
      if won then (part p s f).Clear ∧ Moves p f ((part p s f).withHolds True) s s'
      else Keeps p s s') s := by
  refine wp_on hf nofun nofun nofun ?_
  intro c x y r hx hpart _ hexec
  simp only [FiberOp.exec] at hexec
  split at hexec <;> simp only [Option.some.injEq, Prod.mk.injEq] at hexec <;>
    rcases hexec with ⟨rfl, rfl⟩
  · rename_i hidle
    refine ⟨hx.claim hidle p, fun s' hm => ?_⟩
    rw [if_pos rfl, ← hpart]
    exact ⟨hx.clear hidle p, part_claim x p ▸ hm⟩
  · refine ⟨hx, fun s' hm => ?_⟩
    rw [if_neg Bool.false_ne_true]
    exact hm.keeps hpart

theorem wp_storeInertia {word : Inertia} (hf : Spawned s f) (hword : word ≠ .idle)
    (hp : (part p s f).holds) :
    authority.wp p (on f (.storeInertia word)) (fun _ s' => Keeps p s s') s := by
  refine wp_on hf (fun _ => hp) nofun nofun ?_
  intro c x y r hx hpart _ hexec
  simp only [FiberOp.exec, Option.some.injEq, Prod.mk.injEq] at hexec
  rcases hexec with ⟨rfl, -⟩
  rw [← hpart] at hp
  have hsame : SameSlot x (x.setInertia word) :=
    ⟨⟨fun hi => absurd hi (hx.not_idle hp), fun hi => absurd hi hword⟩,
      rfl, rfl, rfl, rfl, rfl, rfl⟩
  exact ⟨hsame.authority hx, fun s' hm => hm.keeps ((hsame.part p).trans hpart)⟩

theorem wp_abandon (hf : Spawned s f) (hp : (part p s f).Owns) :
    authority.wp p (on f .abandon)
      (fun _ s' => Moves p f ((part p s f).withHolds False) s s') s := by
  refine wp_on hf (fun _ => hp.holds) nofun nofun ?_
  intro c x y r hx hpart _ hexec
  simp only [FiberOp.exec, Option.some.injEq, Prod.mk.injEq] at hexec
  rcases hexec with ⟨rfl, -⟩
  rw [← hpart] at hp ⊢
  exact ⟨hx.release hp, fun s' hm => part_release hx hp.holds ▸ hm⟩

theorem wp_release (hf : Spawned s f) (hp : (part p s f).Owns) :
    authority.wp p (on f .release) (fun word s' =>
      match word with
      | .releasing => Moves p f ((part p s f).withHolds False) s s'
      | .active => Keeps p s s'
      | .idle => False) s := by
  refine wp_on hf (fun _ => hp.holds) nofun nofun ?_
  intro c x y r hx hpart _ hexec
  simp only [FiberOp.exec] at hexec
  rw [← hpart] at hp
  split at hexec <;> simp only [Option.some.injEq, Prod.mk.injEq] at hexec <;>
    rcases hexec with ⟨rfl, rfl⟩
  · rw [← hpart]
    exact ⟨hx.release hp, fun s' hm => part_release hx hp.holds ▸ hm⟩
  · rename_i hne
    refine ⟨hx, fun s' hm => ?_⟩
    cases hw : x.inertia with
    | idle => exact hx.not_idle hp.holds hw
    | active => exact hm.keeps hpart
    | releasing => exact absurd hw hne

/-- Whether the tail of the initial pass finds the slot released. -/
theorem wp_probeIdle {released : Bool} (hf : Spawned s f)
    (hp : released = false → (part p s f).holds) :
    authority.wp p (on f (.probeIdle released))
      (fun idle s' => idle = released ∧ Keeps p s s') s := by
  refine wp_on hf nofun nofun nofun ?_
  intro c x y r hx hpart htail hexec
  simp only [FiberOp.exec, Option.some.injEq, Prod.mk.injEq] at hexec
  rcases hexec with ⟨rfl, rfl⟩
  refine ⟨hx, fun s' hm => ⟨?_, hm.keeps hpart⟩⟩
  cases released with
  | true => exact decide_eq_true (htail rfl)
  | false =>
      have hheld := hp rfl
      rw [← hpart] at hheld
      exact decide_eq_false (hx.not_idle hheld)

/-! ## Settle bodies and applies -/

theorem erase_single {l hs : List Party} (hhs : hs = [] ∨ ∃ q, hs = [q])
    (h : l = [] ∨ l = hs) (p : Party) : l.erase p = [] ∨ l.erase p = hs := by
  rcases h with rfl | rfl
  · exact .inl rfl
  · rcases hhs with rfl | ⟨q, rfl⟩
    · exact .inl rfl
    · by_cases hq : q = p <;> simp [hq]

theorem not_mem_erase_single {l hs : List Party} (hhs : hs = [] ∨ ∃ q, hs = [q])
    (h : l = [] ∨ l = hs) (p : Party) : p ∉ l.erase p := by
  rcases h with rfl | rfl
  · exact List.not_mem_nil
  · rcases hhs with rfl | ⟨q, rfl⟩
    · exact List.not_mem_nil
    · by_cases hq : q = p
      · simp [hq]
      · simp [hq, Ne.symm hq]

theorem popBracket_settling (x : Fiber) (p : Party) :
    (x.popBracket p .settle).settling = x.settling.erase p := by
  simp only [Fiber.settling, Fiber.popBracket, Fiber.track]
  induction x.trace.brackets with
  | nil => rfl
  | cons frame frames ih =>
      rcases frame with ⟨q, bracket⟩
      by_cases hq : (q, bracket) = (p, Bracket.settle)
      · cases hq
        simp
      · rw [List.erase_cons_tail (by simpa using hq)]
        by_cases hb : bracket = .settle
        · subst hb
          have hqp : q ≠ p := fun h => hq (h ▸ rfl)
          simp only [List.filter_cons, decide_true, if_true, List.map_cons]
          rw [List.erase_cons_tail (by simpa using hqp), ih]
        · simp only [List.filter_cons, hb, decide_false]
          exact ih

theorem Authority.enterSettle {x : Fiber} (h : Authority x) (hp : p ∈ x.trace.holders)
    (hs : p ∉ x.settling) : Authority (x.pushBracket p .settle) where
  idle := h.idle
  busy := h.busy
  settling := .inr (by
    have hpush : (x.pushBracket p .settle).settling = p :: x.settling := by
      simp [Fiber.settling, Fiber.pushBracket, Fiber.track]
    rw [hpush, h.settling_nil hp hs]
    exact (h.holders_eq hp).symm)
  applying := h.applying

theorem Authority.exitSettle {x : Fiber} (h : Authority x) (p : Party) :
    Authority (x.popBracket p .settle) where
  idle := h.idle
  busy := h.busy
  settling := by
    rw [popBracket_settling]
    exact erase_single h.holders_cases h.settling p
  applying := h.applying

theorem Authority.beginApply {x : Fiber} (h : Authority x) (hp : p ∈ x.trace.holders)
    (ha : p ∉ x.trace.applying) : Authority (x.beginApply p) where
  idle := h.idle
  busy := h.busy
  settling := h.settling
  applying := .inr (by
    have hbegin : (x.beginApply p).trace.applying = p :: x.trace.applying := rfl
    rw [hbegin, h.applying_nil hp ha]
    exact (h.holders_eq hp).symm)

theorem Authority.endApply {x : Fiber} (h : Authority x) (p : Party) :
    Authority (x.endApply p) where
  idle := h.idle
  busy := h.busy
  settling := h.settling
  applying := erase_single h.holders_cases h.applying p

theorem wp_enterSettle (hf : Spawned s f) (hp : (part p s f).Owns) :
    authority.wp p (on f (.enterBracket .settle))
      (fun _ s' => Moves p f ((part p s f).withSettling True) s s') s := by
  refine wp_on hf (fun _ => hp.holds) nofun nofun ?_
  intro c x y r hx hpart _ hexec
  simp only [FiberOp.exec, Option.some.injEq, Prod.mk.injEq] at hexec
  rcases hexec with ⟨rfl, -⟩
  rw [← hpart] at hp ⊢
  have hy : (x.pushBracket p .settle).part p = (x.part p).withSettling True := by
    simp [Fiber.part, Part.withSettling, Fiber.settling, Fiber.pushBracket, Fiber.track]
  exact ⟨hx.enterSettle hp.holds hp.settling, fun s' hm => hy ▸ hm⟩

theorem wp_exitSettle (hf : Spawned s f) (hp : (part p s f).holds) :
    authority.wp p (on f (.exitBracket .settle))
      (fun _ s' => Moves p f ((part p s f).withSettling False) s s') s := by
  refine wp_on hf (fun _ => hp) nofun nofun ?_
  intro c x y r hx hpart _ hexec
  simp only [FiberOp.exec, Option.some.injEq, Prod.mk.injEq] at hexec
  rcases hexec with ⟨rfl, -⟩
  rw [← hpart]
  have hy : (x.popBracket p .settle).part p = (x.part p).withSettling False := by
    have hnot := not_mem_erase_single hx.holders_cases hx.settling p
    simp only [Fiber.part, popBracket_settling, hnot]
    rfl
  exact ⟨hx.exitSettle p, fun s' hm => hy ▸ hm⟩

theorem wp_startApply {target : SemanticTarget} (hf : Spawned s f) (hp : (part p s f).holds)
    (ha : ¬ (part p s f).applying) :
    authority.wp p (on f (.startApply target))
      (fun _ s' => Moves p f ((part p s f).withApplying True) s s') s := by
  refine wp_on hf (fun _ => hp) nofun nofun ?_
  intro c x y r hx hpart _ hexec
  simp only [FiberOp.exec, Option.some.injEq, Prod.mk.injEq] at hexec
  rcases hexec with ⟨rfl, -⟩
  rw [← hpart] at hp ha ⊢
  have hy : (x.beginApply p).part p = (x.part p).withApplying True := by
    simp [Fiber.part, Part.withApplying, Fiber.settling, Fiber.beginApply, Fiber.track]
  exact ⟨hx.beginApply hp ha, fun s' hm => hy ▸ hm⟩

theorem wp_finishApply (hf : Spawned s f) (hp : (part p s f).holds) (hd : Droppable p s) :
    authority.wp p (on f .finishApply)
      (fun _ s' => Moves p f ((part p s f).withApplying False) s s') s := by
  refine wp_on hf (fun _ => hp) nofun (fun _ => hd) ?_
  intro c x y r hx hpart _ hexec
  simp only [FiberOp.exec] at hexec
  split at hexec <;> simp only [Option.some.injEq, Prod.mk.injEq, reduceCtorEq] at hexec
  rcases hexec with ⟨rfl, -⟩
  rw [← hpart]
  have hy : (x.endApply p).part p = (x.part p).withApplying False := by
    have hnot := not_mem_erase_single hx.holders_cases hx.applying p
    simp only [Fiber.part, Part.withApplying, Fiber.settling, Fiber.endApply, Fiber.track, hnot]
  exact ⟨hx.endApply p, fun s' hm => hy ▸ hm⟩

/-! ## Creation ownership -/

theorem Authority.setFlag {x : Fiber} (h : Authority x) (flag : Flag) (value : Bool) :
    Authority (x.setFlag flag value) :=
  ⟨h.idle, h.busy, h.settling, h.applying⟩

theorem part_setOwned {x : Fiber} (hp : x.trace.creator = some p) (value : Bool) :
    (x.setFlag .creationOwned value).part p = (x.part p).withOwned (value = true) := by
  simp [Fiber.part, Part.withOwned, Fiber.setFlag, Fiber.settling, hp]

theorem wp_storeOwned {value : Bool} (hf : Spawned s f) (hp : (part p s f).creates) :
    authority.wp p (on f (.store .creationOwned value))
      (fun _ s' => Moves p f ((part p s f).withOwned (value = true)) s s') s := by
  refine wp_on hf nofun (fun _ => hp) nofun ?_
  intro c x y r hx hpart _ hexec
  simp only [FiberOp.exec, Option.some.injEq, Prod.mk.injEq] at hexec
  rcases hexec with ⟨rfl, -⟩
  rw [← hpart] at hp ⊢
  exact ⟨hx.setFlag _ _, fun s' hm => part_setOwned hp value ▸ hm⟩

theorem wp_takeCreationOwnership (hf : Spawned s f) (hp : (part p s f).creates) :
    authority.wp p (on f .takeCreationOwnership) (fun taken s' =>
      (taken = true ↔ (part p s f).owned) ∧
        Moves p f ((part p s f).withOwned False) s s') s := by
  refine wp_on hf nofun (fun _ => hp) nofun ?_
  intro c x y r hx hpart _ hexec
  simp only [FiberOp.exec, Option.some.injEq, Prod.mk.injEq] at hexec
  rcases hexec with ⟨rfl, rfl⟩
  rw [← hpart] at hp ⊢
  have hpart' := part_setOwned hp false
  simp only [Bool.false_eq_true] at hpart'
  exact ⟨hx.setFlag _ _, fun s' hm => ⟨⟨fun ho => ⟨hp, ho⟩, fun ho => ho.2⟩, hpart' ▸ hm⟩⟩

theorem wp_deliver (hf : Spawned s f) (hp : (part p s f).creates) :
    authority.wp p (on f .deliver) (fun _ s' => Keeps p s s') s := by
  refine wp_on hf nofun (fun _ => hp) nofun ?_
  intro c x y r hx hpart _ hexec
  simp only [FiberOp.exec, Option.some.injEq, Prod.mk.injEq] at hexec
  rcases hexec with ⟨rfl, -⟩
  exact ⟨⟨hx.idle, hx.busy, hx.settling, hx.applying⟩, fun s' hm => hm.keeps hpart⟩

end Runtime
end CordisCore
