import CordisCore.Fiber.System
import CordisCore.Interleaving.Logic

/-!
# Slot authority — what each party has of a slot, and which operations change it
-/

namespace CordisCore
namespace Runtime

open Interleaving

/-! ## The slot of one Fiber -/

namespace Fiber

/-- The parties inside a settle body. -/
def settling (x : Fiber) : List Party :=
  (x.trace.brackets.filter fun frame => frame.2 = .settle).map Prod.fst

end Fiber

theorem Fiber.mem_settling {x : Fiber} {p : Party} :
    p ∈ x.settling ↔ (p, Bracket.settle) ∈ x.trace.brackets := by
  simp [settling]

/-- One party holds the slot exactly while the word is not IDLE. -/
structure Authority (x : Fiber) : Prop where
  idle : x.inertia = .idle → x.trace.holders = []
  busy : x.inertia ≠ .idle → ∃ p, x.trace.holders = [p]
  settling : x.settling = [] ∨ x.settling = x.trace.holders
  applying : x.trace.applying = [] ∨ x.trace.applying = x.trace.holders

namespace Authority

variable {x : Fiber} {p : Party}

theorem holders_cases (h : Authority x) :
    x.trace.holders = [] ∨ ∃ p, x.trace.holders = [p] := by
  by_cases hx : x.inertia = .idle
  · exact .inl (h.idle hx)
  · exact .inr (h.busy hx)

theorem holders_eq (h : Authority x) (hp : p ∈ x.trace.holders) : x.trace.holders = [p] := by
  rcases h.holders_cases with hx | ⟨q, hq⟩
  · rw [hx] at hp
    cases hp
  · rw [hq, List.mem_singleton] at hp
    rw [hq, hp]

theorem not_idle (h : Authority x) (hp : p ∈ x.trace.holders) : x.inertia ≠ .idle := by
  intro hx
  rw [h.idle hx] at hp
  cases hp

theorem settling_nil (h : Authority x) (hp : p ∈ x.trace.holders) (hs : p ∉ x.settling) :
    x.settling = [] := by
  rcases h.settling with hx | hx
  · exact hx
  · exact absurd (hx ▸ hp) hs

theorem applying_nil (h : Authority x) (hp : p ∈ x.trace.holders)
    (hs : p ∉ x.trace.applying) : x.trace.applying = [] := by
  rcases h.applying with hx | hx
  · exact hx
  · exact absurd (hx ▸ hp) hs

end Authority

/-- The part of one party in the slot of one Fiber. -/
structure Part where
  holds : Prop := False
  settling : Prop := False
  applying : Prop := False
  creates : Prop := False
  owned : Prop := False

/-- What `p` has of the slot of this Fiber. -/
def Fiber.part (p : Party) (x : Fiber) : Part where
  holds := p ∈ x.trace.holders
  settling := p ∈ x.settling
  applying := p ∈ x.trace.applying
  creates := x.trace.creator = some p
  owned := x.trace.creator = some p ∧ x.flags .creationOwned = true

/-- What `p` has of the slot of the Fiber `f`. -/
def part (p : Party) (s : Root) (f : FiberId) : Part :=
  if f < s.nextFiber then (s.fibers f).part p else {}

/-! ## Operations that do not move a slot -/

/-- Two records of a Fiber agree on everything that arbitrates its slot. -/
structure SameSlot (x y : Fiber) : Prop where
  idle : x.inertia = .idle ↔ y.inertia = .idle
  holders : x.trace.holders = y.trace.holders
  settling : x.settling = y.settling
  applying : x.trace.applying = y.trace.applying
  owned : x.flags .creationOwned = y.flags .creationOwned
  creator : x.trace.creator = y.trace.creator
  delivered : x.trace.delivered = y.trace.delivered

namespace SameSlot

theorem refl (x : Fiber) : SameSlot x x :=
  ⟨Iff.rfl, rfl, rfl, rfl, rfl, rfl, rfl⟩

theorem trans {x y z : Fiber} (h : SameSlot x y) (h' : SameSlot y z) : SameSlot x z :=
  ⟨h.idle.trans h'.idle, h.holders.trans h'.holders, h.settling.trans h'.settling,
    h.applying.trans h'.applying, h.owned.trans h'.owned, h.creator.trans h'.creator,
    h.delivered.trans h'.delivered⟩

/-- The fields that arbitrate the slot are the same. -/
theorem of_eq {x y : Fiber}
    (h : (x.inertia, x.trace.holders, x.settling, x.trace.applying,
        x.flags .creationOwned, x.trace.creator, x.trace.delivered) =
      (y.inertia, y.trace.holders, y.settling, y.trace.applying,
        y.flags .creationOwned, y.trace.creator, y.trace.delivered)) : SameSlot x y := by
  simp only [Prod.mk.injEq] at h
  rcases h with ⟨hi, hh, hb, ha, ho, hc, hd⟩
  exact ⟨by rw [hi], hh, hb, ha, ho, hc, hd⟩

theorem part {x y : Fiber} (h : SameSlot x y) (p : Party) : y.part p = x.part p := by
  simp only [Fiber.part, h.holders, h.settling, h.applying, h.owned, h.creator]

theorem authority {x y : Fiber} (same : SameSlot x y) (h : Authority x) : Authority y where
  idle hy := same.holders ▸ h.idle (same.idle.mpr hy)
  busy hy := same.holders ▸ h.busy fun hx => hy (same.idle.mp hx)
  settling := same.holders ▸ same.settling ▸ h.settling
  applying := same.holders ▸ same.applying ▸ h.applying

end SameSlot

/-- The operations on a Fiber that may move its slot. -/
def FiberOp.movesSlot : FiberOp → Bool
  | .tryClaim | .storeInertia _ | .release | .abandon | .takeCreationOwnership
  | .store .creationOwned _ | .swapGated .creationOwned | .startApply _ | .finishApply
  | .enterBracket .settle | .exitBracket .settle | .deliver => true
  | _ => false

theorem filter_erase_of_not {α : Type} [BEq α] [LawfulBEq α] {P : α → Bool} {a : α}
    (ha : P a = false) (l : List α) : (l.erase a).filter P = l.filter P := by
  induction l with
  | nil => rfl
  | cons b l ih =>
      by_cases hb : b = a
      · subst hb
        simp [ha]
      · rw [List.erase_cons_tail (by simpa using hb)]
        simp only [List.filter_cons, ih]

theorem FiberOp.exec_same {self : Party} {choice : Choice} {op : FiberOp} {x y : Fiber}
    {r : op.Ret} (hop : op.movesSlot = false) (h : op.exec self choice x = some (y, r)) :
    SameSlot x y := by
  by_cases hr : op.reads = true
  · rw [FiberOp.exec_reads hr h]
    exact SameSlot.refl x
  · cases op <;> simp only [FiberOp.reads, not_true_eq_false] at hr <;>
      simp only [FiberOp.movesSlot, Bool.true_eq_false] at hop <;>
      simp only [FiberOp.exec] at h
    case store flag value =>
      simp only [Option.some.injEq, Prod.mk.injEq] at h
      rcases h with ⟨rfl, -⟩
      cases flag <;> simp only [Bool.true_eq_false] at hop <;>
        exact .of_eq rfl
    case swapGated flag =>
      cases flag <;> simp only [Bool.true_eq_false] at hop <;> split at h <;>
        (try split at h) <;>
        simp only [Option.some.injEq, Prod.mk.injEq, reduceCtorEq] at h <;>
        (rcases h with ⟨rfl, -⟩; exact .of_eq rfl)
    case publish next =>
      simp only [Option.some.injEq, Prod.mk.injEq] at h
      rcases h with ⟨rfl, -⟩
      unfold Fiber.publish
      split <;> exact .of_eq rfl
    case enterBracket bracket =>
      simp only [Option.some.injEq, Prod.mk.injEq] at h
      rcases h with ⟨rfl, -⟩
      cases bracket <;> simp only [Bool.true_eq_false] at hop <;>
        exact .of_eq rfl
    case exitBracket bracket =>
      simp only [Option.some.injEq, Prod.mk.injEq] at h
      rcases h with ⟨rfl, -⟩
      refine ⟨Iff.rfl, rfl, ?_, rfl, rfl, rfl, rfl⟩
      have hb : decide (bracket = .settle) = false := by
        cases bracket <;> simp only [Bool.true_eq_false] at hop <;> rfl
      exact congrArg (List.map Prod.fst)
        (@filter_erase_of_not _ _ _ (fun frame : Party × Bracket => decide (frame.2 = .settle))
          (self, bracket) hb x.trace.brackets).symm
    case reclaim =>
      split at h
      · rename_i hw
        simp only [Option.some.injEq, Prod.mk.injEq] at h
        rcases h with ⟨rfl, -⟩
        exact ⟨by simp [hw, Fiber.setInertia, Fiber.drive, Fiber.track], rfl, rfl, rfl, rfl, rfl, rfl⟩
      · simp only [Option.some.injEq, Prod.mk.injEq] at h
        rcases h with ⟨rfl, -⟩
        exact SameSlot.refl x
    all_goals
      (try split at h) <;> simp only [Option.some.injEq, Prod.mk.injEq, reduceCtorEq] at h <;>
        (rcases h with ⟨rfl, -⟩; exact .of_eq rfl)

/-- The operations that only the creator of the Fiber performs. -/
def FiberOp.byCreator : FiberOp → Bool
  | .store .creationOwned _ | .swapGated .creationOwned | .takeCreationOwnership | .deliver => true
  | _ => false

/-- The others' parts do not depend on what this party does. -/
theorem FiberOp.exec_part {self t : Party} {choice : Choice} {op : FiberOp} {x y : Fiber}
    {r : op.Ret} (ht : t ≠ self) (hc : op.byCreator = true → x.trace.creator = some self)
    (h : op.exec self choice x = some (y, r)) : y.part t = x.part t := by
  by_cases hm : op.movesSlot = false
  · exact (FiberOp.exec_same hm h).part t
  · cases op <;> simp only [FiberOp.movesSlot, not_true_eq_false, Bool.not_eq_false] at hm <;>
      simp only [FiberOp.exec] at h
    case tryClaim =>
      split at h <;> simp only [Option.some.injEq, Prod.mk.injEq] at h <;> rcases h with ⟨rfl, -⟩
      · simp [Fiber.part, Fiber.mem_settling, Fiber.hold, Fiber.setInertia, Fiber.track, ht]
      · rfl
    case release =>
      split at h <;> simp only [Option.some.injEq, Prod.mk.injEq] at h <;> rcases h with ⟨rfl, -⟩
      · simp [Fiber.part, Fiber.mem_settling, Fiber.unhold, Fiber.setInertia, Fiber.track,
          List.mem_erase_of_ne ht]
      · rfl
    case finishApply =>
      split at h <;> simp only [Option.some.injEq, Prod.mk.injEq, reduceCtorEq] at h
      rcases h with ⟨rfl, -⟩
      simp [Fiber.part, Fiber.mem_settling, Fiber.endApply, Fiber.track, List.mem_erase_of_ne ht]
    case store flag value =>
      simp only [Option.some.injEq, Prod.mk.injEq] at h
      rcases h with ⟨rfl, -⟩
      cases flag <;> simp only [Bool.false_eq_true] at hm
      have hcreator := hc rfl
      simp [Fiber.part, Fiber.mem_settling, Fiber.setFlag, hcreator, Ne.symm ht]
    case takeCreationOwnership =>
      simp only [Option.some.injEq, Prod.mk.injEq] at h
      rcases h with ⟨rfl, -⟩
      have hcreator := hc rfl
      simp [Fiber.part, Fiber.mem_settling, Fiber.setFlag, hcreator, Ne.symm ht]
    case swapGated flag =>
      cases flag <;> simp only [Bool.false_eq_true] at hm
      have hcreator := hc rfl
      split at h <;> (try split at h) <;>
        simp only [Option.some.injEq, Prod.mk.injEq, reduceCtorEq] at h <;> rcases h with ⟨rfl, -⟩ <;>
      simp_all [Fiber.part, Fiber.mem_settling, Fiber.setFlag, Ne.symm ht]
    case exitBracket bracket =>
      simp only [Option.some.injEq, Prod.mk.injEq] at h
      rcases h with ⟨rfl, -⟩
      have hne : (t, Bracket.settle) ≠ (self, bracket) := fun he => ht (congrArg Prod.fst he)
      simp [Fiber.part, Fiber.mem_settling, Fiber.popBracket, Fiber.track, List.mem_erase_of_ne hne]
    all_goals
      simp only [Option.some.injEq, Prod.mk.injEq] at h
      rcases h with ⟨rfl, -⟩
      simp [Fiber.part, Fiber.mem_settling, Fiber.unhold, Fiber.setInertia, Fiber.beginApply,
        Fiber.pushBracket, Fiber.track, List.mem_erase_of_ne ht, ht]

/-- A step that moves no slot, no caller and no index. -/
structure Unmoved (s s' : Root) : Prop where
  nextFiber : s'.nextFiber = s.nextFiber
  slots : ∀ f, SameSlot (s.fibers f) (s'.fibers f)
  driving : s'.driving = s.driving
  reverse : ∀ row ∈ s'.reverse, row ∈ s.reverse
  groups : ∀ g, ∀ f ∈ s'.groups g, f ∈ s.groups g

namespace Unmoved

theorem refl (s : Root) : Unmoved s s :=
  ⟨rfl, fun _ => SameSlot.refl _, rfl, fun _ h => h, fun _ _ h => h⟩

theorem trans {s s' s'' : Root} (h : Unmoved s s') (h' : Unmoved s' s'') : Unmoved s s'' where
  nextFiber := h'.nextFiber.trans h.nextFiber
  slots g := (h.slots g).trans (h'.slots g)
  driving := h'.driving.trans h.driving
  reverse row hrow := h.reverse row (h'.reverse row hrow)
  groups g f hf := h.groups g f (h'.groups g f hf)

theorem put (s : Root) (f : FiberId) {x : Fiber} (h : SameSlot (s.fibers f) x) :
    Unmoved s (s.put f x) where
  nextFiber := rfl
  slots g := by
    by_cases hg : g = f
    · subst hg
      rw [Root.fibers_put]
      exact h
    · rw [Root.fibers_put_of_ne _ _ hg]
      exact SameSlot.refl _
  driving := rfl
  reverse _ h := h
  groups _ _ h := h

end Unmoved

/-- The operations that may move a slot, a caller, or the index. -/
def movesSlot : Op → Bool
  | .on _ op => op.movesSlot
  | .allocate _ | .attach _ _ | .register _ | .arm _ | .disarm | .handOff | .fork _ => true
  | _ => false

/-- What happens to the store, the counters and the cells moves no slot. -/
theorem Unmoved.of_eq {s s' : Root} (hn : s'.nextFiber = s.nextFiber)
    (hf : s'.fibers = s.fibers) (hd : s'.driving = s.driving)
    (hr : ∀ row ∈ s'.reverse, row ∈ s.reverse) (hg : s'.groups = s.groups) : Unmoved s s' :=
  ⟨hn, fun _ => hf ▸ SameSlot.refl _, hd, hr, fun _ _ h => hg ▸ h⟩

theorem owe_unmoved (s : Root) (self : Party) (edges : List DependencyEdge) :
    Unmoved s (s.owe self edges) := by
  unfold Root.owe
  split
  · split <;> exact .of_eq rfl rfl rfl (fun _ h => h) rfl
  · exact Unmoved.refl s

theorem advance_unmoved (s : Root) (self : Party) (f : FiberId) :
    Unmoved s (s.advance self f) := by
  unfold Root.advance
  split
  · split <;> exact .of_eq rfl rfl rfl (fun _ h => h) rfl
  · exact Unmoved.refl s

theorem closeStore_unmoved (s : Root) : Unmoved s s.closeStore := by
  refine ⟨rfl, fun _ => ?_, rfl, fun _ h => h, fun _ _ h => h⟩
  simp only [Root.closeStore]
  split <;> exact .of_eq rfl

theorem enroll_unmoved (s : Root) (f : FiberId) : Unmoved s (s.enroll f) := by
  unfold Root.enroll
  split
  · exact Unmoved.refl s
  · split
    · exact Unmoved.put s f (.of_eq rfl)
    · have hput : Unmoved s (s.put f (s.fibers f).enrolled) := Unmoved.put s f (.of_eq rfl)
      exact hput.trans (.of_eq rfl rfl rfl (fun _ h => h) rfl)

theorem releaseClaim_unmoved (s : Root) (f : FiberId) (group : GroupId) :
    Unmoved s (s.releaseClaim f group) := by
  refine ⟨rfl, fun _ => SameSlot.refl _, rfl, fun _ h => h, fun g h hh => ?_⟩
  simp only [Root.releaseClaim] at hh
  split at hh
  · rename_i hg
    exact hg ▸ List.mem_of_mem_erase hh
  · exact hh

theorem exec_unmoved {self fresh : Party} {choice : Choice} {op : Op} {s s' : Root}
    {r : op.Ret} (hop : movesSlot op = false)
    (h : exec self fresh choice op s = some (s', r)) : Unmoved s s' := by
  -- most operations put one fiber back with the slot it had
  have hput : ∀ g {x : Fiber}, SameSlot (s.fibers g) x → Unmoved s (s.put g x) :=
    fun g _ hx => Unmoved.put s g hx
  cases op <;> simp only [movesSlot, Bool.true_eq_false] at hop <;> simp only [exec, guarded] at h
  case on _ op =>
    simp only [Option.map_eq_some_iff, Prod.mk.injEq] at h
    rcases h with ⟨⟨y, r'⟩, hop', rfl, -⟩
    exact hput _ (FiberOp.exec_same hop hop')
  case commitRecheck f =>
    simp only [Option.some.injEq, Prod.mk.injEq] at h
    rcases h with ⟨rfl, -⟩
    refine Unmoved.trans (hput f ?_) (advance_unmoved _ self f)
    exact .of_eq rfl
  case commitChange f =>
    simp only [Option.some.injEq, Prod.mk.injEq] at h
    rcases h with ⟨rfl, -⟩
    refine Unmoved.trans (hput f ?_) (.of_eq rfl rfl rfl (fun _ h => h) rfl)
    exact .of_eq rfl
  case install f key =>
    rcases Option.ite_none_right_eq_some.mp h with ⟨-, h⟩
    simp only [Option.some.injEq, Prod.mk.injEq] at h
    rcases h with ⟨rfl, -⟩
    refine Unmoved.trans (hput f ?_) (.of_eq rfl rfl rfl (fun _ h => h) rfl)
    exact .of_eq rfl
  case claimCleanup f =>
    simp only [Option.some.injEq, Prod.mk.injEq] at h
    rcases h with ⟨rfl, -⟩
    refine Unmoved.trans (hput f ?_) (.of_eq rfl rfl rfl (fun _ h => h) rfl)
    exact .of_eq rfl
  case push f cleanup =>
    split at h <;> simp only [Option.some.injEq, Prod.mk.injEq] at h <;> rcases h with ⟨rfl, -⟩
    · refine Unmoved.trans (hput f ?_) (.of_eq rfl rfl rfl (fun _ h => h) rfl)
      exact .of_eq rfl
    · exact hput f (.of_eq rfl)
  case upgradeClaim f group =>
    split at h <;> simp only [Option.some.injEq, Prod.mk.injEq] at h <;> rcases h with ⟨rfl, -⟩
    · exact .of_eq rfl rfl rfl (fun _ h => h) rfl
    · have hforsaken : Unmoved s (s.forsakeClaim f group) :=
        .of_eq rfl rfl rfl (fun _ h => h) rfl
      exact hforsaken.trans (Unmoved.put _ f (.of_eq rfl))
  case releaseClaim f group =>
    simp only [Option.some.injEq, Prod.mk.injEq] at h
    rcases h with ⟨rfl, -⟩
    exact (releaseClaim_unmoved s f group).trans
      (Unmoved.put _ f (.of_eq rfl))
  case refuseRecursion ctx f operation =>
    split at h
    · simp only [Option.some.injEq, Prod.mk.injEq] at h
      rcases h with ⟨rfl, -⟩
      exact Unmoved.refl s
    · split at h <;> simp only [Option.some.injEq, Prod.mk.injEq] at h <;>
        rcases h with ⟨rfl, -⟩
      · exact hput f (.of_eq rfl)
      · exact Unmoved.refl s
  case unlockStore =>
    simp only [Option.some.injEq, Prod.mk.injEq] at h
    rcases h with ⟨rfl, -⟩
    exact closeStore_unmoved s
  case dependentsOf edges =>
    simp only [Option.some.injEq, Prod.mk.injEq] at h
    rcases h with ⟨rfl, -⟩
    exact owe_unmoved s self _
  case unregister f =>
    simp only [Option.some.injEq, Prod.mk.injEq] at h
    rcases h with ⟨rfl, -⟩
    refine Unmoved.trans (hput f ?_)
      (.of_eq rfl rfl rfl (fun _ h => List.mem_of_mem_filter h) rfl)
    exact .of_eq rfl
  case sendOutcome f id =>
    simp only [Option.some.injEq, Prod.mk.injEq] at h
    rcases h with ⟨rfl, -⟩
    refine Unmoved.trans (hput f ?_) (.of_eq rfl rfl rfl (fun _ h => h) rfl)
    exact .of_eq rfl
  all_goals
    -- the rest touches no fiber
    (repeat' split at h) <;>
      simp only [Option.some.injEq, Prod.mk.injEq, reduceCtorEq] at h <;>
      (rcases h with ⟨rfl, -⟩; exact .of_eq rfl rfl rfl (fun _ h => h) rfl)

end Runtime
end CordisCore
