import CordisCore.Authority.Unique
import CordisCore.Fiber.Frame
import CordisCore.Interleaving.Film

/-!
# Views — what a Fiber owes to the holder of its slot, and what its film says

Only the holder changes the view of a Fiber, and only the holder starts applies,
so what a pass observed while it holds the slot stays true until it moves on.
-/

namespace CordisCore
namespace Runtime

open Interleaving

/-! ## Films of this Runtime -/

abbrev Reel := Filmed Root Op Op.Ret

abbrev Film := List (Shot Root Op Op.Ret)

/-- A filmed state together with all programs. -/
abbrev FilmedState := Config Reel Op Op.Ret Answer

/-- The target of the apply that this shot starts on the Fiber. -/
def applied (f : FiberId) (shot : Shot Root Op Op.Ret) : Option SemanticTarget :=
  match shot.op with
  | .on g (.startApply target) => if g = f then some target else none
  | _ => none

/-- The target of the latest apply of the Fiber. -/
def lastApply (f : FiberId) (film : Film) : Option SemanticTarget :=
  film.findSome? (applied f)

/-- What the Fiber would be settled toward in this state. -/
def liveTarget (s : Root) (f : FiberId) : Option SemanticTarget :=
  (s.fibers f).effectiveInput.map fun input => { input := input, assignments := s.assignments f }

/-- A restart or update of the Fiber commits here. -/
def Replaces (f : FiberId) (shot : Shot Root Op Op.Ret) : Prop :=
  shot.op = .on f (.swapGated .generationReplacing)

/-- Since the latest apply a replacement committed, or the live target was another one. -/
def Caused (f : FiberId) : Film → Prop
  | [] => False
  | shot :: earlier =>
      applied f shot = none ∧
        (Caused f earlier ∨ Replaces f shot ∨
          ∃ target, lastApply f earlier = some target ∧ liveTarget shot.before f ≠ some target)

/-- The creator's initial pass has won the slot. -/
def Owned (f : FiberId) (film : Film) : Prop :=
  ∃ shot ∈ film, shot.op = .on f (.store .creationOwned true)

/-- Another apply would not be a repetition. -/
def Excused (f : FiberId) (s : Reel) : Prop :=
  lastApply f s.film = none ∨ Caused f s.film

/-! ## Longer films -/

theorem lastApply_append {f : FiberId} {later earlier : Film}
    (h : ∀ shot ∈ later, applied f shot = none) :
    lastApply f (later ++ earlier) = lastApply f earlier := by
  have hnone : later.findSome? (applied f) = none := List.findSome?_eq_none_iff.mpr h
  rw [lastApply, List.findSome?_append, hnone, Option.none_or]
  rfl

theorem caused_append {f : FiberId} {later earlier : Film}
    (h : ∀ shot ∈ later, applied f shot = none) (hc : Caused f earlier) :
    Caused f (later ++ earlier) := by
  induction later with
  | nil => exact hc
  | cons shot later ih =>
      have hrest : Caused f (later ++ earlier) :=
        ih fun shot hshot => h shot (List.mem_cons_of_mem _ hshot)
      exact ⟨h shot List.mem_cons_self, .inl hrest⟩

theorem Owned.append {f : FiberId} {film : Film} (h : Owned f film) (later : Film) :
    Owned f (later ++ film) := by
  rcases h with ⟨shot, hshot, hop⟩
  exact ⟨shot, List.mem_append_right later hshot, hop⟩

/-! ## Views -/

/-- What only the holder of the slot changes. -/
structure View where
  state : FiberState
  error : Option PluginFailure
  target : Option SemanticTarget
  alive : Bool
  applied : Bool

def Fiber.view (x : Fiber) : View where
  state := x.state
  error := x.error
  target := x.target
  alive := x.flags .alive
  applied := x.flags .applied

/-- The view of a Fiber in a filmed state. -/
abbrev view (s : Reel) (f : FiberId) : View :=
  (s.state.fibers f).view

/-- What an operation of the holder makes of the view. -/
def FiberOp.onView : FiberOp → View → View
  | .recordTarget target, v => { v with target := some target }
  | .markPendingIfUntouched target, v => { v with target := some (v.target.getD target) }
  | .pinInactive, v => { v with target := none }
  | .store .alive value, v => { v with alive := value }
  | .store .applied value, v => { v with applied := value }
  | .publish next, v => { v with state := next }
  | .storeError next, v => { v with error := next }
  | .takeError, v => { v with error := none }
  | _, v => v

/-- What an answer says about the view. -/
def FiberOp.tells : (op : FiberOp) → op.Ret → View → Prop
  | .readTarget, r, v => r = v.target
  | .load .alive, r, v => r = v.alive
  | .load .applied, r, v => r = v.applied
  | .state, r, v => r = v.state
  | .readError, r, v => r = v.error
  | .takeError, r, v => r = v.error
  | .release, r, _ => r ≠ .idle
  | _, _, _ => True

/-- What no lifecycle code does to a Fiber. -/
def FiberOp.tampers : FiberOp → Bool
  | .store .alive true | .swapGated .alive | .swapGated .applied
  | .store .disposeComplete false | .swapGated .disposeComplete => true
  | _ => false

/-- Disposed is published of a dead Fiber only, and nothing is published after it. -/
structure View.Publishes (v : View) (next : FiberState) : Prop where
  dead : next = .disposed → v.alive = false
  final : v.state = .disposed → next = .disposed

/-- Publications are counted; the end of a Fiber is final. -/
structure Fiber.Onward (x y : Fiber) : Prop where
  counted : x.sequence ≤ y.sequence
  same : y.sequence = x.sequence → y.state = x.state
  final : x.state = .disposed → y.state = .disposed
  dead : x.flags .alive = false → y.flags .alive = false
  complete : x.flags .disposeComplete = true → y.flags .disposeComplete = true

theorem Fiber.Onward.refl (x : Fiber) : x.Onward x :=
  ⟨Nat.le_refl _, fun _ => rfl, id, id, id⟩

theorem Fiber.Onward.trans {x y z : Fiber} (h : x.Onward y) (h' : y.Onward z) : x.Onward z := by
  refine ⟨Nat.le_trans h.counted h'.counted, fun heq => ?_, fun hx => h'.final (h.final hx),
    fun hx => h'.dead (h.dead hx), fun hx => h'.complete (h.complete hx)⟩
  have hmid : y.sequence = x.sequence :=
    Nat.le_antisymm (heq ▸ h'.counted) h.counted
  exact (h'.same (heq.trans hmid.symm)).trans (h.same hmid)

section Operation

variable {self : Party} {choice : Choice} {op : FiberOp} {x y : Fiber} {r : op.Ret}

theorem Fiber.view_publish (x : Fiber) (next : FiberState) :
    (x.publish next).view = { x.view with state := next } := by
  unfold Fiber.publish
  split
  · rename_i hsame
    rw [← hsame]
    rfl
  · rfl

/-- An operation does to the view what it is meant to, and answers from it. -/
theorem FiberOp.exec_view (hop : op.tampers = false)
    (h : op.exec self choice x = some (y, r)) :
    y.view = op.onView x.view ∧ (x.inertia ≠ .idle → op.tells r x.view) := by
  cases op <;> simp only [FiberOp.exec, guarded] at h
  case publish next =>
    simp only [Option.some.injEq, Prod.mk.injEq] at h
    rcases h with ⟨rfl, -⟩
    exact ⟨x.view_publish next, fun _ => trivial⟩
  case store flag value =>
    simp only [Option.some.injEq, Prod.mk.injEq] at h
    rcases h with ⟨rfl, -⟩
    cases flag <;> exact ⟨rfl, fun _ => trivial⟩
  case load flag =>
    simp only [Option.some.injEq, Prod.mk.injEq] at h
    rcases h with ⟨rfl, rfl⟩
    refine ⟨rfl, fun _ => ?_⟩
    cases flag <;> first | exact rfl | exact trivial
  case swapGated flag =>
    split at h
    · split at h <;> simp only [Option.some.injEq, Prod.mk.injEq] at h <;> rcases h with ⟨rfl, -⟩
      · exact ⟨rfl, fun _ => trivial⟩
      · cases flag <;> first | exact absurd hop Bool.noConfusion | exact ⟨rfl, fun _ => trivial⟩
    · cases h
  case release =>
    split at h <;> simp only [Option.some.injEq, Prod.mk.injEq] at h <;> rcases h with ⟨rfl, rfl⟩
    · exact ⟨rfl, by rintro _ ⟨⟩⟩
    · exact ⟨rfl, fun hbusy => hbusy⟩
  all_goals
    (repeat' split at h) <;>
      simp only [Option.some.injEq, Prod.mk.injEq, Option.map_eq_some_iff, reduceCtorEq] at h <;>
      first
        | (rcases h with ⟨rfl, rfl⟩; exact ⟨rfl, fun _ => trivial⟩)
        | (rcases h with ⟨rfl, rfl⟩; exact ⟨rfl, fun _ => rfl⟩)
        | (rcases h with ⟨rfl, -⟩; exact ⟨rfl, fun _ => trivial⟩)
        | (rcases h with ⟨_, -, rfl, -⟩; exact ⟨rfl, fun _ => trivial⟩)

/-- Operations that need no slot leave the view alone. -/
theorem FiberOp.onView_outside (hop : op.underSlot = false) (v : View) : op.onView v = v := by
  cases op <;> first | rfl | exact absurd hop Bool.noConfusion | skip
  case store flag value =>
    cases flag <;> first | rfl | exact absurd hop Bool.noConfusion

/-- Only a publication touches the state and its count. -/
theorem FiberOp.exec_unpublished (hop : ∀ next, op ≠ .publish next)
    (h : op.exec self choice x = some (y, r)) : y.sequence = x.sequence ∧ y.state = x.state := by
  cases op <;> simp only [FiberOp.exec, guarded] at h
  case publish next => exact absurd rfl (hop next)
  all_goals
    (repeat' split at h) <;>
      simp only [Option.some.injEq, Prod.mk.injEq, Option.map_eq_some_iff, reduceCtorEq] at h <;>
      first
        | (rcases h with ⟨rfl, -⟩; exact ⟨rfl, rfl⟩)
        | (rcases h with ⟨_, -, rfl, -⟩; exact ⟨rfl, rfl⟩)

/-- Publishing the current state once more is not counted. -/
theorem FiberOp.exec_republished (hop : ∀ next, op = .publish next → x.state = next)
    (h : op.exec self choice x = some (y, r)) : y.sequence = x.sequence ∧ y.state = x.state := by
  by_cases hpublish : ∃ next, op = .publish next
  · rcases hpublish with ⟨next, rfl⟩
    simp only [FiberOp.exec, Fiber.publish, hop next rfl, if_true, Option.some.injEq,
      Prod.mk.injEq] at h
    rw [h.1]
    exact ⟨rfl, rfl⟩
  · exact FiberOp.exec_unpublished (fun next heq => hpublish ⟨next, heq⟩) h

/-- Every publication of another state is counted. -/
theorem FiberOp.exec_sequence (h : op.exec self choice x = some (y, r)) :
    x.sequence ≤ y.sequence ∧ (y.sequence = x.sequence → y.state = x.state) := by
  by_cases hpublish : ∃ next, op = .publish next
  · rcases hpublish with ⟨next, rfl⟩
    simp only [FiberOp.exec, Option.some.injEq, Prod.mk.injEq] at h
    rcases h with ⟨rfl, -⟩
    unfold Fiber.publish
    split
    · exact ⟨Nat.le_refl _, fun _ => rfl⟩
    · exact ⟨Nat.le_succ _, fun heq => absurd heq (Nat.succ_ne_self _)⟩
  · have hsame := FiberOp.exec_unpublished (fun next heq => hpublish ⟨next, heq⟩) h
    exact ⟨Nat.le_of_eq hsame.1.symm, fun _ => hsame.2⟩

/-- Unless an operation tampers, it leads onward. -/
theorem FiberOp.exec_onward (hop : op.tampers = false)
    (hfinal : ∀ next, op = .publish next → x.state = .disposed → next = .disposed)
    (h : op.exec self choice x = some (y, r)) : x.Onward y := by
  have hview := (FiberOp.exec_view hop h).1
  have hstate : y.state = (op.onView x.view).state := congrArg View.state hview
  have halive : y.flags .alive = (op.onView x.view).alive := congrArg View.alive hview
  refine ⟨(FiberOp.exec_sequence h).1, (FiberOp.exec_sequence h).2, fun hx => ?_, fun hx => ?_, ?_⟩
  · rw [hstate]
    by_cases hpublish : ∃ next, op = .publish next
    · rcases hpublish with ⟨next, rfl⟩
      exact hfinal next rfl hx
    · cases op <;> first | exact hx | exact absurd ⟨_, rfl⟩ hpublish | skip
      case store flag value => cases flag <;> exact hx
  · rw [halive]
    cases op <;> first | exact hx | skip
    case store flag value =>
      cases flag <;> first | exact hx | skip
      cases value
      · rfl
      · cases hop
  · intro hx
    cases op <;> simp only [FiberOp.exec, guarded] at h
    case store flag value =>
      simp only [Option.some.injEq, Prod.mk.injEq] at h
      rcases h with ⟨rfl, -⟩
      cases flag <;> first | exact hx | skip
      cases value
      · cases hop
      · rfl
    case swapGated flag =>
      split at h
      · split at h <;> simp only [Option.some.injEq, Prod.mk.injEq] at h <;> rcases h with ⟨rfl, -⟩
        · exact hx
        · cases flag <;> first | exact hx | rfl
      · cases h
    case publish next =>
      simp only [Option.some.injEq, Prod.mk.injEq] at h
      rcases h with ⟨rfl, -⟩
      unfold Fiber.publish
      split <;> exact hx
    all_goals
      (repeat' split at h) <;>
        simp only [Option.some.injEq, Prod.mk.injEq, Option.map_eq_some_iff, reduceCtorEq] at h <;>
        first
          | (rcases h with ⟨rfl, -⟩; exact hx)
          | (rcases h with ⟨_, -, rfl, -⟩; exact hx)

/-- The barrier of a disposal is published by one store only. -/
theorem FiberOp.exec_complete (hop : op.tampers = false)
    (h : op.exec self choice x = some (y, r)) (hy : y.flags .disposeComplete = true) :
    x.flags .disposeComplete = true ∨ op = .store .disposeComplete true := by
  cases op <;> simp only [FiberOp.exec, guarded] at h
  case store flag value =>
    simp only [Option.some.injEq, Prod.mk.injEq] at h
    rcases h with ⟨rfl, -⟩
    cases flag <;> first | exact .inl hy | skip
    cases value
    · cases hop
    · exact .inr rfl
  case swapGated flag =>
    split at h
    · split at h <;> simp only [Option.some.injEq, Prod.mk.injEq] at h <;> rcases h with ⟨rfl, -⟩
      · exact .inl hy
      · cases flag <;> first | exact .inl hy | cases hop
    · cases h
  case publish next =>
    simp only [Option.some.injEq, Prod.mk.injEq] at h
    rcases h with ⟨rfl, -⟩
    unfold Fiber.publish at hy
    split at hy <;> exact .inl hy
  all_goals
    (repeat' split at h) <;>
      simp only [Option.some.injEq, Prod.mk.injEq, Option.map_eq_some_iff, reduceCtorEq] at h <;>
      first
        | (rcases h with ⟨rfl, -⟩; exact .inl hy)
        | (rcases h with ⟨_, -, rfl, -⟩; exact .inl hy)

/-- A pending creation stays pending unless its mark is cleared. -/
theorem FiberOp.exec_pending (h : op.exec self choice x = some (y, r))
    (hop : op ≠ .store .creationPending false) (hx : x.flags .creationPending = true) :
    y.flags .creationPending = true := by
  cases op <;> simp only [FiberOp.exec, guarded] at h
  case store flag value =>
    simp only [Option.some.injEq, Prod.mk.injEq] at h
    rcases h with ⟨rfl, -⟩
    cases flag <;> cases value <;> first | exact hx | exact absurd rfl hop | rfl
  case swapGated flag =>
    split at h
    · split at h <;> simp only [Option.some.injEq, Prod.mk.injEq] at h <;> rcases h with ⟨rfl, -⟩
      · exact hx
      · cases flag <;> first | exact hx | rfl
    · cases h
  case publish next =>
    simp only [Option.some.injEq, Prod.mk.injEq] at h
    rcases h with ⟨rfl, -⟩
    unfold Fiber.publish
    split <;> exact hx
  all_goals
    (repeat' split at h) <;>
      simp only [Option.some.injEq, Prod.mk.injEq, Option.map_eq_some_iff, reduceCtorEq] at h <;>
      first
        | (rcases h with ⟨rfl, -⟩; exact hx)
        | (rcases h with ⟨_, -, rfl, -⟩; exact hx)

end Operation

/-! ## All operations -/

section Step

theorem exec_on {self fresh : Party} {choice : Choice} {f : FiberId} {op : FiberOp} {s s' : Root}
    {r : op.Ret} (h : exec self fresh choice (.on f op) s = some (s', r)) :
    op.exec self choice (s.fibers f) = some (s'.fibers f, r) := by
  simp only [exec, Option.map_eq_some_iff, Prod.mk.injEq] at h
  rcases h with ⟨⟨y, r'⟩, hexec, rfl, rfl⟩
  rw [Root.fibers_put]
  exact hexec

variable {self fresh : Party} {choice : Choice} {op : Op} {s s' : Root} {r : op.Ret}

/-- What no lifecycle code does. -/
def tampers : Op → Bool
  | .on _ op => op.tampers
  | .panic => true
  | _ => false

/-- Only an operation under the slot changes a view. -/
theorem exec_view (h : exec self fresh choice op s = some (s', r)) (hop : tampers op = false)
    {f : FiberId} (hf : f < s.nextFiber) (hslot : underSlot op ≠ some f) :
    (s'.fibers f).view = (s.fibers f).view := by
  rcases exec_touch h f with ⟨op', r', rfl, hexec⟩ | ⟨_, -, rfl, -⟩ | ⟨-, hcore, -⟩
  · have hview := (FiberOp.exec_view hop hexec).1
    have houtside : op'.underSlot = false := by
      by_contra hunder
      exact hslot (if_pos (eq_true_of_ne_false hunder))
    exact hview.trans (FiberOp.onView_outside houtside _)
  · exact absurd hf (Nat.lt_irrefl _)
  · simp only [Fiber.view, hcore.state, hcore.error, hcore.target, hcore.flags]

/-- The edges and the creator of a Fiber are declared once. -/
theorem exec_declared (h : exec self fresh choice op s = some (s', r)) {f : FiberId}
    (hf : f < s.nextFiber) : (s'.fibers f).edges = (s.fibers f).edges ∧
      (s'.fibers f).trace.creator = (s.fibers f).trace.creator := by
  rcases exec_touch h f with ⟨op', r', -, hexec⟩ | ⟨_, -, rfl, -⟩ | ⟨-, hcore, -⟩
  · have hkept := FiberOp.exec_kept hexec
    exact ⟨hkept.edges, hkept.creator⟩
  · exact absurd hf (Nat.lt_irrefl _)
  · exact ⟨hcore.edges, hcore.creator⟩

/-- A pending creation stays pending unless its mark is cleared. -/
theorem exec_pending (h : exec self fresh choice op s = some (s', r)) {f : FiberId}
    (hf : f < s.nextFiber) (hop : op ≠ .on f (.store .creationPending false))
    (hpending : (s.fibers f).flags .creationPending = true) :
    (s'.fibers f).flags .creationPending = true := by
  rcases exec_touch h f with ⟨op', r', rfl, hexec⟩ | ⟨_, -, rfl, -⟩ | ⟨-, hcore, -⟩
  · have hstore : op' ≠ .store .creationPending false := fun heq => hop (heq ▸ rfl)
    exact FiberOp.exec_pending hexec hstore hpending
  · exact absurd hf (Nat.lt_irrefl _)
  · rw [hcore.flags]
    exact hpending

/-- Unless an operation tampers, every Fiber goes onward. -/
theorem exec_onward (hs : Fresh s) (h : exec self fresh choice op s = some (s', r))
    (hop : tampers op = false) {f : FiberId}
    (hfinal : ∀ next, op = .on f (.publish next) → (s.fibers f).state = .disposed →
      next = .disposed) : (s.fibers f).Onward (s'.fibers f) := by
  rcases exec_touch h f with ⟨op', r', rfl, hexec⟩ | ⟨_, -, rfl, hborn⟩ | ⟨-, hcore, -⟩
  · exact FiberOp.exec_onward hop (fun next hnext => hfinal next (hnext ▸ rfl)) hexec
  · rw [hs _ (Nat.le_refl _), hborn]
    exact ⟨Nat.le_refl _, fun _ => rfl, id, by rintro ⟨⟩, by rintro ⟨⟩⟩
  · exact ⟨Nat.le_of_eq hcore.sequence.symm, fun _ => hcore.state, hcore.state.trans,
      fun hx => hcore.flags ▸ hx, fun hx => hcore.flags ▸ hx⟩

theorem exec_complete (h : exec self fresh choice op s = some (s', r)) (hop : tampers op = false)
    {f : FiberId} (hf : (s'.fibers f).flags .disposeComplete = true) :
    (s.fibers f).flags .disposeComplete = true ∨ op = .on f (.store .disposeComplete true) := by
  rcases exec_touch h f with ⟨op', r', rfl, hexec⟩ | ⟨_, -, -, hborn⟩ | ⟨-, hcore, -⟩
  · refine (FiberOp.exec_complete hop hexec hf).imp id fun heq => ?_
    rw [heq]
  · rw [hborn] at hf
    cases hf
  · exact .inl (hcore.flags ▸ hf)

/-- The operations that give a slot to or take it from a party. -/
def handles : Op → Option FiberId
  | .on f .tryClaim | .on f .release | .on f .abandon | .fork (.convergence f) => some f
  | _ => none

theorem exec_holders (hs : Fresh s) (h : exec self fresh choice op s = some (s', r))
    {f : FiberId} (hop : handles op ≠ some f) :
    (s'.fibers f).trace.holders = (s.fibers f).trace.holders := by
  rcases exec_touch h f with ⟨op', r', rfl, hexec⟩ | ⟨_, -, rfl, hborn⟩ | ⟨-, -, hbooks⟩
  · have hw : op'.writes .holders = false := by
      cases op' <;> first | rfl | exact absurd rfl hop | (rename_i flag; cases flag <;> rfl)
    exact FiberOp.exec_same_field hexec .holders hw
  · rw [hs _ (Nat.le_refl _), hborn]
    rfl
  · exact hbooks.holders fun hfork => hop (hfork ▸ rfl)

end Step

end Runtime
end CordisCore
