import CordisCore.Custody.Contracts
import CordisCore.Interleaving.Polling

/-!
# Ended Fibers — what no longer changes after a completed disposal

The state of a disposed Fiber is final and is not published again.  As long as no
recheck of it is outstanding its revision stands still as well, whoever moves.
-/

namespace CordisCore
namespace Runtime

open Interleaving

/-- A recheck was committed that nobody acknowledged. -/
def Outstanding (s : Root) (f : FiberId) : Prop :=
  (s.fibers f).recheckCommitted ≠ (s.fibers f).recheckSettled

/-- The Fiber is disposed, after so many publications and at this acknowledged revision. -/
structure Rested (f : FiberId) (sequence revision : Nat) (s : Root) : Prop where
  allocated : f < s.nextFiber
  state : (s.fibers f).state = .disposed
  sequence : (s.fibers f).sequence = sequence
  committed : (s.fibers f).recheckCommitted = revision
  settled : (s.fibers f).recheckSettled = revision

section Rested

variable {f : FiberId} {sequence revision : Nat} {s s' : Root} {p q : Party}

theorem rested_of_disposed (hf : f < s.nextFiber) (hstate : (s.fibers f).state = .disposed)
    (ho : ¬ Outstanding s f) :
    Rested f (s.fibers f).sequence (s.fibers f).recheckCommitted s :=
  ⟨hf, hstate, rfl, rfl, (not_not.mp ho).symm⟩

/-- No operation of lifecycle code wakes the Fiber. -/
theorem Rested.exec {choice : Choice} {op : Op} {r : op.Ret} (hs : Rested f sequence revision s)
    (hfinal : ∀ next, op = .on f (.publish next) → next = .disposed)
    (h : exec p q choice op s = some (s', r)) (ho : ¬ Outstanding s' f) :
    Rested f sequence revision s' := by
  have hsame := not_not.mp ho
  have hallocated := Nat.lt_of_lt_of_le hs.allocated (exec_nextFiber_le h)
  rcases exec_touch h f with ⟨op', r', rfl, hexec⟩ | ⟨_, -, hborn, -⟩ | ⟨-, hcore, -⟩
  · have hstill := FiberOp.exec_republished
      (fun next hop => hs.state.trans (hfinal next (hop ▸ rfl)).symm) hexec
    have hcommitted := (FiberOp.exec_kept hexec).committed.trans hs.committed
    exact ⟨hallocated, hstill.2.trans hs.state, hstill.1.trans hs.sequence, hcommitted,
      hsame.symm.trans hcommitted⟩
  · exact absurd (hborn ▸ hs.allocated) (Nat.lt_irrefl _)
  · have hsettled := hcore.settled.trans hs.settled
    exact ⟨hallocated, hcore.state.trans hs.state, hcore.sequence.trans hs.sequence,
      hsame.trans hsettled, hsettled⟩

/-- What is the same about the Fiber leaves it at rest. -/
theorem Rested.same (hs : Rested f sequence revision s) (hnext : s'.nextFiber = s.nextFiber)
    (hfiber : s'.fibers f = s.fibers f ∨ s'.fibers f = (s.fibers f).forget p) :
    Rested f sequence revision s' := by
  refine ⟨hnext ▸ hs.allocated, ?_, ?_, ?_, ?_⟩ <;>
    rcases hfiber with hfiber | hfiber <;> rw [hfiber]
  exacts [hs.state, hs.state, hs.sequence, hs.sequence, hs.committed, hs.committed, hs.settled,
    hs.settled]

/-- No step of a run wakes the Fiber, unless it leaves a recheck outstanding. -/
theorem Rested.step {c c' : State} {label : Step} (hs : Rested f sequence revision c.shared)
    (h : Reachable tailIdle c) (moves : cordis.step c label = some c')
    (ho : ¬ Outstanding c'.shared f) : Rested f sequence revision c'.shared := by
  rcases Machine.Reachable.filmed h with ⟨cfg, hcfg, rfl⟩
  cases Machine.changes_of_step cordis moves with
  | performed hpool hexec =>
      have hcleared : Cleared _ _ cfg.shared :=
        Logic.check_of_reachable Custody.custody_verified hcfg hpool
      refine hs.exec (fun published hop => ?_) (cordis_exec hexec) ho
      exact (hcleared.publish f published hop).final hs.state
  | unfolded hsame => exact hsame ▸ hs
  | @entered p _ henter =>
      simp only [cordis, enter, Option.ite_none_right_eq_some, Option.some.injEq] at henter
      exact henter.2 ▸ hs.same (p := p) rfl (.inl rfl)
  | dropped hdrop =>
      rcases dropped_eq hdrop with ⟨fibers, driving, hshared, hfibers⟩
      rw [hshared]
      exact hs.same rfl (hfibers f)

end Rested

end Runtime
end CordisCore
