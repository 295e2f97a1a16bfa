import CordisCore.Interleaving.Refinement
import CordisCore.Runtime.Types

/-!
# Turns — who settles a Fiber, whatever else there is

The abstract arbiter of one Fiber: nobody has the turn, or one party settles, or that
party judges on its way out whether it has to go on.  A party takes a free turn for
itself, and ends or hands on its own; a turn on its way out may be called back for
whoever has it.
-/

namespace CordisCore
namespace Arbiter

open Interleaving
open Relation (ReflGen ReflTransGen)
open CordisCore.Runtime (Inertia)

/-! ## The arbiter -/

inductive Phase where
  | settling
  | rechecking
  deriving DecidableEq

structure Turn where
  phase : Phase
  holder : Party
  deriving DecidableEq

/-- What one party does with the turn. -/
inductive Moves (p : Party) : Option Turn → Option Turn → Prop where
  | claim : Moves p none (some ⟨.settling, p⟩)
  | recheck : Moves p (some ⟨.settling, p⟩) (some ⟨.rechecking, p⟩)
  /-- Drift was found, or a kick calls the holder back. -/
  | resume (holder : Party) : Moves p (some ⟨.rechecking, holder⟩) (some ⟨.settling, holder⟩)
  | release (phase : Phase) : Moves p (some ⟨phase, p⟩) none
  | handOver (phase : Phase) (successor : Party) :
      Moves p (some ⟨phase, p⟩) (some ⟨phase, successor⟩)

/-- This party has the turn. -/
def Has (p : Party) (turn : Option Turn) : Prop :=
  ∃ phase, turn = some ⟨phase, p⟩

/-- Nobody takes the turn from the party that has it. -/
theorem Moves.keeps {p q : Party} {turn turn' : Option Turn} (hne : q ≠ p)
    (h : Moves q turn turn') (hp : Has p turn) : Has p turn' := by
  rcases hp with ⟨phase, rfl⟩
  cases h with
  | recheck | release | handOver => exact absurd rfl hne
  | resume holder => exact ⟨_, rfl⟩

/-- Whoever has the turn may settle on or judge drift. -/
theorem reflGen_phase (p : Party) (phase phase' : Phase) :
    ReflGen (Moves p) (some ⟨phase, p⟩) (some ⟨phase', p⟩) := by
  cases phase with
  | settling =>
      cases phase' with
      | settling => exact .refl
      | rechecking => exact .single .recheck
  | rechecking =>
      cases phase' with
      | settling => exact .single (.resume p)
      | rechecking => exact .refl

/-! ## What the inertia word says -/

/-- A held slot is on its way out while its word is RELEASING. -/
def phase : Inertia → Phase
  | .releasing => .rechecking
  | .idle | .active => .settling

/-! ## Machines whose slot is the turn -/

section Arbitrated

variable {σ Op : Type} {Ret : Op → Type} {Routine Choice Answer : Type}

/-- The slot that `turn` reads off the state is free while `idle`, and changes hands only as the
arbiter lets it. -/
structure Arbitrated (M : Machine σ Op Ret Routine Choice Answer)
    (ok : Machine.Condition σ Op Choice) (idle : σ → Prop) (turn : σ → Option Turn) : Prop where
  /-- Somebody has the turn exactly while the slot is not idle. -/
  free : ∀ cfg, M.Reachable ok cfg → (turn cfg.shared = none ↔ idle cfg.shared)
  /-- A run of the machine is a run of the arbiter. -/
  run : ∀ cfg, M.Reachable ok cfg →
    ReflTransGen (fun old new => ∃ p, Moves p old new) none (turn cfg.shared)
  /-- Each step is a move of the party that takes it, or leaves the slot alone. -/
  step : ∀ cfg cfg' label, M.Reachable ok cfg → Machine.Meets ok cfg label →
    M.step cfg label = some cfg' →
      ReflGen (Moves (Machine.mover label)) (turn cfg.shared) (turn cfg'.shared)
  /-- Whoever has the slot has it until a step of its own. -/
  stays : ∀ p cfg cfg', M.Reachable ok cfg → ReflTransGen (M.Others ok p) cfg cfg' →
    Has p (turn cfg.shared) → Has p (turn cfg'.shared)

theorem arbitrated_of_refines {M : Machine σ Op Ret Routine Choice Answer}
    {ok : Machine.Condition σ Op Choice} {idle : σ → Prop} {turn : σ → Option Turn}
    (h : M.Refines ok turn Moves none)
    (hfree : ∀ cfg, M.Reachable ok cfg → (turn cfg.shared = none ↔ idle cfg.shared)) :
    Arbitrated M ok idle turn where
  free := hfree
  run _ hr := h.run hr
  step _ _ label := h.step label
  stays _ _ _ hr hrun hp := (h.stays Moves.keeps hr hrun hp).2

end Arbitrated

end Arbiter
end CordisCore
