import CordisCore.Interleaving.Machine
import Mathlib.Logic.Relation

/-!
# Refinement — a part of the state moves as an abstract component does

A machine refines a component, seen through a view of its state, if the view starts
where the component starts and every step of a run is a move of the party that it
schedules, or leaves the component alone.  Then a run is a run of the component, and
what a party may expect of the component it may expect of the machine.
-/

namespace CordisCore
namespace Interleaving
namespace Machine

open Relation (ReflGen ReflTransGen)

variable {σ Op : Type} {Ret : Op → Type} {Routine Choice Answer α : Type}
variable (M : Machine σ Op Ret Routine Choice Answer)

/-- The runs that meet the condition, seen through `view`, are runs of a component in which
`moves p` is what the party `p` may do. -/
structure Refines (ok : Condition σ Op Choice) (view : σ → α) (moves : Party → α → α → Prop)
    (start : α) : Prop where
  init : view M.init = start
  step : ∀ {cfg cfg' : Config σ Op Ret Answer} (label : Label Routine Choice),
    M.Reachable ok cfg → Meets ok cfg label → M.step cfg label = some cfg' →
      ReflGen (moves (mover label)) (view cfg.shared) (view cfg'.shared)

/-- A step of somebody else. -/
def Others (ok : Condition σ Op Choice) (p : Party) (cfg cfg' : Config σ Op Ret Answer) : Prop :=
  ∃ label, mover label ≠ p ∧ Meets ok cfg label ∧ M.step cfg label = some cfg'

section Refines

variable {M} {ok : Condition σ Op Choice} {view : σ → α} {moves : Party → α → α → Prop}
variable {start : α} {cfg cfg' : Config σ Op Ret Answer}

/-- Only operations can move the component: entries, drops and unfolded loops leave it alone. -/
theorem refines_of_performed (init : view M.init = start)
    (performed : ∀ {cfg cfg' : Config σ Op Ret Answer} {p q : Party} {c : Choice} {op : Op}
      {next : Ret op → Program Op Ret Answer} {r : Ret op}, M.Reachable ok cfg →
      M.Reachable ok cfg' → cfg.pool p = some (.act op next) → ok p c op cfg.shared →
      M.exec p q c op cfg.shared = some (cfg'.shared, r) →
      ReflGen (moves p) (view cfg.shared) (view cfg'.shared))
    (entered : ∀ {p routine s s'}, M.enter p routine s = some s' → view s' = view s)
    (dropped : ∀ {p s s' next}, M.dropped p s = some (s', next) → view s' = view s) :
    M.Refines ok view moves start where
  init := init
  step label hr hmeets hstep := by
    have hr' := hr.step label hmeets hstep
    cases changes_of_step M hstep with
    | performed hpool hexec => exact performed hr hr' hpool (hmeets _ _ hpool) hexec
    | unfolded hsame =>
        rw [hsame]
    | entered henter =>
        rw [entered henter]
    | dropped hdrop =>
        rw [dropped hdrop]

namespace Refines

variable (h : M.Refines ok view moves start)

include h

/-- A run of the machine is a run of the component. -/
theorem run (hr : M.Reachable ok cfg) :
    ReflTransGen (fun a a' => ∃ p, moves p a a') start (view cfg.shared) := by
  induction hr with
  | start =>
      rw [← h.init]
      exact .refl
  | step label hr hmeets hstep ih =>
      exact ih.trans ((h.step label hr hmeets hstep).mono fun a a' hmove => ⟨_, hmove⟩).to_reflTransGen

/-- What the moves of the others leave a party stays as long as only they take steps. -/
theorem stays {p : Party} {D : α → Prop}
    (hkeep : ∀ {q a a'}, q ≠ p → moves q a a' → D a → D a') (hr : M.Reachable ok cfg)
    (hrun : ReflTransGen (M.Others ok p) cfg cfg') (hd : D (view cfg.shared)) :
    M.Reachable ok cfg' ∧ D (view cfg'.shared) := by
  induction hrun with
  | refl => exact ⟨hr, hd⟩
  | tail _ hother ih =>
      rcases hother with ⟨label, hne, hmeets, hstep⟩
      refine ⟨ih.1.step label hmeets hstep, ?_⟩
      rcases (Relation.reflGen_iff _ _ _).mp (h.step label ih.1 hmeets hstep) with hsame | hmove
      · rw [hsame]
        exact ih.2
      · exact hkeep hne hmove ih.2

end Refines

end Refines

end Machine
end Interleaving
end CordisCore
