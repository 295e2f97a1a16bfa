import Mathlib.Logic.Basic

/-!
# Automata — one shared state and actions taken in any order

A component whose actions are indivisible needs no programs: its state and its
partial step function say everything.
-/

namespace CordisCore
namespace Interleaving

/-- A state and its actions; `none` while an action is not enabled. -/
structure Automaton (σ Act : Type) where
  init : σ
  step : σ → Act → Option σ

namespace Automaton

variable {σ Act : Type} (A : Automaton σ Act)

/-- States reached by runs whose actions all meet the condition where they are taken. -/
inductive Reachable (ok : σ → Act → Prop) : σ → Prop where
  | init : Reachable ok A.init
  | step {s s' : σ} (a : Act) (h : Reachable ok s) (meets : ok s a)
      (moves : A.step s a = some s') : Reachable ok s'

/-- Any run at all. -/
def anyRun : σ → Act → Prop :=
  fun _ _ => True

variable {A} {ok : σ → Act → Prop}

/-- What every action preserves holds in every run. -/
theorem Reachable.invariant {I : σ → Prop} (init : I A.init)
    (step : ∀ {s a s'}, A.Reachable ok s → I s → ok s a → A.step s a = some s' → I s')
    {s : σ} (h : A.Reachable ok s) : I s := by
  induction h with
  | init => exact init
  | step a hr meets moves ih => exact step hr ih meets moves

variable (A)

/-- Take these actions one after the other, as long as each is enabled and meets the test. -/
def run (ok? : σ → Act → Bool) : List Act → σ → Option σ
  | [], s => some s
  | a :: rest, s => if ok? s a then (A.step s a).bind (run ok? rest) else none

variable {A}

theorem Reachable.of_run {ok? : σ → Act → Bool} (h : ∀ s a, ok? s a = true → ok s a)
    (actions : List Act) {s s' : σ} (hs : A.Reachable ok s)
    (hrun : A.run ok? actions s = some s') : A.Reachable ok s' := by
  induction actions generalizing s with
  | nil =>
      simp only [run, Option.some.injEq] at hrun
      exact hrun ▸ hs
  | cons a rest ih =>
      simp only [run] at hrun
      split at hrun
      · rename_i hmeets
        simp only [Option.bind_eq_some_iff] at hrun
        rcases hrun with ⟨mid, hstep, hrest⟩
        exact ih (.step a hs (h s a hmeets) hstep) hrest
      · cases hrun

/-- The state at the end of a run that is enabled throughout. -/
def after (A : Automaton σ Act) (ok? : σ → Act → Bool) (actions : List Act)
    (enabled : (A.run ok? actions A.init).isSome = true) : σ :=
  (A.run ok? actions A.init).get enabled

theorem reachable_after {ok? : σ → Act → Bool} (h : ∀ s a, ok? s a = true → ok s a)
    (actions : List Act) (enabled : (A.run ok? actions A.init).isSome = true) :
    A.Reachable ok (A.after ok? actions enabled) :=
  Reachable.of_run h actions .init (Option.some_get _).symm

end Automaton

end Interleaving
end CordisCore
