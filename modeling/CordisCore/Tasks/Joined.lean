import CordisCore.Tasks.Passes

/-!
# Joined — what `Context::run` promises in every run
-/

namespace CordisCore
namespace Tasks

open Interleaving
open CordisCore.Runtime (FiberState Token)

/-- Somebody is between the push of the join obligation and the broadcast. -/
def Approaching (cfg : State) (r : RunId) : Prop :=
  ∃ p, (cfg.shared.run r).caller = some p ∧
    (∀ op next, cfg.pool p = some (.act op next) →
      op = .spawn r ∨ op = .park r ∨ op = .notifyWaiters r) ∧
    ∀ a, cfg.pool p ≠ some (.pure a)

/-- What a call of `run` promises in every state. -/
structure Joined (cfg : State) (r : RunId) : Prop where
  /-- The join cleanup completes after the handle was parked and the task is over. -/
  completes : ∀ j, (cfg.shared.run r).token = some j →
    (cfg.shared.occurrence j).outcome ≠ none →
      (cfg.shared.run r).slot = .done ∧ ∃ o, (cfg.shared.run r).task = .ended o
  /-- A join cleanup that waits for the handle is woken and will find it, or the broadcast is still
  to come. -/
  waits : ∀ p next, cfg.pool p = some (.act (.awaitParked r) next) →
    (cfg.shared.run r).parked.woken p = true ∧ (cfg.shared.run r).slot = .running r ∨
      (cfg.shared.run r).notified = false ∧ (cfg.shared.run r).slot ≠ .done ∧ Approaching cfg r
  /-- Whoever waits for the task holds the handle of a task that was started. -/
  starts : ∀ p next, cfg.pool p = some (.act (.join r) next) →
    (cfg.shared.run r).slot = .done ∧ (cfg.shared.run r).task ≠ .absent
  /-- Only a drain claims the join obligation. -/
  drained : ∀ j c, (cfg.shared.run r).token = some j →
    (cfg.shared.occurrence j).claimant = some c → c = .drain
  /-- Once it is claimed, what the task registered was executed, or its own control claimed it. -/
  ordered : ∀ j t, (cfg.shared.run r).token = some j →
    (cfg.shared.occurrence j).claimant ≠ none → (cfg.shared.occurrence t).author = some r →
      j < t ∧ ((cfg.shared.occurrence t).outcome ≠ none ∨
        ∃ claimant, (cfg.shared.occurrence t).claimant = some claimant ∧
          Controls claimant (cfg.shared.occurrence t))
  /-- A panic of the task is reported at the join and is not a failure of the cleanup. -/
  contained : ∀ j out, (cfg.shared.run r).token = some j →
    (cfg.shared.occurrence j).outcome = some out → out = none ∧
      (cfg.shared.run r).reports = if (cfg.shared.run r).task = .ended .panicked then 1 else 0
  /-- A refused call leaves nothing behind. -/
  refused : ∀ e, (cfg.shared.run r).result = some (.error e) →
    (cfg.shared.run r).task = .absent ∧ ∀ t, (cfg.shared.occurrence t).cleanup ≠ some (.join r) ∧
      (t, .join r) ∉ cfg.shared.disposables
  /-- An accepted one has its task and its obligation, and the handle is parked. -/
  accepted : (cfg.shared.run r).result = some (.ok ()) → (cfg.shared.run r).token ≠ none ∧
    (cfg.shared.run r).task ≠ .absent ∧ (cfg.shared.run r).slot ≠ .pending
  /-- A drain that is through has lost nothing. -/
  emptied : ∀ p next, cfg.pool p = some (.act (.setDraining false) next) →
    cfg.shared.disposables = []

theorem joined_of_reachable {cfg : State} (h : protocol.Reachable Machine.anyRun cfg) (r : RunId) :
    Joined cfg r := by
  have hs : Sound cfg.shared := Logic.inv_of_reachable joining_verified h
  have hcheck : ∀ {p op next}, cfg.pool p = some (.act op next) → Due p op cfg.shared :=
    fun hpool => Logic.check_of_reachable joining_verified h hpool
  refine {
    completes := fun j hj hout => ?completes
    waits := fun p next hpool => ?waits
    starts := fun p next hpool => ?starts
    drained := fun j c hj hc => ?drained
    ordered := fun j t hj hc ht => ?ordered
    contained := fun j out hj hout => ?contained
    refused := fun e he => ?refused
    accepted := fun hok => ?accepted
    emptied := fun p next hpool => (hcheck hpool).entitled }
  case completes =>
    rcases hs.finished hj hout with ⟨hdone, o, ho, -⟩
    exact ⟨hdone, o, ho⟩
  case waits =>
    rcases (hcheck hpool).entitled with ⟨hjoiner, hdone, -, hwoken⟩
    cases hnotified : (cfg.shared.run r).notified with
    | true =>
        refine .inl ⟨Notify.woken_iff.mpr (hwoken hnotified), ?_⟩
        cases hslot : (cfg.shared.run r).slot with
        | pending => exact absurd hslot ((hs.call r).notified hnotified)
        | running join => rw [(hs.call r).handle join hslot]
        | done => exact absurd hslot hdone
    | false =>
        -- nobody joins what was not pushed, and its caller has not come to the broadcast yet
        have htoken : (cfg.shared.run r).token ≠ none := by
          rcases hs.joiner r (by rw [hjoiner]; nofun) with ⟨j, hj, -⟩
          rw [hj]
          nofun
        rcases Option.ne_none_iff_exists'.mp ((hs.call r).calling htoken hnotified) with ⟨p', hp'⟩
        refine .inr ⟨rfl, hdone, p', hp', fun op next' hpool' => ?_, fun a hpool' => ?_⟩
        · exact (hcheck hpool').parks r hp' htoken hnotified
        · exact Logic.post_of_reachable joining_verified h hpool' r hp'
  case starts =>
    have hdone : (cfg.shared.run r).slot = .done := (hcheck hpool).entitled
    exact ⟨hdone, (hs.call r).parked (by rw [hdone]; nofun)⟩
  case drained =>
    have hdrain := hs.exclusive hj (by rw [hc]; nofun)
    exact Option.some.inj (hc.symm.trans hdrain)
  case ordered =>
    rcases hs.author t r ht with ⟨-, j', hj', hlt⟩
    cases hj.symm.trans hj'
    rcases hs.drained r j t hj hc ht with ⟨hclaimed, hsettled⟩
    refine ⟨hlt, ?_⟩
    rcases Option.ne_none_iff_exists'.mp hclaimed with ⟨claimant, hclaimant⟩
    rcases hs.controlled t claimant hclaimant with rfl | hcontrols
    · exact .inl (hsettled hclaimant)
    · exact .inr ⟨claimant, hclaimant, hcontrols⟩
  case contained =>
    rcases hs.executed r j out hj hout with ⟨-, ⟨-, o, ho, hreports⟩, hnone⟩
    refine ⟨hnone, hreports.trans ?_⟩
    rw [ho]
    simp only [Task.ended.injEq]
  case refused =>
    have htoken := (hs.call r).refused e he
    have hnever : ∀ t, (cfg.shared.occurrence t).cleanup ≠ some (.join r) := by
      intro t ht
      cases htoken.symm.trans ((hs.joins t r).mp ht)
    refine ⟨Decidable.by_contra fun hne => (hs.call r).spawned hne htoken, fun t => ⟨hnever t, ?_⟩⟩
    exact fun hmem => hnever t ((hs.registered t (.join r)).mp hmem).1
  case accepted =>
    have hnotified := (hs.call r).accepted hok
    have hparked := (hs.call r).notified hnotified
    have hstarted := (hs.call r).parked hparked
    exact ⟨(hs.call r).spawned hstarted, hstarted, hparked⟩

/-! ## An obligation that its registration has claimed -/

/-- A party takes some steps with this answer of the world. -/
def turns (p : Party) (n : Nat) (choice : Choice) : List (Label Routine Choice) :=
  List.replicate n (.step p 9 choice)

/-- The task registers an effect that its registration disposes of while the drain comes. -/
def disposedEarly : List (Label Routine Choice) :=
  .enter 1 .settle :: turns 1 7 {} ++ turns 1 3 { answer := true } ++
  .enter 2 .run :: turns 2 5 { answer := true } ++ .step 2 3 {} :: turns 2 3 {} ++
  turns 3 1 {} ++ turns 3 3 { decision := .register (.effect true) } ++
  .enter 4 (.disposeEffect 2) :: turns 4 1 {} ++ [.step 4 5 {}] ++
  .enter 6 .settle :: turns 6 9 {} ++ [.step 6 7 {}] ++ turns 7 3 {}

def disposing : State :=
  (protocol.run (fun _ _ _ _ => true) disposedEarly protocol.start).get (by decide +kernel)

theorem reachable_disposing : protocol.Reachable Machine.anyRun disposing :=
  Machine.Reachable.of_run protocol (fun _ _ _ _ _ => trivial) disposedEarly .start
    (Option.some_get _).symm

theorem joined_disposing : Joined disposing 0 :=
  joined_of_reachable reachable_disposing 0

/-- The drain waits for the task while an obligation of the task is not executed. -/
theorem unexecuted_disposing : protocol.Reachable Machine.anyRun disposing ∧
    (∃ next, disposing.pool 7 = some (.act (.join 0) next)) ∧
    ¬ ∀ r j t, (disposing.shared.run r).token = some j →
      (disposing.shared.occurrence j).claimant ≠ none →
        (disposing.shared.occurrence t).author = some r → j < t →
          (disposing.shared.occurrence t).outcome ≠ none := by
  refine ⟨reachable_disposing, ⟨_, rfl⟩, fun h => ?_⟩
  exact h 0 1 2 (by decide +kernel) (by decide +kernel) (by decide +kernel) (by decide) (by decide +kernel)

end Tasks
end CordisCore
