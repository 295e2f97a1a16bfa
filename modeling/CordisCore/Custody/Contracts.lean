import CordisCore.Custody.Calls

/-!
# Contracts — what holds in every run, and what the answers of lifecycle calls say

Whatever the parties do and whoever stops being polled: between passes a Fiber is
settled, a Fiber never comes back, no apply happens without a cause, and every
answer of a lifecycle call was true at an instant of the call.
-/

namespace CordisCore
namespace Runtime

open Interleaving

/-! ## Every state -/

/-- No pass leaves a Fiber half way. -/
structure AtRest (s : Root) : Prop where
  settled : ∀ f, Spawned s f → (s.fibers f).inertia = .idle → Settled (s.fibers f).view
  dead : ∀ f < s.nextFiber, (s.fibers f).state = .disposed → (s.fibers f).flags .alive = false
  complete : ∀ f, Complete f s → (s.fibers f).state = .disposed
  root : (s.fibers 0).state = .active

/-- A Fiber whose slot is free is settled; the end of a Fiber is its death; a published disposal
is over; the root stays Active. -/
theorem atRest_of_reachable {c : State} (h : Reachable tailIdle c) : AtRest c.shared := by
  rcases Machine.Reachable.filmed h with ⟨cfg, hcfg, rfl⟩
  have hs : Custody cfg.shared := Logic.inv_of_reachable Custody.custody_verified hcfg
  exact ⟨fun f hf hidle => (hs.rest f hf hidle).settled, hs.dead, hs.complete, hs.root⟩

theorem atRest_quietSpawn : AtRest (after tailIdle? quietSpawn quietSpawn_enabled).shared :=
  atRest_of_reachable (reachable_after Machine.finds_of_finds? quietSpawn _)

/-- A Fiber whose disposal is complete was allocated, is Disposed and dead. -/
theorem over_of_complete {c : State} {f : FiberId} (h : Reachable tailIdle c)
    (hcomplete : Complete f c.shared) : f < c.shared.nextFiber ∧
      (c.shared.fibers f).state = .disposed ∧ (c.shared.fibers f).flags .alive = false := by
  have hallocated : f < c.shared.nextFiber := by
    by_contra hunborn
    have hfresh := fresh_of_reachable h f (Nat.not_lt.mp hunborn)
    simp [Complete, hfresh] at hcomplete
  rcases Machine.Reachable.filmed h with ⟨cfg, hcfg, rfl⟩
  have hs : Custody cfg.shared := Logic.inv_of_reachable Custody.custody_verified hcfg
  have hdisposed := hs.complete f hcomplete
  exact ⟨hallocated, hdisposed, hs.dead f hallocated hdisposed⟩

/-- Nobody is in a branch that the code declares impossible. -/
def Unpanicked (c : State) : Prop :=
  ∀ p next, c.pool p ≠ some (.act .panic next)

theorem unpanicked_of_reachable {c : State} (h : Reachable tailIdle c) : Unpanicked c := by
  intro p next hp
  rcases Machine.Reachable.filmed h with ⟨cfg, hcfg, rfl⟩
  have hcheck : Cleared p .panic cfg.shared :=
    Logic.check_of_reachable Custody.custody_verified hcfg hp
  cases hcheck.plain

theorem unpanicked_quietSpawn : Unpanicked (after tailIdle? quietSpawn quietSpawn_enabled) :=
  unpanicked_of_reachable (reachable_after Machine.finds_of_finds? quietSpawn _)

/-! ## Filmed runs -/

deriving instance DecidableEq for Answer

/-- The state at the end of a filmed schedule whose tail probes read IDLE. -/
def taped (schedule : List Step) (enabled : (cordis.filmed.run
    (fun p c op s => tailIdle? p c op s.state) schedule cordis.filmed.start).isSome = true) :
    FilmedState :=
  (cordis.filmed.run (fun p c op s => tailIdle? p c op s.state) schedule
    cordis.filmed.start).get enabled

theorem reachable_taped (schedule : List Step) (enabled : (cordis.filmed.run
    (fun p c op s => tailIdle? p c op s.state) schedule cordis.filmed.start).isSome = true) :
    cordis.filmed.Reachable tailIdle.filmed (taped schedule enabled) :=
  Machine.Reachable.of_run cordis.filmed
    (fun p c op s h => Machine.finds_of_finds? p c op s.state h) schedule .start
    (Option.some_get _).symm

/-- The answer of a party that is over. -/
def answered? : Option (Prog Answer) → Option Answer
  | some (.pure answer) => some answer
  | _ => none

theorem pool_of_answered {x : Option (Prog Answer)} {answer : Answer}
    (h : answered? x = some answer) : x = some (.pure answer) := by
  unfold answered? at h
  split at h
  · cases h
    rfl
  · cases h

/-! ## Every instant -/

/-- From every instant on the film each Fiber only went onward. -/
def Advances (s : Reel) : Prop :=
  ∀ shot ∈ s.film, ∀ f, (shot.before.fibers f).Onward (s.state.fibers f)

theorem Flows.onward {film : Film} {now : Root} (h : Flows film now)
    {shot : Shot Root Op Op.Ret} (hshot : shot ∈ film) (f : FiberId) :
    (shot.before.fibers f).Onward (now.fibers f) := by
  induction film generalizing now with
  | nil => cases hshot
  | cons latest earlier ih =>
      cases hshot with
      | head => exact h.1 f
      | tail _ hshot => exact (ih h.2 hshot).trans (h.1 f)

/-- Publications are counted, and what ended stays ended. -/
theorem advances_of_reachable {cfg : FilmedState}
    (h : cordis.filmed.Reachable tailIdle.filmed cfg) : Advances cfg.shared := by
  intro shot hshot f
  have hs : Custody cfg.shared := Logic.inv_of_reachable Custody.custody_verified h
  exact hs.flows.onward hshot f

theorem advances_quietSpawn : Advances (taped quietSpawn (by decide +kernel)).shared :=
  advances_of_reachable (reachable_taped quietSpawn _)

/-- Whenever an apply started, it was due. -/
def AppliesDue (film : Film) : Prop :=
  ∀ later shot earlier, film = later ++ shot :: earlier →
    ∀ f target, applied f shot = some target → Due f target shot.before earlier

theorem Applies.appliesDue {film : Film} (h : Applies film) : AppliesDue film := by
  rintro later shot earlier rfl f target happlied
  induction later with
  | nil => exact h.1 f target happlied
  | cons latest later ih => exact ih h.2

/-- No apply without a cause, before the creator's, toward a missing service or on a dead Fiber. -/
theorem appliesDue_of_reachable {cfg : FilmedState}
    (h : cordis.filmed.Reachable tailIdle.filmed cfg) : AppliesDue cfg.shared.film := by
  have hs : Custody cfg.shared := Logic.inv_of_reachable Custody.custody_verified h
  exact hs.applies.appliesDue

theorem appliesDue_quietSpawn : AppliesDue (taped quietSpawn (by decide +kernel)).shared.film :=
  appliesDue_of_reachable (reachable_taped quietSpawn _)

/-! ## Every answer -/

theorem promised_of_reachable {cfg : FilmedState}
    (h : cordis.filmed.Reachable tailIdle.filmed cfg) {p : Party} {answer : Answer}
    (hp : cfg.pool p = some (.pure answer)) : Promised p cfg.shared answer :=
  (Logic.post_of_reachable Custody.custody_verified h hp).promised

section Answers

variable {cfg : FilmedState} {p : Party} {f : FiberId}

/-- What `spawn` answers: the Fiber is its own, and was alive and settled when it gave the slot up,
ended the creation and delivered the handle; or the initial apply failed and its disposal is
complete. -/
theorem born_of_reachable (h : cordis.filmed.Reachable tailIdle.filmed cfg)
    {result : Except SpawnError FiberId}
    (hp : cfg.pool p = some (.pure (.spawned result))) : Born p cfg.shared result :=
  promised_of_reachable h hp

/-- A spawn whose initial apply fails. -/
def refusedSpawn : List Step :=
  [.enter 1 (.spawn 0 5 [])] ++ turns 1 24 ++ turns 1 1 (.apply (.returned "boom")) ++ turns 1 44

theorem born_refusedSpawn :
    Born 1 (taped quietSpawn (by decide +kernel)).shared (.ok 1) ∧
      Born 1 (taped refusedSpawn (by decide +kernel)).shared
        (.error (.initialApply { kind := .returnedError, diagnostic := "boom" })) :=
  ⟨born_of_reachable (reachable_taped quietSpawn _) (pool_of_answered (by decide +kernel)),
    born_of_reachable (reachable_taped refusedSpawn _) (pool_of_answered (by decide +kernel))⟩

/-- What `ready` answers was the state of a free slot, after a recheck it saw acknowledged. -/
theorem readied_of_reachable (h : cordis.filmed.Reachable tailIdle.filmed cfg)
    {result : Except ReadyError FiberState}
    (hp : cfg.pool p = some (.pure (.ready f result))) : Readied p f cfg.shared result :=
  promised_of_reachable h hp

theorem readied_quietSpawn :
    Readied 4 1 (taped (quietSpawn ++ [.enter 4 (.ready {} 1)] ++ turns 4 12)
      (by decide +kernel)).shared (.ok .active) :=
  readied_of_reachable (reachable_taped _ _) (pool_of_answered (by decide +kernel))

/-- An answered restart committed, and what it answers was parked when it gave the slot away. -/
theorem restarted_of_reachable (h : cordis.filmed.Reachable tailIdle.filmed cfg)
    {result : Except RestartError Unit}
    (hp : cfg.pool p = some (.pure (.restarted f result))) : Restarted p f cfg.shared result :=
  promised_of_reachable h hp

theorem restarted_quietSpawn :
    Restarted 3 1 (taped (quietSpawn ++ [.enter 3 (.restart {} 1)] ++ turns 3 31 ++
      turns 3 1 (.apply .succeeded) ++ turns 3 17) (by decide +kernel)).shared (.ok ()) :=
  restarted_of_reachable (reachable_taped _ _) (pool_of_answered (by decide +kernel))

/-- An answered update committed the input, and what it answers was the state when it gave the
slot away. -/
theorem updated_of_reachable (h : cordis.filmed.Reachable tailIdle.filmed cfg)
    {result : Except UpdateError UpdateOutcome}
    (hp : cfg.pool p = some (.pure (.updated f result))) : Updated p f cfg.shared result :=
  promised_of_reachable h hp

theorem updated_quietSpawn :
    Updated 3 1 (taped (quietSpawn ++ [.enter 3 (.update {} 1 { contract := 5 })] ++ turns 3 3 ++
      turns 3 1 (.control .accepted) ++ turns 3 30 ++ turns 3 1 (.apply .succeeded) ++ turns 3 18)
      (by decide +kernel)).shared (.ok (.committed .active)) :=
  updated_of_reachable (reachable_taped _ _) (pool_of_answered (by decide +kernel))

/-- A disposal is answered when it is complete. -/
theorem disposed_of_reachable (h : cordis.filmed.Reachable tailIdle.filmed cfg)
    (hp : cfg.pool p = some (.pure (.disposed f))) :
    Complete f cfg.shared.state ∧ (cfg.shared.state.fibers f).state = .disposed ∧
      (cfg.shared.state.fibers f).flags .alive = false := by
  have hcomplete : Complete f cfg.shared.state := promised_of_reachable h hp
  have hover := over_of_complete (Machine.Reachable.unfilmed (fun _ _ _ _ hok => hok) h) hcomplete
  exact ⟨hcomplete, hover.2⟩

theorem disposed_quietSpawn :
    let cfg := taped (quietSpawn ++ [.enter 3 (.dispose {} 1)] ++ turns 3 34) (by decide +kernel)
    Complete 1 cfg.shared.state ∧ (cfg.shared.state.fibers 1).state = .disposed ∧
      (cfg.shared.state.fibers 1).flags .alive = false :=
  disposed_of_reachable (p := 3) (reachable_taped _ _) (pool_of_answered (by decide +kernel))

/-- A removal is answered when the disposals of the whole detached group are complete. -/
theorem removed_of_reachable (h : cordis.filmed.Reachable tailIdle.filmed cfg)
    {outcome : RemovalOutcome}
    (hp : cfg.pool p = some (.pure (.removed outcome))) : Removed p cfg.shared outcome :=
  promised_of_reachable h hp

theorem removed_quietSpawn :
    Removed 3 (taped (quietSpawn ++ [.enter 3 (.removePlugins {} 5)] ++ turns 3 37)
      (by decide +kernel)).shared (.removed 0 0) :=
  removed_of_reachable (reachable_taped _ _) (pool_of_answered (by decide +kernel))

/-- An answered era replacement: the source's disposal was complete before the successor was born
with the source's edges. -/
theorem swapped_of_reachable (h : cordis.filmed.Reachable tailIdle.filmed cfg)
    {result : Except EraSwapError FiberId}
    (hp : cfg.pool p = some (.pure (.swapped f result))) : Swapped p f cfg.shared result :=
  promised_of_reachable h hp

theorem swapped_quietSpawn :
    Swapped 3 1 (taped (quietSpawn ++ [.enter 3 (.eraSwap {} 1 { contract := 5 })] ++ turns 3 62 ++
      turns 3 1 (.apply .succeeded) ++ turns 3 29 ++ turns 3 1 .yes) (by decide +kernel)).shared
      (.ok 2) :=
  swapped_of_reachable (reachable_taped _ _) (pool_of_answered (by decide +kernel))

end Answers

end Runtime
end CordisCore
