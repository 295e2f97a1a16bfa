import CordisCore.Authority.Services

/-!
# Unique convergence authority
-/

namespace CordisCore
namespace Runtime

open Interleaving

variable {p : Party} {s : Root}

/-! ## Every routine is verified -/

theorem wp_body (hs : SlotInv s) (routine : Routine) (hpre : slotPre routine p s) :
    authority.wp p (body routine) (fun _ _ => True) s := by
  cases routine with
  | convergence f =>
      rcases hpre with ⟨hdriving, hf, ho⟩
      have hp : Free p s := by simp [Free, hdriving]
      exact authority.wp_seq hs (wp_convergencePass hf hp ho) fun _ _ _ _ => trivial
  | creationGuard f =>
      rcases hpre with ⟨hdriving, hf, hin, hset, happ⟩
      have hp : Free p s := by simp [Free, hdriving]
      exact authority.wp_seq hs (wp_creationInterruptedTeardown hs hf hp hin hset happ)
        fun _ _ _ _ => trivial
  | cleanup f id cleanup =>
      exact authority.wp_seq hs (neutral_runCleanup s hs trivial) fun _ _ _ _ => trivial
  | task f =>
      have hp : (s.driving p).guard = none := by
        have hdriving : s.driving p = {} := hpre
        rw [hdriving]
      exact authority.wp_seq hs (wp_taskBody hs hp) fun _ _ _ _ => trivial
  | spawn origin key edges =>
      exact authority.wp_seq hs (wp_spawnPreparedInner hs hpre.1) fun _ _ _ _ => trivial
  | ready ctx f =>
      have hp : Free p s := fun _ => hpre.1
      exact authority.wp_seq hs (neutral_handleReady s hs ⟨hp.droppable, hpre.2 f rfl⟩)
        fun _ _ _ _ => trivial
  | waitState ctx f state bounded =>
      have hp : Free p s := fun _ => hpre.1
      exact authority.wp_seq hs (neutral_handleWaitState s hs ⟨hp.droppable, hpre.2 f rfl⟩)
        fun _ _ _ _ => trivial
  | dispose ctx f =>
      refine authority.wp_seq hs (wp_handleDispose hs (hpre.2 f rfl) fun _ => hpre.1) ?_
      intro disposed _ _ _
      cases disposed <;> trivial
  | restart ctx f =>
      exact authority.wp_seq hs (wp_handleRestart hs (hpre.2 f rfl) fun _ => hpre.1)
        fun _ _ _ _ => trivial
  | update ctx f change =>
      exact authority.wp_seq hs (wp_handleUpdate hs (hpre.2 f rfl) fun _ => hpre.1)
        fun _ _ _ _ => trivial
  | eraSwap ctx f change =>
      exact authority.wp_seq hs (wp_eraSwap hs (hpre.2 f rfl) hpre.1) fun _ _ _ _ => trivial
  | removePlugins ctx key =>
      exact authority.wp_seq hs (wp_removePlugins hs fun _ => hpre.1) fun _ _ _ _ => trivial
  | provide f key contract value =>
      exact authority.wp_seq hs (wp_provide hs) fun _ _ _ _ => trivial
  | set publication value =>
      exact authority.wp_seq hs (neutral_setExact s hs trivial) fun _ _ _ _ => trivial
  | remove publication =>
      exact authority.wp_seq hs (wp_removePublication hs) fun _ _ _ _ => trivial
  | tryService key contract =>
      exact authority.wp_seq hs (wp_quiet hs rfl) fun _ _ _ _ => trivial
  | effect f =>
      exact authority.wp_seq hs (neutral_effect s hs trivial) fun _ _ _ _ => trivial
  | disarm f token =>
      exact authority.wp_seq hs (neutral_disarm s hs trivial) fun _ _ _ _ => trivial
  | disposeEffect f token =>
      exact authority.wp_seq hs (wp_disposeEffect hs) fun _ _ _ _ => trivial
  | run f =>
      exact authority.wp_seq hs (neutral_run s hs trivial) fun _ _ _ _ => trivial

theorem slotInv_new : SlotInv Root.new where
  slot f _ := by
    by_cases hf : f = 0
    · subst hf
      exact ⟨fun _ => rfl, fun h => absurd rfl h, .inl rfl, .inl rfl⟩
    · simp only [Root.new, hf, if_false]
      exact ⟨fun _ => rfl, fun h => absurd rfl h, .inl rfl, .inl rfl⟩
  root := rfl
  born := Nat.one_pos
  reverse := nofun
  groups := nofun
  delivered f hf := by
    by_cases h0 : f = 0
    · subst h0
      cases hf
    · simp only [Root.new, h0, if_false] at hf
      cases hf

theorem slotPre_enter {routine : Routine} (hs : SlotInv s) (hadm : admits s routine = true) :
    slotPre routine p (s.drive p { byCaller := true }) := by
  have hhandle : ∀ f, (s.fibers f).trace.delivered = true →
      Spawned (s.drive p { byCaller := true }) f := fun f hf => hs.delivered f hf
  cases routine <;>
    simp only [admits, Bool.false_eq_true] at hadm <;>
    refine ⟨by simp [Root.drive], fun f hf => ?_⟩ <;>
    simp only [Routine.handle, reduceCtorEq, Option.some.injEq] at hf <;>
    (subst hf; exact hhandle _ hadm)

theorem authority_verified : authority.Verified where
  grounded _ _ _ _ _ := trivial
  init := slotInv_new
  vacant p := by
    refine ⟨rfl, ?_⟩
    funext f
    simp only [part]
    split
    · rename_i hf
      obtain rfl : f = 0 := Nat.lt_one_iff.mp hf
      show Fiber.root.part p = {}
      simp [Fiber.part, Fiber.settling, Fiber.root, Fiber.publish]
    · rfl
  body routine _ _ hs hpre := wp_body hs routine hpre
  enter p routine s s' hs _ henter := by
    simp only [cordis, enter, Option.ite_none_right_eq_some, Option.some.injEq] at henter
    rcases henter with ⟨hadm, rfl⟩
    exact ⟨inv_drive hs p _, fun t ht => keeps_drive _ ht, slotPre_enter hs hadm⟩

/-! ## The authority of every reachable state -/

/-- One party holds each slot at most, and only it settles, applies or publishes IDLE. -/
structure UniqueAuthority (c : State) : Prop where
  holder : ∀ f < c.shared.nextFiber, (c.shared.fibers f).trace.holders.length ≤ 1
  held : ∀ f < c.shared.nextFiber,
    (c.shared.fibers f).inertia = .idle ↔ (c.shared.fibers f).trace.holders = []
  release : ∀ p f op next, c.pool p = some (.act (.on f op) next) →
    op = .abandon ∨ op = .release → p ∈ (c.shared.fibers f).trace.holders
  settling : ∀ f < c.shared.nextFiber, (c.shared.fibers f).settling.length ≤ 1
  applying : ∀ f < c.shared.nextFiber, (c.shared.fibers f).trace.applying.length ≤ 1

theorem Authority.length_le {x : Fiber} (h : Authority x) : x.trace.holders.length ≤ 1 := by
  rcases h.holders_cases with hx | ⟨p, hx⟩ <;> simp [hx]

/-- Unique convergence authority, in every run whose tail probes read IDLE. -/
theorem uniqueAuthority_of_reachable {c : State} (h : Reachable tailIdle c) :
    UniqueAuthority c := by
  have hs : SlotInv c.shared := Logic.inv_of_reachable authority_verified h
  refine {
    holder := fun f hf => (hs.slot f hf).length_le
    held := fun f hf => ⟨(hs.slot f hf).idle, fun hx => ?held⟩
    release := fun p f op next hp hop => ?release
    settling := fun f hf => ?settling
    applying := fun f hf => ?applying }
  case held =>
    by_contra hidle
    rcases (hs.slot f hf).busy hidle with ⟨p, hp⟩
    rw [hp] at hx
    cases hx
  case release =>
    have hcheck : Entitled p (.on f op) c.shared :=
      Logic.check_of_reachable authority_verified h hp
    have hheld : (part p c.shared f).holds := by
      refine hcheck.slot f ?_
      rcases hop with rfl | rfl <;> rfl
    rw [part_of_spawned (spawned_of_holds hs hheld)] at hheld
    exact hheld
  case settling =>
    rcases (hs.slot f hf).settling with hx | hx
    · simp [hx]
    · exact hx ▸ (hs.slot f hf).length_le
  case applying =>
    rcases (hs.slot f hf).applying with hx | hx
    · simp [hx]
    · exact hx ▸ (hs.slot f hf).length_le

/-- A spawn to the end, its tail probe included. -/
def quietSpawn : List Step :=
  [.enter 1 (.spawn 0 5 [])] ++ turns 1 24 ++ turns 1 1 (.apply .succeeded) ++ turns 1 27

theorem quietSpawn_enabled : (cordis.run tailIdle? quietSpawn cordis.start).isSome = true := by
  decide +kernel

theorem uniqueAuthority_quietSpawn :
    UniqueAuthority (after tailIdle? quietSpawn (by decide +kernel)) :=
  uniqueAuthority_of_reachable (reachable_after Machine.finds_of_finds? quietSpawn _)

/-- A removal takes the slot that the Active exit released, and the tail gives it away. -/
def stolenSlot : List Step :=
  [.enter 1 (.spawn 0 5 [])] ++ turns 1 24 ++ turns 1 1 (.apply .succeeded) ++ turns 1 18 ++
    [.enter 2 (.removePlugins {} 5)] ++ turns 2 5 ++ turns 1 5

theorem not_uniqueAuthority_stolenSlot :
    ∃ c, Reachable Machine.anyRun c ∧ ¬ UniqueAuthority c := by
  refine ⟨after always stolenSlot (by decide +kernel),
    reachable_after (fun _ _ _ _ _ => trivial) stolenSlot _, fun h => ?_⟩
  exact absurd (h.holder 1 (by decide +kernel)) (by decide +kernel)

end Runtime
end CordisCore
