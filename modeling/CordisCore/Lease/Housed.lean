import CordisCore.Lease.Applying

/-!
# Housed — where the pair of every Plugin is in every run
-/

namespace CordisCore
namespace Lease

open Interleaving
open CordisCore.Runtime (Contract FiberId FiberState Inertia Input)

/-- What every state promises about the pairs of all Plugins. -/
structure Housed (cfg : State) : Prop where
  /-- Outside a running apply a seal that was not moved on holds exactly its pair. -/
  home : ∀ r, (cfg.shared.seals r).fate = .kept → (∀ p pair, ¬ Applying cfg p r pair) →
    (cfg.shared.seals r).plugin.state = some (cfg.shared.seals r).pair
  /-- So it does whenever the slot of its Fiber is free. -/
  free : ∀ f, f < cfg.shared.nextFiber → (cfg.shared.fibers f).inertia = .idle →
    (cfg.shared.seals (cfg.shared.fibers f).plugin).fate = .kept →
      (cfg.shared.seals (cfg.shared.fibers f).plugin).plugin.state =
        some (cfg.shared.seals (cfg.shared.fibers f).plugin).pair
  /-- An apply has the pair with the last committed input, from the seal of a live Fiber whose slot
  it holds, and it is the only one. -/
  applies : ∀ p r pair, Applying cfg p r pair → pair = (cfg.shared.seals r).pair ∧
    (cfg.shared.seals r).plugin.state = none ∧ (∃ f, Leased cfg.shared r p f) ∧
      ∀ q pair', Applying cfg q r pair' → q = p
  /-- A Fiber has a seal that is kept or was moved on. -/
  installed : ∀ f, f < cfg.shared.nextFiber →
    (cfg.shared.seals (cfg.shared.fibers f).plugin).fate = .kept ∨
      ∃ x input, (cfg.shared.seals (cfg.shared.fibers f).plugin).fate = .moved x input
  /-- What was moved on belonged to a disposed Fiber and left nothing; its successor has the
  behavior, and the new input with it unless the destructor of the old one panicked. -/
  moved : ∀ r x input, (cfg.shared.seals r).fate = .moved x input →
    (cfg.shared.seals r).plugin.state = none ∧ (∃ f, Emptied cfg.shared r f) ∧
      Succeeded cfg.shared r x input ∧ ((cfg.shared.seals x).bearer ≠ none →
        (cfg.shared.seals x).plugin.state = some ((cfg.shared.seals r).behaviour, input))
  /-- Whoever moves a behavior on gets a successor with it and with the new input. -/
  moves : ∀ p r change next, cfg.pool p = some (.act (.intoSuccessor r change) next) →
    (cfg.shared.intoSuccessor p r change).2 = .ok cfg.shared.nextSeal ∧
      ((cfg.shared.intoSuccessor p r change).1.seals r).plugin.state = none ∧
        ((cfg.shared.intoSuccessor p r change).1.seals cfg.shared.nextSeal).plugin.state =
          some ((cfg.shared.seals r).behaviour, change.input)
  /-- Whoever commits an input holds the slot, and gets the last committed input back. -/
  commits : ∀ p f r change next, cfg.pool p = some (.act (.commitChange f r change) next) →
    (cfg.shared.fibers f).holder = some p ∧
      (cfg.shared.commitChange r change).2 = .ok (cfg.shared.seals r).committed ∧
        ((cfg.shared.commitChange r change).1.seals r).plugin.state =
          some ((cfg.shared.seals r).behaviour, change.input)
  /-- A foreign change, or one that comes while the pair is away, is handed back. -/
  refuses : ∀ p r change, (cfg.shared.seals r).plugin.Refuses change →
    cfg.shared.commitChange r change = (cfg.shared, .error change) ∧
      cfg.shared.intoSuccessor p r change = (cfg.shared, .error change)
  /-- No party comes to a panic of the code. -/
  expects : ∀ p arm next, cfg.pool p ≠ some (.act (.raise arm) next)

theorem housed_of_reachable {cfg : State} (h : protocol.Reachable tailIdle cfg) : Housed cfg := by
  have hs : Sound cfg.shared := Logic.inv_of_reachable leasing_verified h
  have hcheck : ∀ {p op next}, cfg.pool p = some (.act op next) → Due p op cfg.shared :=
    fun hpool => Logic.check_of_reachable leasing_verified h hpool
  refine {
    home := fun r hfate hnone => ?home
    free := fun f hf hidle hfate => hs.home hfate (hs.unleased_of_free hf (hs.free hidle))
    applies := fun p r pair happlying => ?applies
    installed := fun f hf => ?installed
    moved := fun r x input hfate => ?moved
    moves := fun p r change next hpool => ?moves
    commits := fun p f r change next hpool => ?commits
    refuses := fun p r change hrefuses =>
      ⟨commitChange_refused hrefuses, intoSuccessor_refused hrefuses⟩
    expects := fun p arm next hpool => (hcheck hpool).entitled }
  case home =>
    refine hs.home hfate (Option.eq_none_iff_forall_ne_some.mpr fun p hp => ?_)
    exact hnone p _ (applying_of_lease h (hs.lent r p hp).1)
  case applies =>
    have hlease := lease_of_applying h happlying
    have hlessee := hs.leased p r pair hlease
    refine ⟨hs.lease_pair hlease, hs.away hlessee, (hs.lent r p hlessee).2, fun q pair' hq => ?_⟩
    have hother := hs.leased q r pair' (lease_of_applying h hq)
    exact Option.some.inj (hother.symm.trans hlessee)
  case installed =>
    have hpresent := (hs.installed f hf).present
    cases hfate : (cfg.shared.seals (cfg.shared.fibers f).plugin).fate with
    | kept => exact .inl rfl
    | moved x input => exact .inr ⟨x, input, rfl⟩
    | unmade => exact absurd hfate hpresent.1
    | destroyed => exact absurd hfate hpresent.2
  case moved =>
    rcases hs.moved r x input hfate with ⟨hsucceeded, hemptied⟩
    have hwhole := hs.whole r
    unfold Seal.Whole at hwhole
    rw [hfate, if_neg fun hhome => nomatch hhome.1] at hwhole
    refine ⟨hwhole, hemptied, hsucceeded, fun hborne => ?_⟩
    rcases Option.ne_none_iff_exists'.mp hborne with ⟨b, hb⟩
    rcases hs.borne x b hb with ⟨hkept, hfree, hcommitted⟩
    rw [hs.home hkept hfree, Seal.pair, hcommitted, hsucceeded.behaviour, hsucceeded.first]
  case moves =>
    -- the replacer checked that the source is dead, so nobody has its pair on a lease
    rcases (hcheck hpool).entitled with ⟨f, hf, -, hfate, hcontract⟩
    have hfree := hs.unleased_of_dead hf.made hf.dead
    rw [hf.plugin] at hfree
    have hr : r < cfg.shared.nextSeal := hf.plugin ▸ (hs.installed f hf.made).made
    rw [intoSuccessor_matching hcontract (hs.home hfate hfree)]
    refine ⟨rfl, ?_, ?_⟩
    · rw [seals_setSeal_self]
    · rw [seals_setSeal_of_ne (Nat.ne_of_gt hr), seals_make_self]
      rfl
  case commits =>
    -- the update holds the slot of a fiber that is alive, so the pair is home
    rcases (hcheck hpool).entitled with ⟨hholding, hplugin, halive, hcontract⟩
    have hhome := hs.held hholding halive
    rw [hplugin] at hhome
    rw [commitChange_matching hcontract hhome]
    refine ⟨hholding.holder, rfl, ?_⟩
    rw [seals_setSeal_self]
    rfl

/-! ## A tail that gives another's slot away -/

/-- A party takes some steps with this answer of the world. -/
def turns (p : Party) (n : Nat) (choice : Choice) : List (Label Routine Choice) :=
  List.replicate n (.step p 9 choice)

/-- A spawn whose Active exit published IDLE, before its tail. -/
def publishedIdle : List (Label Routine Choice) :=
  .enter 1 (.spawn 7 (1, 2)) :: turns 1 21 {}

def settled : State :=
  (protocol.run tailIdle? publishedIdle protocol.start).get (by decide +kernel)

theorem reachable_settled : protocol.Reachable tailIdle settled :=
  Machine.Reachable.of_run protocol Machine.finds_of_finds? publishedIdle .start
    (Option.some_get _).symm

theorem housed_settled : Housed settled :=
  housed_of_reachable reachable_settled

/-- A kick wins the published slot and its pass applies; the tail of the spawn abandons that slot,
and the pass of a second kick finds no pair to take. -/
def abandonedApply : List (Label Routine Choice) :=
  publishedIdle ++ .enter 2 (.kick 0) :: turns 2 11 { answer := true, probe := .drifted } ++
  .step 2 3 {} :: turns 3 10 {} ++ turns 1 3 {} ++
  .enter 4 (.kick 0) :: turns 4 11 { answer := true, probe := .drifted } ++
  .step 4 5 {} :: turns 5 10 {}

def unhoused : State :=
  (protocol.run (fun _ _ _ _ => true) abandonedApply protocol.start).get (by decide +kernel)

theorem not_housed_unhoused : protocol.Reachable Machine.anyRun unhoused ∧
    (∃ next, unhoused.pool 5 = some (.act (.raise .applyExpect) next)) ∧ ¬ Housed unhoused := by
  have hpool : ∃ next, unhoused.pool 5 = some (.act (.raise .applyExpect) next) := ⟨_, rfl⟩
  refine ⟨Machine.Reachable.of_run protocol (fun _ _ _ _ _ => trivial) abandonedApply .start
    (Option.some_get _).symm, hpool, fun h => ?_⟩
  rcases hpool with ⟨next, hnext⟩
  exact h.expects 5 .applyExpect next hnext

end Lease
end CordisCore
