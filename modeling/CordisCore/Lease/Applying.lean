import CordisCore.Interleaving.Prompt
import CordisCore.Lease.Creation

/-!
# Applying — whoever has a pair on a lease is in its apply

A lease begins with a take and ends with its drop, and no loop of the code begins or
repeats in between.
-/

namespace CordisCore
namespace Lease

open Interleaving
open Interleaving.Program (Built Prompt iterate)
open CordisCore.Runtime (ApplyOutcome Contract FiberId FiberState Inertia Input)

variable {p q t : Party} {f : FiberId} {r : SealId} {pair : Pair} {change : Change} {s s' : Root}

/-! ## What operations do to leases -/

/-- The operations that leave a pair on a lease. -/
def lends : Op → Bool
  | .take _ | .apply _ _ => true
  | _ => false

/-- Only takes and drops of leases do anything to leases. -/
theorem lease_exec {choice : Choice} {op : Op} {ret : op.Ret}
    (h : exec p q choice op s = some (s', ret)) :
    s'.lease = s.lease ∨ (∃ r, op = .take r ∧ ∀ t, t ≠ p → s'.lease t = s.lease t) ∨
      ∃ r pair, op = .replace r pair ∧ s'.lease p = none ∧ ∀ t, t ≠ p → s'.lease t = s.lease t := by
  cases op with
  | take r =>
      refine .inr (.inl ⟨r, rfl, fun t ht => ?_⟩)
      have hs' : (s.take p r).1 = s' := congrArg Prod.fst (Option.some.inj h)
      rw [← hs']
      unfold Root.take
      cases (s.seals r).plugin.take with
      | mk plugin taken =>
          cases taken with
          | none => rfl
          | some pair => exact lease_setLease_of_ne ht
  | replace r pair =>
      cases h
      exact .inr (.inr ⟨r, pair, rfl, lease_setLease_self, fun t ht => lease_setLease_of_ne ht⟩)
  | commitChange f r change =>
      have hs' : (s.commitChange r change).1 = s' := congrArg Prod.fst (Option.some.inj h)
      refine .inl ?_
      rw [← hs']
      unfold Root.commitChange
      cases (s.seals r).plugin.swapInput change with
      | mk plugin answer => cases answer <;> rfl
  | intoSuccessor r change =>
      have hs' : (s.intoSuccessor p r change).1 = s' := congrArg Prod.fst (Option.some.inj h)
      refine .inl ?_
      rw [← hs']
      unfold Root.intoSuccessor
      cases (s.seals r).plugin.intoSuccessor change with
      | mk plugin answer => cases answer <;> rfl
  | claim | tryClaim | reclaim | exchangeIdle | waitDisposeComplete | dropSuperseded =>
      simp only [exec] at h
      split at h <;> cases h <;> exact .inl rfl
  | _ =>
      cases h
      exact .inl rfl

/-! ## No loop head inside an apply -/

/-- The only code that takes a pair. -/
inductive Block : (α : Type) → Prog α → Prop where
  | applyBoxed (r : SealId) : Block ApplyOutcome (applyBoxed r)

abbrev Sheltered {α : Type} (x : Prog α) : Prop :=
  x.Built (fun op => ¬ lends op = true) Block

theorem prompt_dropLease : Prompt (fun op => lends op = true) (dropLease r pair) := by
  refine .bind (.perform nofun) fun replaced => ?_
  cases replaced with
  | none => exact .pure _
  | some _ => exact .perform nofun

theorem prompt_applyBoxed : Prompt (fun op => lends op = true) (applyBoxed r) := by
  refine ⟨fun _ taken => ?_, fun taken => ?_⟩
  · cases taken <;> nofun
  · cases taken with
    | none => exact ⟨nofun, fun _ => trivial⟩
    | some pair =>
        refine ⟨fun _ _ => nofun, fun outcome => ?_⟩
        exact prompt_dropLease.bind fun _ => .pure outcome

theorem op_sheltered {op : Op} (h : lends op = false) : Sheltered (perform op) :=
  .op fun hlends => by cases h.symm.trans hlends

theorem exitRecheck_sheltered : Sheltered (exitRecheck f) := by
  refine .iterate fun _ => .bind (op_sheltered rfl) fun _ => .bind (op_sheltered rfl) fun found => ?_
  cases found with
  | drifted => exact .bind (op_sheltered rfl) fun _ => .pure _
  | revised => exact .pure _
  | settled =>
      refine .bind (op_sheltered rfl) fun answer => ?_
      cases answer with
      | ok => exact .pure _
      | error word =>
          cases word with
          | active => exact .pure _
          | idle | releasing => exact .bind (op_sheltered rfl) fun _ => .pure _

theorem settleOnce_sheltered {missing owns : Bool} : Sheltered (settleOnce f missing owns) := by
  have hunload : Sheltered (unload f) := .bind (op_sheltered rfl) fun _ => op_sheltered rfl
  have happly : Sheltered (applyOnce f) := by
    refine .bind (op_sheltered rfl) fun r => .bind (op_sheltered rfl) fun _ =>
      .bind (.block (.applyBoxed r)) fun outcome => .bind (op_sheltered rfl) fun _ => ?_
    cases outcome with
    | succeeded => exact op_sheltered rfl
    | returned _ | panicked _ => exact .bind hunload fun _ => op_sheltered rfl
  refine .bind (op_sheltered rfl) fun alive => ?_
  cases alive with
  | false => exact .pure _
  | true =>
      have hlive : Sheltered (unloadLive f) := by
        refine .bind (op_sheltered rfl) fun current => ?_
        cases current with
        | active | failed | loading => exact hunload
        | pending | unloading | disposed => exact .pure _
      refine .bind hlive fun _ => ?_
      cases missing with
      | true => exact op_sheltered rfl
      | false =>
          have hleaves : Sheltered (leavesFirstApply f owns) := by
            cases owns with
            | true => exact .pure _
            | false => exact op_sheltered rfl
          refine .bind hleaves fun leaves => ?_
          cases leaves with
          | true => exact .pure _
          | false => exact happly

theorem teardownBody_sheltered : Sheltered (teardownBody f) := by
  refine .bind (op_sheltered rfl) fun _ => .bind (op_sheltered rfl) fun current => ?_
  split
  · exact .pure _
  · exact .bind (op_sheltered rfl) fun _ => .bind (op_sheltered rfl) fun _ =>
      .bind (op_sheltered rfl) fun _ => op_sheltered rfl

theorem completeClaimedDispose_sheltered : Sheltered (completeClaimedDispose f) :=
  .bind teardownBody_sheltered fun _ => .bind (op_sheltered rfl) fun _ => op_sheltered rfl

/-! ### Creation -/

theorem creationInterruptedTeardown_sheltered : Sheltered (creationInterruptedTeardown f) := by
  refine .bind (op_sheltered rfl) fun owned => ?_
  cases owned with
  | true => exact .bind (op_sheltered rfl) fun _ => completeClaimedDispose_sheltered
  | false =>
      refine .bind (op_sheltered rfl) fun disposing => ?_
      cases disposing with
      | true => exact op_sheltered rfl
      | false =>
          refine .bind (op_sheltered rfl) fun _ => .bind (op_sheltered rfl) fun alive => ?_
          cases alive with
          | true => exact completeClaimedDispose_sheltered
          | false => exact op_sheltered rfl

theorem initialRound_sheltered : Sheltered (initialRound f) := by
  have hexit : ∀ outcome : InitialOutcome, Sheltered (do
      if ← exitRecheck f then pure (.inl ()) else pure (.inr outcome) :
        Prog (Unit ⊕ InitialOutcome)) := by
    intro outcome
    refine .bind exitRecheck_sheltered fun kept => ?_
    cases kept <;> exact .pure _
  refine .bind (op_sheltered rfl) fun missing => .bind settleOnce_sheltered fun _ => ?_
  cases missing with
  | true => exact hexit .pending
  | false =>
      refine .bind (op_sheltered rfl) fun current => ?_
      split
      · exact .bind (.bind (op_sheltered rfl) fun _ => .bind teardownBody_sheltered fun _ =>
          op_sheltered rfl) fun _ => .pure _
      · exact hexit .active

theorem initialSpawnPass_sheltered : Sheltered (initialSpawnPass f) := by
  have hclaim : Sheltered (claimInitial f) := by
    refine .bind (op_sheltered rfl) fun won => ?_
    cases won with
    | true => exact .pure _
    | false => exact op_sheltered rfl
  refine .bind hclaim fun _ => .bind (op_sheltered rfl) fun alive => ?_
  cases alive with
  | false => exact .bind (op_sheltered rfl) fun _ => .pure _
  | true =>
      refine .bind (op_sheltered rfl) fun _ => .bind (.iterate fun _ => initialRound_sheltered)
        fun outcome => .bind (op_sheltered rfl) fun _ => .bind (op_sheltered rfl) fun idle => ?_
      cases idle with
      | true => exact .pure _
      | false => exact .bind (op_sheltered rfl) fun _ => .pure _

theorem spawnPreparedInner_sheltered : Sheltered (spawnPreparedInner r) := by
  refine .bind (op_sheltered rfl) fun f => .bind initialSpawnPass_sheltered fun outcome =>
    .bind ?_ fun _ => op_sheltered rfl
  have hhandoff : Sheltered (handoff f) := by
    refine .bind (op_sheltered rfl) fun _ => .bind (op_sheltered rfl) fun alive =>
      .bind (op_sheltered rfl) fun _ => ?_
    cases alive with
    | true => exact op_sheltered rfl
    | false => exact .pure _
  cases outcome with
  | active | pending => exact hhandoff
  | failed | interrupted => exact .pure _

/-! ### Passes -/

theorem convergencePass_sheltered : Sheltered (convergencePass f) := by
  refine .iterate fun _ => .bind (op_sheltered rfl) fun _ => .bind settleOnce_sheltered fun _ =>
    .bind (op_sheltered rfl) fun drifted => ?_
  cases drifted with
  | true => exact .pure _
  | false =>
      refine .bind exitRecheck_sheltered fun kept => ?_
      cases kept <;> exact .pure _

theorem replacementCommitted_sheltered : Sheltered (replacementCommitted f) := by
  refine .iterate fun _ => .bind (op_sheltered rfl) fun _ => .bind settleOnce_sheltered fun _ =>
    .bind exitRecheck_sheltered fun kept => ?_
  cases kept <;> exact .pure _

theorem kick_sheltered : Sheltered (kick f) := by
  have hclaimed : Sheltered (kickClaimed f) := by
    refine .bind (op_sheltered rfl) fun recorded => ?_
    cases recorded with
    | false => exact op_sheltered rfl
    | true =>
        refine .bind exitRecheck_sheltered fun kept => ?_
        cases kept with
        | true => exact op_sheltered rfl
        | false => exact .pure _
  have honce : Sheltered (kickOnce f) := by
    refine .bind (op_sheltered rfl) fun word => ?_
    cases word with
    | active => exact .pure _
    | releasing =>
        refine .bind (op_sheltered rfl) fun won => ?_
        cases won <;> exact .pure _
    | idle =>
        refine .bind (op_sheltered rfl) fun runtime => ?_
        cases runtime with
        | false => exact .pure _
        | true =>
            refine .bind (op_sheltered rfl) fun won => ?_
            cases won with
            | false => exact .pure _
            | true => exact .bind hclaimed fun _ => .pure _
  refine .bind (op_sheltered rfl) fun alive => ?_
  cases alive with
  | false => exact .pure _
  | true =>
      refine .bind (op_sheltered rfl) fun committed => ?_
      cases committed with
      | false => exact .pure _
      | true => exact .iterate fun _ => honce

theorem restartPass_sheltered : Sheltered (restartPass f) := by
  refine .bind (op_sheltered rfl) fun _ => .bind (op_sheltered rfl) fun alive => ?_
  cases alive <;> exact op_sheltered rfl

theorem update_sheltered : Sheltered (update f change) := by
  have hpass : Sheltered (updatePass f change) := by
    refine .bind (op_sheltered rfl) fun _ => .bind (op_sheltered rfl) fun alive => ?_
    cases alive with
    | false => exact op_sheltered rfl
    | true =>
        refine .bind (op_sheltered rfl) fun r => .bind (op_sheltered rfl) fun answer => ?_
        cases answer <;> exact op_sheltered rfl
  refine .bind (op_sheltered rfl) fun alive => ?_
  cases alive with
  | false => exact .pure _
  | true =>
      refine .bind (op_sheltered rfl) fun contract => ?_
      split
      · refine .bind (op_sheltered rfl) fun accepted => ?_
        cases accepted with
        | true => exact hpass
        | false => exact .pure _
      · exact .pure _

theorem eraSwap_sheltered : Sheltered (eraSwap f change) := by
  have hclaim : Sheltered (eraClaim f change) := by
    refine .bind (op_sheltered rfl) fun r => .bind (op_sheltered rfl) fun _ =>
      .bind (op_sheltered rfl) fun alive => ?_
    cases alive with
    | false => exact op_sheltered rfl
    | true =>
        refine .bind (op_sheltered rfl) fun recursive => ?_
        cases recursive with
        | true => exact op_sheltered rfl
        | false =>
            refine .bind (op_sheltered rfl) fun disposing => ?_
            cases disposing <;> exact op_sheltered rfl
  refine .bind (op_sheltered rfl) fun alive => ?_
  cases alive with
  | false => exact .pure _
  | true =>
      refine .bind (op_sheltered rfl) fun disposing => ?_
      cases disposing with
      | true => exact .pure _
      | false =>
          refine .bind (op_sheltered rfl) fun contract => ?_
          split
          · exact hclaim
          · exact .pure _

theorem dispose_sheltered : Sheltered (dispose f) := by
  refine .bind (op_sheltered rfl) fun complete => ?_
  cases complete with
  | true => exact .pure _
  | false =>
      refine .bind (op_sheltered rfl) fun _ => .bind (op_sheltered rfl) fun complete => ?_
      cases complete with
      | true => exact op_sheltered rfl
      | false =>
          refine .bind (op_sheltered rfl) fun disposing => ?_
          cases disposing with
          | true => exact .bind (op_sheltered rfl) fun _ => op_sheltered rfl
          | false => exact op_sheltered rfl

theorem runCommittedReplacement_sheltered : Sheltered (runCommittedReplacement f r change) := by
  refine .bind completeClaimedDispose_sheltered fun _ => .bind (op_sheltered rfl) fun answer => ?_
  cases answer with
  | error _ => exact op_sheltered rfl
  | ok successor =>
      refine .bind (op_sheltered rfl) fun panicked => ?_
      cases panicked with
      | true => exact .pure _
      | false => exact spawnPreparedInner_sheltered

theorem unwind_sheltered {lease : Option (SealId × Pair)} {guard : Option FiberId} :
    Sheltered (unwind lease guard) := by
  have hlease : Sheltered (returnLease lease) := by
    cases lease with
    | none => exact .pure _
    | some lease =>
        refine .bind (op_sheltered rfl) fun replaced => ?_
        cases replaced with
        | none => exact .pure _
        | some _ => exact op_sheltered rfl
  refine .bind hlease fun _ => ?_
  cases guard with
  | none => exact .pure _
  | some f => exact creationInterruptedTeardown_sheltered

theorem code_sheltered (routine : Routine) : Sheltered (code routine) := by
  cases routine with
  | spawn => exact .bind (op_sheltered rfl) fun _ => spawnPreparedInner_sheltered
  | kick => exact kick_sheltered
  | restart => exact restartPass_sheltered
  | update => exact update_sheltered
  | eraSwap => exact eraSwap_sheltered
  | dispose => exact dispose_sheltered
  | convergencePass => exact convergencePass_sheltered
  | replacementCommitted => exact replacementCommitted_sheltered
  | completeClaimedDispose => exact completeClaimedDispose_sheltered
  | runCommittedReplacement => exact runCommittedReplacement_sheltered
  | unwind => exact unwind_sheltered

/-! ## Leases in the pool -/

theorem engages_lease : leasing.Engages (fun op => lends op = true) fun p s => s.lease p ≠ none where
  prompt routine := by
    have hbody : Sheltered (protocol.body routine) := .bind (code_sheltered routine) fun _ => .pure _
    refine Prompt.of_built (fun hx => ?_) hbody
    cases hx
    exact prompt_applyBoxed
  own {p q choice op s s' r} _ hcheck hexec hbusy := by
    have hdue : Due p op s := hcheck
    rcases lease_exec hexec with hsame | ⟨r, rfl, -⟩ | ⟨r, pair, rfl, hnone, -⟩
    · rw [hsame] at hbusy
      rcases Option.ne_none_iff_exists'.mp hbusy with ⟨⟨r, pair⟩, hlease⟩
      rcases hdue.applies r pair hlease with rfl | rfl
      · rfl
      · cases hexec
        exact absurd lease_setLease_self (hsame ▸ hbusy)
    · rfl
    · exact absurd hnone hbusy
  others {p q choice op s s' r t} hexec ht hbusy := by
    have hlease : s'.lease t = s.lease t := by
      rcases lease_exec hexec with hsame | ⟨r, -, hsame⟩ | ⟨r, pair, -, -, hsame⟩
      · rw [hsame]
      · exact hsame t ht
      · exact hsame t ht
    rwa [hlease] at hbusy
  blank h hbusy := hbusy h.lease
  enter {p routine s s' t} henter hbusy := by
    cases routine with
    | spawn =>
        cases henter
        exact hbusy
    | kick | restart | update | eraSwap | dispose =>
        simp only [protocol, enter] at henter
        split at henter
        · cases henter
          exact hbusy
        · cases henter
    | convergencePass | replacementCommitted | completeClaimedDispose | runCommittedReplacement
    | unwind => cases henter
  dropped hdrop hbusy := by
    cases hdrop
    exact hbusy
  unwound {p s s' next} hdrop hbusy := by
    cases hdrop
    rcases Option.ne_none_iff_exists'.mp hbusy with ⟨⟨r, pair⟩, hlease⟩
    refine ⟨.unwind (some (r, pair)) (s.guard p), ?_, by rintro ⟨⟩⟩
    rw [hlease, if_neg fun hbare => by cases hbare.1]

/-- A party runs an apply of this seal, or ends one. -/
def Applying (cfg : State) (p : Party) (r : SealId) (pair : Pair) : Prop :=
  ∃ op next, cfg.pool p = some (.act op next) ∧ (op = .apply r pair ∨ op = .replace r pair)

theorem applying_of_lease {cfg : State} (h : protocol.Reachable tailIdle cfg)
    (hlease : cfg.shared.lease p = some (r, pair)) : Applying cfg p r pair := by
  rcases (Logic.engaged_of_reachable leasing_verified engages_lease h).busy p
    (by rw [hlease]; nofun) with ⟨op, next, hpool⟩
  have hdue : Due p op cfg.shared := Logic.check_of_reachable leasing_verified h hpool
  exact ⟨op, next, hpool, hdue.applies r pair hlease⟩

theorem lease_of_applying {cfg : State} (h : protocol.Reachable tailIdle cfg)
    (happlying : Applying cfg p r pair) : cfg.shared.lease p = some (r, pair) := by
  rcases happlying with ⟨op, next, hpool, hop⟩
  have hdue : Due p op cfg.shared := Logic.check_of_reachable leasing_verified h hpool
  rcases hop with rfl | rfl
  · exact hdue.entitled
  · exact hdue.entitled

end Lease
end CordisCore
