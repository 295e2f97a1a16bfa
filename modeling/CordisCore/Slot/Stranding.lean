import CordisCore.Slot.Waiters
import Mathlib.Data.List.Chain

/-!
# No stranded waiter — what holds in every run, whoever stores IDLE
-/

namespace CordisCore
namespace Slot

open Interleaving
open CordisCore.Runtime (SemanticTarget)

/-! ## Every routine is verified -/

/-- A forked task starts with nothing due. -/
theorem plain_fork (routine : Routine) : Plain (perform (.fork routine)) := by
  intro p s _ h
  refine stranding.wp_perform fun s' hk _ => ⟨(h.keeps hk).due nofun, ?_, nofun⟩
  have hclear := h.keeps hk
  refine Logic.Performs.of_fork rfl fun q c s'' r _ _ hexec _ hblank => ?_
  have hexec : exec p q c (.fork routine) s' = some (s'', r) := hexec
  have hothers : ∀ t, t ≠ p → Keeps t s' s'' := fun t ht => exec_keeps hexec ht
  cases hexec
  exact ⟨trivial, fun t ht _ => hothers t ht, hblank, hclear⟩

theorem plain_exitRecheck (settled : SemanticTarget) (revision : Nat) :
    Plain (exitRecheck settled revision) := by
  refine .bind (plain rfl) fun _ => .iterate fun revision => ?_
  refine .bind (plain rfl) fun _ => .bind (plain rfl) fun live => .bind (plain rfl) fun observed => ?_
  split
  · exact .bind (plain rfl) fun _ => .bind (plain rfl) fun _ => .bind (plain rfl) fun _ => .pure _
  · split
    · exact .pure _
    · refine .bind (plain rfl) fun _ => plain_exchange (.bind (plain rfl) fun _ => .pure _) fun word => ?_
      split
      · exact .bind (plain rfl) fun _ => .pure _
      · exact plain_panic _

theorem plain_kickClaimed : Plain kickClaimed := by
  refine .bind (plain rfl) fun revision => .bind (plain rfl) fun target => ?_
  cases target with
  | some settled =>
      refine .bind (plain_exitRecheck settled revision) fun kept => ?_
      cases kept with
      | true => exact plain_fork _
      | false => exact .pure _
  | none => exact .bind (plain rfl) fun _ => .bind (plain rfl) fun _ => plain_fork _

theorem plain_kickOnce : Plain kickOnce := by
  refine .bind (plain rfl) fun word => ?_
  split
  · exact .pure _
  · split
    · refine .bind (plain rfl) fun r => ?_
      cases r <;> exact .pure _
    · split
      · refine .bind (plain rfl) fun current => ?_
        cases current with
        | false => exact .pure _
        | true =>
            refine .bind (plain rfl) fun r => ?_
            cases r with
            | ok word => exact .bind plain_kickClaimed fun _ => .pure _
            | error word => exact .pure _
      · exact plain_panic _

theorem plain_kick : Plain kick := by
  refine .bind (plain rfl) fun alive => ?_
  cases alive with
  | false => exact .pure _
  | true =>
      refine .bind (plain rfl) fun committed => .bind (plain rfl) fun settled => ?_
      split
      · exact .iterate fun _ => plain_kickOnce
      · exact .pure _

theorem plain_initialRound : Plain initialRound := by
  refine .bind (plain rfl) fun revision => .bind (plain rfl) fun target => ?_
  split
  · refine .bind (plain rfl) fun _ => .bind (plain_exitRecheck target revision) fun kept => ?_
    cases kept <;> exact .pure _
  · refine .bind (plain rfl) fun _ => .bind (plain rfl) fun failed => ?_
    cases failed with
    | true =>
        have hteardown : Plain creationTeardown :=
          .bind (plain rfl) fun _ _ => clear_publishDisposeComplete
        exact .bind hteardown fun _ => .pure _
    | false =>
        refine .bind (plain_exitRecheck target revision) fun kept => ?_
        cases kept <;> exact .pure _

theorem plain_initialSpawnPass : Plain initialSpawnPass := by
  have hclaim : Plain claimInitial := by
    refine .bind (plain rfl) fun r => ?_
    cases r with
    | ok word => exact .pure _
    | error word => exact fun _ => clear_claim
  refine .bind hclaim fun _ => .bind (plain rfl) fun alive => ?_
  cases alive with
  | false => exact fun _ => clear_abandon
  | true =>
      refine .bind (.iterate fun _ => plain_initialRound) fun outcome => .bind (plain rfl) fun idle => ?_
      cases idle with
      | true => exact .pure _
      | false => exact fun _ => clear_abandon

theorem plain_convergencePass : Plain convergencePass := by
  refine .iterate fun _ => .bind (plain rfl) fun revision => .bind (plain rfl) fun target => ?_
  cases target with
  | none => exact plain_panic _
  | some target =>
      refine .bind (plain rfl) fun live => ?_
      split
      · exact .bind (plain rfl) fun _ => .pure _
      · refine .bind (plain_exitRecheck target revision) fun kept => ?_
        cases kept <;> exact .pure _

theorem plain_replacementPass : Plain replacementPass := by
  have hcommitted : ∀ target revision, Plain (replacementCommitted target revision) := by
    intro target revision
    refine .iterate fun round => .bind (plain_exitRecheck round.1 round.2) fun kept => ?_
    cases kept with
    | false => exact .pure _
    | true =>
        exact .bind (plain rfl) fun _ => .bind (plain rfl) fun _ => .bind (plain rfl) fun _ => .pure _
  refine .bind (fun _ => clear_claim) fun _ => .bind (plain rfl) fun alive => ?_
  cases alive with
  | false => exact fun _ => clear_abandon
  | true =>
      exact .bind (plain rfl) fun _ => .bind (plain rfl) fun _ => .bind (plain rfl) fun _ =>
        hcommitted _ _

theorem plain_completeClaimedDispose : Plain completeClaimedDispose :=
  .bind (plain rfl) fun _ => .bind (fun _ => clear_abandon) fun _ _ => clear_publishDisposeComplete

theorem plain_dispose : Plain dispose := by
  refine .bind (plain rfl) fun complete => ?_
  cases complete with
  | true => exact .pure _
  | false =>
      refine .bind (fun _ => clear_claim) fun _ => .bind (plain rfl) fun complete => ?_
      cases complete with
      | true => exact fun _ => clear_abandon
      | false =>
          refine .bind (plain rfl) fun already => ?_
          cases already with
          | true => exact .bind (fun _ => clear_abandon) fun _ _ => clear_waitDisposeComplete
          | false => exact plain_completeClaimedDispose

theorem plain_eraSwap : Plain eraSwap := by
  refine .bind (fun _ => clear_claim) fun _ => .bind (plain rfl) fun alive => ?_
  cases alive with
  | false => exact fun _ => clear_abandon
  | true =>
      refine .bind (plain rfl) fun refused => ?_
      cases refused with
      | true => exact fun _ => clear_abandon
      | false =>
          refine .bind (plain rfl) fun already => ?_
          cases already with
          | true => exact fun _ => clear_abandon
          | false => exact plain_completeClaimedDispose

theorem plain_creationInterruptedTeardown : Plain creationInterruptedTeardown := by
  refine .bind (plain rfl) fun already => ?_
  cases already with
  | true => exact fun _ => clear_waitDisposeComplete
  | false =>
      refine .bind (fun _ => clear_claim) fun _ => .bind (plain rfl) fun alive => ?_
      cases alive with
      | true => exact plain_completeClaimedDispose
      | false => exact fun _ => clear_abandon

theorem plain_code (routine : Routine) : Plain (code routine) := by
  cases routine with
  | initialSpawnPass => exact plain_initialSpawnPass
  | convergencePass => exact plain_convergencePass
  | replacementPass => exact plain_replacementPass
  | handoff =>
      exact .bind (fun _ => clear_claim) fun _ => .bind (plain rfl) fun _ _ => clear_abandon
  | dispose => exact plain_dispose
  | eraSwap => exact plain_eraSwap
  | creationInterruptedTeardown => exact plain_creationInterruptedTeardown
  | publishDisposeComplete => exact fun _ => clear_publishDisposeComplete
  | waitIdle => exact fun _ => clear_waitIdle
  | waitDisposeComplete => exact fun _ => clear_waitDisposeComplete
  | commitRecheck => exact plain rfl
  | kick => exact plain_kick

theorem stranding_verified : stranding.Verified where
  grounded _ _ _ _ _ := trivial
  init := trivial
  vacant _ := ⟨fun cell => by cases cell <;> exact List.not_mem_nil, rfl⟩
  body routine p s hs h :=
    stranding.wp_seq hs (plain_code routine p s hs h) fun _ _ _ h' => h'
  enter p routine s s' _ hblank henter := by
    simp only [protocol, Option.ite_none_right_eq_some, Option.some.injEq] at henter
    rcases henter with ⟨-, rfl⟩
    exact ⟨trivial, fun t _ => .refl t s, hblank⟩

/-! ## One claim for each release -/

def SlotEvent.isAcquired : SlotEvent → Bool
  | acquired _ => true
  | released _ => false

/-- Between two acquisitions there is a release, and the idle slot was released last. -/
structure Alternates (s : InertiaSlot) : Prop where
  log : s.trace.log.IsChain fun newer older => ¬ (newer.isAcquired = true ∧ older.isAcquired = true)
  idle : s.inertia = INERTIA_IDLE → ∀ event ∈ s.trace.log.head?, event.isAcquired = false

theorem alternates_release {p : Party} {s : InertiaSlot} (h : Alternates s) :
    Alternates (s.release p) := by
  refine ⟨List.isChain_cons.mpr ⟨fun _ _ hboth => ?_, h.log⟩, fun _ event hevent => ?_⟩
  · cases hboth.1
  · cases hevent
    rfl

theorem alternates_acquire {p : Party} {s : InertiaSlot} (h : Alternates s)
    (hidle : s.inertia = INERTIA_IDLE) : Alternates (s.acquire p) := by
  refine ⟨List.isChain_cons.mpr ⟨fun older holder hboth => ?_, h.log⟩, nofun⟩
  have hreleased := h.idle hidle older holder
  rw [hboth.2] at hreleased
  cases hreleased

theorem exec_alternates {p q : Party} {c : Choice} {op : Op} {s s' : InertiaSlot} {r : op.Ret}
    (h : Alternates s) (hexec : exec p q c op s = some (s', r)) : Alternates s' := by
  -- what neither logs nor frees the slot keeps the alternation
  have hsame : ∀ {s' : InertiaSlot}, s'.trace.log = s.trace.log →
      (s'.inertia = INERTIA_IDLE → s.inertia = INERTIA_IDLE) → Alternates s' := by
    intro s' hlog hidle
    exact ⟨by rw [hlog]; exact h.log, fun hi => by rw [hlog]; exact h.idle (hidle hi)⟩
  cases op with
  | claim =>
      simp only [exec] at hexec
      split at hexec
      · rename_i hidle
        cases hexec
        exact alternates_acquire h hidle
      · cases hexec
        exact hsame rfl id
  | compareExchange expected new =>
      have hout : s.compareExchange p expected new = (s', r) := Option.some.inj hexec
      obtain rfl : (s.compareExchange p expected new).1 = s' := congrArg Prod.fst hout
      unfold InertiaSlot.compareExchange
      split
      · rename_i hword
        split
        -- a release exchange logs the holder as it goes
        · have hrelease := alternates_release (p := p) h
          exact ⟨hrelease.log, hrelease.idle⟩
        · split
          · rename_i hexpected
            exact alternates_acquire h (hword.trans hexpected)
          · exact hsame rfl (by rintro ⟨⟩)
      · exact h
  | abandon =>
      cases hexec
      exact alternates_release h
  | storeActive | storeReleasing =>
      cases hexec
      exact hsame rfl (by rintro ⟨⟩)
  | notified cell | discard cell | notifyWaiters cell =>
      cases hexec
      cases cell <;> exact hsame rfl id
  | awaitNotified cell =>
      simp only [exec, Option.ite_none_right_eq_some, Option.some.injEq] at hexec
      rcases hexec with ⟨-, hout⟩
      cases hout
      cases cell <;> exact hsame rfl id
  | panic arm => cases hexec
  | load | probeIdle | commitRecheck | recheckRevision | loadSettled | storeSettled | computeTarget
  | readTarget | recordTarget | markPendingIfUntouched | pinInactive | disposeComplete
  | completeDispose | isAlive | applyFailed | tryCurrent | claimTerminal | refused | enterRecheck
  | verdict | fork =>
      cases hexec
      exact hsame rfl id

/-! ## No stranded waiter -/

/-- What every state promises to its waiters. -/
structure Unstranded (cfg : State) : Prop where
  /-- Unless a release is between its store and its broadcast, a parked waiter that is not woken
  has something to wait for. -/
  parked : ∀ p cell next, cfg.pool p = some (.act (.awaitNotified cell) next) →
    ∃ awake, (cfg.shared.notify cell).futures p = some awake ∧
      (awake = false → cfg.shared.owing cell = [] → cfg.shared.free cell = false)
  /-- A parked waiter that is woken goes on when it is polled. -/
  woken : ∀ p cell next, cfg.pool p = some (.act (.awaitNotified cell) next) →
    (cfg.shared.notify cell).woken p = true →
      ∀ choice, ∃ cfg', protocol.step cfg (.step p p choice) = some cfg'
  /-- Whoever is between a store and its broadcast broadcasts next. -/
  broadcast : ∀ p op next cell, cfg.pool p = some (.act op next) → p ∈ cfg.shared.owing cell →
    op = .notifyWaiters cell
  /-- Of the claimants after one release one acquires the slot at most. -/
  alternates : Alternates cfg.shared
  /-- A claimant that lost waits next, and has not returned. -/
  loser : ∀ p, cfg.shared.trace.lost p = true →
    (∀ op next, cfg.pool p = some (.act op next) → op = .awaitNotified .done) ∧
      ∀ a, cfg.pool p ≠ some (.pure a)
  /-- Dropping a waiter leaves the futures and the code of the others alone. -/
  drop : ∀ p cfg', protocol.step cfg (.drop p) = some cfg' → ∀ q, q ≠ p →
    cfg'.pool q = cfg.pool q ∧
      ∀ cell, (cfg'.shared.notify cell).futures q = (cfg.shared.notify cell).futures q

theorem unstranded_of_reachable {cfg : State} (h : protocol.Reachable Machine.anyRun cfg) :
    Unstranded cfg where
  parked p cell next hp := by
    have hdue : Due p (.awaitNotified cell) cfg.shared :=
      Logic.check_of_reachable stranding_verified h hp
    rcases hdue.parked cell rfl with ⟨awake, hawake, hmiss⟩
    refine ⟨awake, hawake, fun hfalse hnone => ?_⟩
    cases hfree : cfg.shared.free cell with
    | false => rfl
    | true => exact absurd hnone (hmiss hfalse hfree)
  woken p cell next hp hwoken choice := by
    simp only [Machine.step, hp, protocol, exec, hwoken, if_true, Option.map_some]
    exact ⟨_, rfl⟩
  broadcast p op next cell hp hmem :=
    (Logic.check_of_reachable stranding_verified h hp).broadcast cell hmem
  alternates := by
    refine Machine.Reachable.invariant protocol ⟨.nil, by rintro _ _ ⟨⟩⟩ (fun hs hexec =>
      exec_alternates hs hexec) (fun hs henter => ?_) (fun hs hdrop => ?_) h
    · simp only [protocol, Option.ite_none_right_eq_some, Option.some.injEq] at henter
      rcases henter with ⟨-, rfl⟩
      exact hs
    · cases hdrop
      exact ⟨hs.log, hs.idle⟩
  loser p hlost := by
    refine ⟨fun op next hp => ?_, fun a hp => ?_⟩
    · exact (Logic.check_of_reachable stranding_verified h hp).wait hlost
    · have hclear : Clear p cfg.shared := Logic.post_of_reachable stranding_verified h hp
      rw [hclear.2] at hlost
      cases hlost
  drop p cfg' hstep q hq := by
    have hpool := Machine.pool_of_step protocol hstep (p := q) (by simpa [Machine.parties] using hq)
    refine ⟨hpool, fun cell => ?_⟩
    cases Machine.changes_of_step protocol hstep with
    | dropped hdropped =>
        simp only [protocol, Option.some.injEq, Prod.mk.injEq] at hdropped
        rcases hdropped with ⟨hdiscard, -⟩
        rw [← hdiscard]
        cases cell <;> exact Notify.discard_of_ne hq

/-! ## Two claimants at one release -/

/-- The second claimant parks, the first one is dropped, the holder lets go. -/
def survivingClaimant : Labels :=
  .enter 1 .handoff :: turns 1 5 yes ++ .enter 2 .handoff :: .enter 3 .handoff :: turns 2 3 yes ++
    turns 3 3 yes ++ .drop 2 :: turns 1 2 yes

def surviving : State :=
  (protocol.run (fun _ _ _ _ => true) survivingClaimant protocol.start).get (by decide +kernel)

theorem reachable_surviving : protocol.Reachable Machine.anyRun surviving :=
  Machine.Reachable.of_run protocol (fun _ _ _ _ _ => trivial) survivingClaimant .start
    (Option.some_get _).symm

theorem unstranded_surviving : surviving.shared.done.woken 3 = true ∧ Unstranded surviving :=
  ⟨by decide +kernel, unstranded_of_reachable reachable_surviving⟩

end Slot
end CordisCore
