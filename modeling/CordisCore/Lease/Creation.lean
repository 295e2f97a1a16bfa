import CordisCore.Lease.Passes

/-!
# Creation — spawns, and what a dropped future leaves to its destructors

The creation guard of a spawn inherits the slot only while the initial pass holds it.
-/

namespace CordisCore
namespace Lease

open Interleaving
open Interleaving.Program (iterate)
open CordisCore.Runtime (Contract FiberId FiberState Inertia Input)

variable {p q : Party} {f : FiberId} {r : SealId} {pair : Pair} {change : Change} {s s' : Root}
  {c : Role}

/-! ## Carrying a seal -/

/-- A party about nothing carries a seal to the Fiber it is made for. -/
structure Carries (p : Party) (r : SealId) (s : Root) : Prop extends Idle p s where
  bearer : (s.seals r).bearer = some p

theorem Carries.keeps (h : Carries p r s) (hk : Keeps p s s') : Carries p r s' :=
  ⟨h.toIdle.keeps hk, hk.borne r h.bearer ▸ h.bearer⟩

theorem wp_fromInput {contract : Contract} (h : Idle p s) :
    leasing.wp p (perform (.fromInput contract pair)) (fun r s' => Carries p r s') s := by
  refine wp_op rfl rfl (fun s' hk _ => due_of_free (h.keeps hk).lease trivial)
    fun s' u choice s'' ret hk _ _ heq _ => ?_
  have h' := h.keeps hk
  cases heq
  exact ⟨⟨h'.lease, h'.guard⟩, congrArg Seal.bearer seals_make_self⟩

/-- The seal is in its Fiber, and the guard is armed. -/
theorem wp_create (h : Carries p r s) : leasing.wp p (perform (.create r))
    (fun f s' => Free { guard := some (f, false) } p f s') s := by
  refine wp_op rfl rfl (fun s' hk _ => due_of_free (h.keeps hk).lease (h.keeps hk).bearer)
    fun s' u choice s'' ret hk _ _ heq _ => ?_
  have h' := h.keeps hk
  cases heq
  have hself : (s'.create p r).1.fibers s'.nextFiber =
      { plugin := r, contract := (s'.seals r).plugin.contract, creator := some p } := if_pos rfl
  refine ⟨⟨Nat.lt_succ_self _, guard_setGuard_self, fun g owned hg => ?_, nofun⟩, h'.lease⟩
  cases hg
  exact ⟨congrArg Fiber.creator hself, congrArg Fiber.creationOwned hself⟩

/-! ## The initial pass -/

/-- The guard of a party that created this Fiber. -/
abbrev guarding (f : FiberId) (owned : Bool) : Role :=
  { guard := some (f, owned) }

theorem guarding_at {owned : Bool} : (guarding f owned).At f := by
  rintro g hg
  cases hg
  rfl

theorem guarding_away : (guarding f false).Away := by
  rintro g hg
  cases hg

/-- The creation word tells the guard whether it inherits the slot. -/
theorem Free.own {owned : Bool} (h : Free (guarding f owned) p f s) (next : Bool) :
    Free (guarding f next) p f (s.setFiber f fun u => { u with creationOwned := next }) := by
  refine ⟨⟨h.made, h.guard, fun g owned' hg => ?_, nofun⟩, h.lease⟩
  cases hg
  have hcreator := (h.owned f owned rfl).1
  rw [fibers_setFiber_self]
  exact ⟨hcreator, rfl⟩

theorem Holds.own {owned : Bool} (h : Holds (guarding f owned) p f s) (next : Bool) :
    Holds (guarding f next) p f (s.setFiber f fun u => { u with creationOwned := next }) :=
  ⟨h.toFree.own next, (setFiber_same Fiber.holder rfl f).trans h.holder⟩

/-- What the rounds of an initial pass leave to its tail. -/
def Exits (c : Role) (p : Party) (f : FiberId) (released : Bool) (s : Root) : Prop :=
  if released then Free c p f s else Holds c p f s

theorem Exits.free {released : Bool} (h : Exits c p f released s) : Free c p f s := by
  cases released with
  | true => exact h
  | false => exact Holds.toFree h

theorem Exits.keeps {released : Bool} (h : Exits c p f released s) (hk : Keeps p s s') :
    Exits c p f released s' := by
  cases released with
  | true => exact Free.keeps hk h
  | false => exact Holds.keeps hk h

theorem wp_claimInitial (hs : Sound s) (h : Free c p f s) (hc : c.Away) :
    leasing.wp p (claimInitial f) (fun _ s' => Holds c p f s') s := by
  refine leasing.wp_seq hs (wp_tryClaim h) fun won s₁ hs₁ h₁ => ?_
  cases won with
  | true => exact h₁
  | false => exact wp_claim hs₁ h₁ hc

theorem wp_initialRound (hs : Sound s) (h : Holds c p f s) (hc : c.At f) :
    leasing.wp p (initialRound f) (fun out s' => match out with
      | .inl () => Holds c p f s'
      | .inr outcome => Exits c p f outcome.released s') s := by
  have hexit : ∀ {s} {outcome : InitialOutcome}, outcome.released = true → Sound s → Holds c p f s →
      leasing.wp p (do if ← exitRecheck f then pure (.inl ()) else pure (.inr outcome) : Prog (Unit ⊕ InitialOutcome))
        (fun out s' => match out with
          | .inl () => Holds c p f s'
          | .inr outcome => Exits c p f outcome.released s') s := by
    intro s outcome hreleased hs h
    refine leasing.wp_seq hs (wp_exitRecheck h) fun kept s₁ hs₁ h₁ => ?_
    cases kept with
    | true => exact h₁
    | false =>
        show Exits c p f outcome.released s₁
        rw [hreleased]
        exact h₁
  refine leasing.wp_seq hs (wp_ask steady_holds h) fun missing s₁ hs₁ h₁ => ?_
  refine leasing.wp_seq hs₁ (wp_settleOnce hs₁ h₁ hc) fun _ s₂ hs₂ h₂ => ?_
  cases missing with
  | true => exact hexit rfl hs₂ h₂
  | false =>
      refine leasing.wp_seq hs₂ (wp_state steady_holds h₂) fun current s₃ hs₃ h₃ => ?_
      by_cases hfailed : current = .failed
      · rw [if_pos hfailed]
        exact leasing.wp_seq hs₃ (wp_creationTeardown hs₃ h₃.1 hc) fun _ _ _ h₄ => h₄
      · rw [if_neg hfailed]
        exact hexit rfl hs₃ h₃.1

/-- A tail that reads a released slot reads IDLE, so it abandons only what it holds. -/
theorem wp_isIdle {released : Bool} (h : Exits c p f released s) :
    leasing.wp p (perform (.isIdle f released))
      (fun idle s' => if idle then Free c p f s' else Holds c p f s') s := by
  refine wp_op rfl rfl (fun s' hk _ => due_of_free (h.keeps hk).free.lease trivial)
    fun s' u choice s'' ret hk _ htail heq _ => ?_
  have h' := h.keeps hk
  cases heq
  cases released with
  | true =>
      rw [decide_eq_true (htail f rfl)]
      exact h'
  | false =>
      cases hidle : decide ((s'.fibers f).inertia = .idle) with
      | true => exact h'.free
      | false => exact h'

theorem wp_releaseInitial {outcome : InitialOutcome} (hs : Sound s)
    (h : Exits (guarding f true) p f outcome.released s) :
    leasing.wp p (releaseInitial f outcome) (fun _ s' => Free (guarding f false) p f s') s := by
  have hdisown : leasing.wp p (perform (.setCreationOwned f false))
      (fun _ s' => Exits (guarding f false) p f outcome.released s') s := by
    refine wp_op rfl rfl (fun s' hk _ => due_of_free (h.keeps hk).free.lease
      ((h.keeps hk).free.owned f true rfl).1) fun s' u choice s'' ret hk _ _ heq _ => ?_
    have h' := h.keeps hk
    cases heq
    cases hreleased : outcome.released with
    | true => exact h'.free.own false
    | false =>
        rw [hreleased] at h'
        exact Holds.own h' false
  refine leasing.wp_seq hs hdisown fun _ s₁ hs₁ h₁ => ?_
  refine leasing.wp_seq hs₁ (wp_isIdle h₁) fun idle s₂ hs₂ h₂ => ?_
  cases idle with
  | true => exact h₂
  | false => exact leasing.wp_seq hs₂ (wp_abandon h₂) fun _ _ _ h₃ => h₃

theorem wp_initialSpawnPass (hs : Sound s) (h : Free (guarding f false) p f s) :
    leasing.wp p (initialSpawnPass f) (fun _ s' => Free (guarding f false) p f s') s := by
  refine leasing.wp_seq hs (wp_claimInitial hs h guarding_away) fun _ s₁ hs₁ h₁ => ?_
  refine leasing.wp_seq hs₁ (wp_isAlive steady_holds h₁) fun alive s₂ hs₂ h₂ => ?_
  cases alive with
  | false => exact leasing.wp_seq hs₂ (wp_abandon h₂.1) fun _ _ _ h₃ => h₃
  | true =>
      have hown : leasing.wp p (perform (.setCreationOwned f true))
          (fun _ s' => Holds (guarding f true) p f s') s₂ := by
        refine wp_op rfl rfl (fun s' hk _ => due_of_free (h₂.1.keeps hk).lease
          ((h₂.1.keeps hk).owned f false rfl).1) fun s' u choice s'' ret hk _ _ heq _ => ?_
        have h' := h₂.1.keeps hk
        cases heq
        exact h'.own true
      refine leasing.wp_seq hs₂ hown fun _ s₃ hs₃ h₃ => ?_
      have hrounds : leasing.wp p (iterate () fun _ => initialRound f)
          (fun outcome s' => Exits (guarding f true) p f outcome.released s') s₃ := by
        refine leasing.wp_iterate (fun _ s' => Holds (guarding f true) p f s') h₃
          fun _ s₄ hs₄ h₄ => ?_
        refine leasing.wp_mono hs₄ (wp_initialRound hs₄ h₄ guarding_at) fun out _ _ h₅ => ?_
        cases out <;> exact h₅
      exact leasing.wp_seq hs₃ hrounds fun outcome s₄ hs₄ h₄ => wp_releaseInitial hs₄ h₄

/-! ## Spawns -/

theorem wp_handoff (hs : Sound s) (h : Free c p f s) (hc : c.Away) :
    leasing.wp p (handoff f) (fun _ s' => Free c p f s') s := by
  refine leasing.wp_seq hs (wp_claim hs h hc) fun _ s₁ hs₁ h₁ => ?_
  refine leasing.wp_seq hs₁ (wp_isAlive steady_holds h₁) fun alive s₂ hs₂ h₂ => ?_
  refine leasing.wp_seq hs₂ (wp_abandon h₂.1) fun _ s₃ hs₃ h₃ => ?_
  cases alive with
  | true => exact wp_closeCreation steady_free h₃
  | false => exact h₃

theorem wp_deliver {outcome : InitialOutcome} (hs : Sound s) (h : Free c p f s) (hc : c.Away) :
    leasing.wp p (deliver f outcome) (fun _ s' => Free c p f s') s := by
  cases outcome with
  | active | pending => exact wp_handoff hs h hc
  | failed | interrupted => exact h

theorem wp_disarm (h : Free c p f s) :
    leasing.wp p (perform (.disarm f)) (fun _ s' => Idle p s') s := by
  refine wp_op rfl rfl (fun s' hk _ => due_of_free (h.keeps hk).lease trivial)
    fun s' u choice s'' ret hk _ _ heq _ => ?_
  have h' := h.keeps hk
  cases heq
  exact ⟨h'.lease, guard_setGuard_self⟩

theorem wp_spawnPreparedInner (hs : Sound s) (h : Carries p r s) :
    leasing.wp p (spawnPreparedInner r) (fun _ s' => Idle p s') s := by
  refine leasing.wp_seq hs (wp_create h) fun f s₁ hs₁ h₁ => ?_
  refine leasing.wp_seq hs₁ (wp_initialSpawnPass hs₁ h₁) fun outcome s₂ hs₂ h₂ => ?_
  refine leasing.wp_seq hs₂ (wp_deliver hs₂ h₂ guarding_away) fun _ s₃ hs₃ h₃ => ?_
  exact wp_disarm h₃

theorem wp_spawn {contract : Contract} (hs : Sound s) (h : Idle p s) :
    leasing.wp p (spawn contract pair) (fun _ s' => Idle p s') s :=
  leasing.wp_seq hs (wp_fromInput h) fun _ _ hs₁ h₁ => wp_spawnPreparedInner hs₁ h₁

/-! ## Successors -/

/-- The claimed source retains one compatible candidate. -/
theorem wp_intoSuccessor (h : Retired { retires := some (f, r, change.contract) } p f s) :
    leasing.wp p (perform (.intoSuccessor r change))
      (fun answer s' => ∃ successor, answer = .ok successor ∧ Carries p successor s') s := by
  have hcommits : ∀ {s'}, Keeps p s s' → Commits p f r change.contract s' :=
    fun hk => (h.keeps hk).retires f r _ rfl
  have hemptied : ∀ {s'}, Keeps p s s' → Sound s' → Emptied s' r f := by
    intro s' hk hs'
    have h' := h.keeps hk
    refine ⟨h'.made, (hcommits hk).plugin, h'.dead, h'.complete, (hs'.fiber f).terminal ?_⟩
    rw [(hcommits hk).terminal]
    nofun
  have hmatches : ∀ {s'}, Keeps p s s' → Sound s' →
      change.contract = (s'.seals r).plugin.contract := by
    intro s' hk hs'
    have hown := (hs'.installed f (h.keeps hk).made).contract
    rw [(hcommits hk).plugin, (hcommits hk).contract] at hown
    exact hown.symm
  refine wp_op rfl rfl (fun s' hk hs' => due_of_free (h.keeps hk).lease
    ⟨f, hemptied hk hs', (hcommits hk).terminal, (hcommits hk).kept, hmatches hk hs'⟩)
    fun s' u choice s'' ret hk hs' _ heq _ => ?_
  have h' := h.keeps hk
  rcases intoSuccessor_spec (p := p) hs' (hemptied hk hs') (hcommits hk).kept (hmatches hk hs') with
    ⟨hok, hbearer, -, hlease, hguard, -⟩
  have hs'' : s'' = (s'.intoSuccessor p r change).1 := (congrArg Prod.fst (Option.some.inj heq)).symm
  have hret : ret = (s'.intoSuccessor p r change).2 := (congrArg Prod.snd (Option.some.inj heq)).symm
  subst hs'' hret
  refine ⟨s'.nextSeal, hok, ⟨?_, ?_⟩, hbearer⟩
  · rw [hlease]
    exact h'.lease
  · rw [hguard]
    exact (h'.idle rfl).guard

theorem wp_dropSuperseded (h : Carries p r s) : leasing.wp p (perform (.dropSuperseded r))
    (fun panicked s' => if panicked then Idle p s' else Carries p r s') s := by
  refine wp_op rfl rfl (fun s' hk _ => due_of_free (h.keeps hk).lease (h.keeps hk).bearer)
    fun s' u choice s'' ret hk _ _ heq _ => ?_
  have h' := h.keeps hk
  simp only [exec] at heq
  split at heq
  · cases heq
    exact ⟨h'.lease, h'.guard⟩
  · cases heq
    exact h'

theorem wp_runCommittedReplacement (hs : Sound s)
    (h : Holds { retires := some (f, r, change.contract) } p f s) :
    leasing.wp p (runCommittedReplacement f r change) (fun _ s' => Idle p s') s := by
  refine leasing.wp_seq hs (wp_completeClaimedDispose hs h (Role.at_of_none rfl f))
    fun _ s₁ hs₁ h₁ => ?_
  refine leasing.wp_seq hs₁ (wp_intoSuccessor h₁) fun answer s₂ hs₂ h₂ => ?_
  rcases h₂ with ⟨successor, rfl, h₂⟩
  refine leasing.wp_seq hs₂ (wp_dropSuperseded h₂) fun panicked s₃ hs₃ h₃ => ?_
  cases panicked with
  | true => exact h₃
  | false => exact wp_spawnPreparedInner hs₃ h₃

/-! ## Destructors -/

/-- What a dropped future leaves. -/
structure Bequest (p : Party) (l : Option (SealId × Pair)) (g : Option FiberId) (s : Root) :
    Prop where
  lease : s.lease p = l
  guard : s.guard p = g
  creator : ∀ f, g = some f → (s.fibers f).creator = some p
  holder : ∀ f, g = some f → (s.fibers f).creationOwned = true → (s.fibers f).holder = some p

theorem Bequest.keeps {lease : Option (SealId × Pair)} {guard : Option FiberId}
    (h : Bequest p lease guard s) (hk : Keeps p s s') : Bequest p lease guard s' where
  lease := hk.lease.trans h.lease
  guard := hk.guard.trans h.guard
  creator f hf := (hk.fiber f).creator.mpr (h.creator f hf)
  holder f hf howned := by
    rw [(hk.fiber f).owned (h.creator f hf)] at howned
    exact (hk.fiber f).holder.mpr (h.holder f hf howned)

theorem wp_returnLease {lease : Option (SealId × Pair)} {guard : Option FiberId} (hs : Sound s)
    (h : Bequest p lease guard s) :
    leasing.wp p (returnLease lease) (fun _ s' => Bequest p none guard s') s := by
  cases lease with
  | none => exact h
  | some lease =>
      refine wp_dropLease hs h (fun h hk => h.keeps hk) (fun h => h.lease)
        fun h hsame hlease => ⟨hlease, ?_, ?_, ?_⟩
      · rw [hsame.guard]
        exact h.guard
      · rw [hsame.fibers]
        exact h.creator
      · rw [hsame.fibers]
        exact h.holder

/-- The guard is consumed, and inherits the slot or nothing. -/
theorem wp_takeCreationOwnership (h : Bequest p none (some f) s) :
    leasing.wp p (perform (.takeCreationOwnership f))
      (fun owned s' => if owned then Holds {} p f s' else Free {} p f s') s := by
  refine wp_op rfl rfl (fun s' hk _ => due_of_free (h.keeps hk).lease ((h.keeps hk).creator f rfl))
    fun s' u choice s'' ret hk hs' _ heq _ => ?_
  have h' := h.keeps hk
  cases heq
  have hfree : Free {} p f
      ((s'.setFiber f fun u => { u with creationOwned := false }).setGuard p none) :=
    ⟨⟨hs'.made_of_creator (h'.creator f rfl), guard_setGuard_self, nofun, nofun⟩, h'.lease⟩
  have hholder : ((s'.setFiber f fun u => { u with creationOwned := false }).fibers f).holder =
      (s'.fibers f).holder := setFiber_same Fiber.holder rfl f
  cases howned : (s'.fibers f).creationOwned with
  | false => exact hfree
  | true => exact ⟨hfree, hholder.trans (h'.holder f rfl howned)⟩

theorem wp_joinTerminal (h : Free {} p f s) :
    leasing.wp p (perform (.claimTerminal f)) (fun _ s' => Free {} p f s') s := by
  refine wp_op rfl rfl (fun s' hk _ => due_of_free (h.keeps hk).lease (h.keeps hk).made)
    fun s' u choice s'' ret hk _ _ heq _ => ?_
  have h' := h.keeps hk
  cases heq
  exact ⟨⟨h'.made, (h'.idle rfl).guard, nofun, nofun⟩, h'.lease⟩

theorem wp_creationInterruptedTeardown (hs : Sound s) (h : Bequest p none (some f) s) :
    leasing.wp p (creationInterruptedTeardown f) (fun _ s' => Idle p s') s := by
  have haway : Role.Away {} := Role.away_of_none rfl
  have hat : Role.At {} f := Role.at_of_none rfl f
  refine leasing.wp_seq hs (wp_takeCreationOwnership h) fun owned s₁ hs₁ h₁ => ?_
  cases owned with
  | true =>
      refine leasing.wp_seq hs₁ (wp_markTerminal steady_holds h₁) fun _ s₂ hs₂ h₂ => ?_
      exact leasing.wp_mono hs₂ (wp_completeClaimedDispose hs₂ h₂ hat) fun _ _ _ h => h.idle rfl
  | false =>
      refine leasing.wp_seq hs₁ (wp_joinTerminal h₁) fun disposing s₂ hs₂ h₂ => ?_
      cases disposing with
      | true => exact leasing.wp_mono hs₂ (wp_waitDisposeComplete h₂ haway) fun _ _ _ h => h.idle rfl
      | false =>
          refine leasing.wp_seq hs₂ (wp_claim hs₂ h₂ haway) fun _ s₃ hs₃ h₃ => ?_
          refine leasing.wp_seq hs₃ (wp_isAlive steady_holds h₃) fun alive s₄ hs₄ h₄ => ?_
          cases alive with
          | true =>
              exact leasing.wp_mono hs₄ (wp_completeClaimedDispose hs₄ h₄.1 hat)
                fun _ _ _ h => h.idle rfl
          | false => exact leasing.wp_mono hs₄ (wp_abandon h₄.1) fun _ _ _ h => h.idle rfl

theorem wp_unwind {lease : Option (SealId × Pair)} {guard : Option FiberId} (hs : Sound s)
    (h : Pre (.unwind lease guard) p s) :
    leasing.wp p (unwind lease guard) (fun _ s' => Idle p s') s := by
  have hbequest : Bequest p lease guard s :=
    ⟨h.1, h.2.1, fun f hf => hs.guarded p f (h.2.1.trans hf), h.2.2⟩
  refine leasing.wp_seq hs (wp_returnLease hs hbequest) fun _ s₁ hs₁ h₁ => ?_
  cases guard with
  | none => exact ⟨h₁.lease, h₁.guard⟩
  | some f => exact wp_creationInterruptedTeardown hs₁ h₁

/-! ## Every routine is verified -/

theorem wp_code (hs : Sound s) (routine : Routine) (hpre : Pre routine p s) :
    leasing.wp p (code routine) (fun _ s' => Idle p s') s := by
  cases routine with
  | spawn contract pair => exact wp_spawn hs hpre
  | kick f => exact wp_kick hs hpre
  | restart f => exact wp_restartPass hs hpre
  | update f change => exact wp_update hs hpre
  | eraSwap f change => exact wp_eraSwap hs hpre
  | dispose f => exact wp_dispose hs hpre
  | convergencePass f => exact wp_convergencePass hpre
  | replacementCommitted f => exact wp_replacementCommitted hpre
  | completeClaimedDispose f =>
      exact leasing.wp_mono hs (wp_completeClaimedDispose hs hpre (Role.at_of_none rfl f))
        fun _ _ _ h => h.idle rfl
  | runCommittedReplacement f r change => exact wp_runCommittedReplacement hs hpre
  | unwind lease guard => exact wp_unwind hs hpre

theorem sound_init : Sound {} where
  fiber _ := ⟨⟨fun _ => rfl, fun _ => rfl⟩, fun h => absurd rfl h, nofun⟩
  unborn _ _ := rfl
  unmade _ _ := rfl
  installed f hf := absurd hf (Nat.not_lt_zero f)
  apart f _ hf := absurd hf (Nat.not_lt_zero f)
  whole _ := rfl
  lent := nofun
  leased := nofun
  moved := nofun
  borne := nofun
  guarded := nofun

theorem leasing_verified : leasing.Verified where
  grounded _ _ _ _ _ := trivial
  init := sound_init
  vacant _ := ⟨rfl, rfl⟩
  body routine _ _ hs hpre := leasing.wp_seq hs (wp_code hs routine hpre) fun _ _ _ h => h
  enter p routine s s' hs hblank henter := by
    have hfree : ∀ {f}, f < s.nextFiber → Free {} p f s := fun hf =>
      ⟨⟨hf, hblank.guard, nofun, nofun⟩, hblank.lease⟩
    cases routine with
    | spawn =>
        cases henter
        exact ⟨hs, fun t _ => .refl t s, hblank⟩
    | kick | restart | update | eraSwap | dispose =>
        simp only [protocol, enter] at henter
        split at henter
        · rename_i hf
          cases henter
          exact ⟨hs, fun t _ => .refl t s, hfree hf⟩
        · cases henter
    | convergencePass | replacementCommitted | completeClaimedDispose | runCommittedReplacement
    | unwind => cases henter

end Lease
end CordisCore
