import CordisCore.Lease.Settling

/-!
# Passes — spawns, kicks, replacements and disposals around the settles
-/

namespace CordisCore
namespace Lease

open Interleaving
open Interleaving.Program (iterate)
open CordisCore.Runtime (ApplyOutcome Contract FiberId FiberState Inertia Input)

variable {p q : Party} {f : FiberId} {r : SealId} {pair : Pair} {change : Change} {s s' : Root}
  {c : Role}

/-- A party without a guard may hold any slot. -/
theorem Role.at_of_none (hc : c.guard = none) (f : FiberId) : c.At f := by
  intro g hg
  cases hc.symm.trans hg

theorem Role.away_of_none (hc : c.guard = none) : c.Away := by
  intro g hg
  cases hc.symm.trans hg

theorem Retired.idle (h : Retired c p f s) (hc : c.guard = none) : Idle p s :=
  h.toFree.idle hc

/-! ## Handing the slot over -/

/-- The slot, and a committed disposal with it, goes to a task of the completion runtime. -/
theorem wp_start {routine : Routine} (h : Holds c p f s) (hc : c.guard = none)
    (hfiber : routine.fiber = some f)
    (hpre : ∀ {s' q}, Keeps p s s' → Sound s' → Holds c p f s' → Idle q s' →
      Pre routine q (s'.handOver p q f)) :
    leasing.wp p (perform (.start f routine)) (fun _ s' => Idle p s') s := by
  refine leasing.wp_perform fun s' hk hs' => ?_
  have h' := h.keeps hk
  have hd : Due p (.start f routine) s' := due_of_free h'.lease ⟨h'.holding, hfiber⟩
  refine ⟨hd, ?_, nofun⟩
  refine Logic.Performs.of_fork (rfl : protocol.forks (.start f routine) = some routine)
    fun u choice s'' ret _ _ hexec hup hidle => ?_
  refine ⟨sound_exec (c := choice) hs' hd hexec,
    fun t ht htu => (exec_spec (c := choice) hs' hd hexec ht fun _ => htu).2, ?_⟩
  cases hexec
  exact ⟨hpre hk hs' h' hidle, (h'.idle hc).lease, (h'.idle hc).guard⟩

theorem handOver_holds (h : Holds c p f s) (hq : Idle q s) : Holds {} q f (s.handOver p q f) :=
  ⟨⟨⟨h.made, hq.guard, nofun, nofun⟩, hq.lease⟩, congrArg Fiber.holder fibers_setFiber_self⟩

/-- A routine that only needs the slot. -/
theorem wp_startHolding {routine : Routine} (h : Holds c p f s) (hc : c.guard = none)
    (hfiber : routine.fiber = some f) (hpre : ∀ q s, Holds {} q f s → Pre routine q s) :
    leasing.wp p (perform (.start f routine)) (fun _ s' => Idle p s') s :=
  wp_start h hc hfiber fun _ _ h' hq => hpre _ _ (handOver_holds h' hq)

/-! ## Convergence -/

theorem wp_convergencePass (h : Holds {} p f s) :
    leasing.wp p (convergencePass f) (fun _ s' => Idle p s') s := by
  refine leasing.wp_iterate (fun _ s' => Holds {} p f s') h fun _ s₀ hs₀ h₀ => ?_
  refine leasing.wp_seq hs₀ (wp_ask steady_holds h₀) fun missing s₁ hs₁ h₁ => ?_
  refine leasing.wp_seq hs₁ (wp_settleOnce hs₁ h₁ (Role.at_of_none rfl f)) fun _ s₂ hs₂ h₂ => ?_
  refine leasing.wp_seq hs₂ (wp_ask steady_holds h₂) fun drifted s₃ hs₃ h₃ => ?_
  cases drifted with
  | true => exact h₃
  | false =>
      refine leasing.wp_seq hs₃ (wp_exitRecheck h₃) fun kept s₄ hs₄ h₄ => ?_
      cases kept with
      | true => exact h₄
      | false => exact Free.idle h₄ rfl

theorem wp_replacementCommitted (h : Holds {} p f s) :
    leasing.wp p (replacementCommitted f) (fun _ s' => Idle p s') s := by
  refine leasing.wp_iterate (fun _ s' => Holds {} p f s') h fun _ s₀ hs₀ h₀ => ?_
  refine leasing.wp_seq hs₀ (wp_ask steady_holds h₀) fun missing s₁ hs₁ h₁ => ?_
  refine leasing.wp_seq hs₁ (wp_settleOnce hs₁ h₁ (Role.at_of_none rfl f)) fun _ s₂ hs₂ h₂ => ?_
  refine leasing.wp_seq hs₂ (wp_exitRecheck h₂) fun kept s₃ hs₃ h₃ => ?_
  cases kept with
  | true => exact h₃
  | false => exact Free.idle h₃ rfl

theorem wp_kickClaimed (hs : Sound s) (h : Holds {} p f s) :
    leasing.wp p (kickClaimed f) (fun _ s' => Idle p s') s := by
  have hstart : ∀ {s}, Holds {} p f s →
      leasing.wp p (perform (.start f (.convergencePass f))) (fun _ s' => Idle p s') s :=
    fun h => wp_startHolding h rfl rfl fun _ _ h => h
  refine leasing.wp_seq hs (wp_ask steady_holds h) fun recorded s₁ hs₁ h₁ => ?_
  cases recorded with
  | false => exact hstart h₁
  | true =>
      refine leasing.wp_seq hs₁ (wp_exitRecheck h₁) fun kept s₂ hs₂ h₂ => ?_
      cases kept with
      | true => exact hstart h₂
      | false => exact Free.idle h₂ rfl

theorem wp_kickOnce (hs : Sound s) (h : Free {} p f s) : leasing.wp p (kickOnce f)
    (fun out s' => match out with
      | .inl () => Free {} p f s'
      | .inr () => Idle p s') s := by
  have hread : leasing.wp p (perform (.inertia f)) (fun _ s' => Free {} p f s') s := by
    refine wp_look steady_free h rfl rfl (fun _ => trivial) fun _ _ _ _ _ h => ?_
    cases h
    rfl
  refine leasing.wp_seq hs hread fun word s₁ hs₁ h₁ => ?_
  cases word with
  | active => exact h₁.idle rfl
  | releasing =>
      have hreclaim : leasing.wp p (perform (.reclaim f)) (fun _ s' => Free {} p f s') s₁ := by
        refine wp_op rfl rfl (fun s' hk _ => due_of_free (h₁.keeps hk).lease trivial)
          fun s' u choice s'' ret hk _ _ heq _ => ?_
        have h' := h₁.keeps hk
        simp only [exec] at heq
        split at heq
        · cases heq
          exact ⟨h'.toStands.setFiber rfl rfl rfl rfl rfl, h'.lease⟩
        · cases heq
          exact h'
      refine leasing.wp_seq hs₁ hreclaim fun won s₂ hs₂ h₂ => ?_
      cases won with
      | true => exact h₂.idle rfl
      | false => exact h₂
  | idle =>
      refine leasing.wp_seq hs₁ (wp_ask steady_free h₁) fun runtime s₂ hs₂ h₂ => ?_
      cases runtime with
      | false => exact h₂.idle rfl
      | true =>
          refine leasing.wp_seq hs₂ (wp_tryClaim h₂) fun won s₃ hs₃ h₃ => ?_
          cases won with
          | false => exact h₃
          | true => exact leasing.wp_seq hs₃ (wp_kickClaimed hs₃ h₃) fun _ _ _ h₄ => h₄

theorem wp_kick (hs : Sound s) (h : Free {} p f s) :
    leasing.wp p (kick f) (fun _ s' => Idle p s') s := by
  refine leasing.wp_seq hs (wp_isAlive steady_free h) fun alive s₁ hs₁ h₁ => ?_
  cases alive with
  | false => exact h₁.1.idle rfl
  | true =>
      refine leasing.wp_seq hs₁ (wp_ask steady_free h₁.1) fun committed s₂ hs₂ h₂ => ?_
      cases committed with
      | false => exact h₂.idle rfl
      | true =>
          refine leasing.wp_iterate (fun _ s' => Free {} p f s') h₂ fun _ s₃ hs₃ h₃ => ?_
          refine leasing.wp_mono hs₃ (wp_kickOnce hs₃ h₃) fun out s₄ _ h₄ => ?_
          cases out <;> exact h₄

/-! ## Replacements -/

theorem wp_restartPass (hs : Sound s) (h : Free {} p f s) :
    leasing.wp p (restartPass f) (fun _ s' => Idle p s') s := by
  refine leasing.wp_seq hs (wp_claim hs h (Role.away_of_none rfl)) fun _ s₁ hs₁ h₁ => ?_
  refine leasing.wp_seq hs₁ (wp_isAlive steady_holds h₁) fun alive s₂ hs₂ h₂ => ?_
  cases alive with
  | true => exact wp_startHolding h₂.1 rfl rfl fun _ _ h => h
  | false => exact leasing.wp_mono hs₂ (wp_abandon h₂.1) fun _ _ _ h => h.idle rfl

/-- The precommit check and the slot make the commit infallible. -/
theorem wp_commitChange (h : Live c p f s) (hplugin : (s.fibers f).plugin = r)
    (hcontract : (s.fibers f).contract = change.contract) :
    leasing.wp p (perform (.commitChange f r change))
      (fun answer s' => (∃ superseded, answer = .ok superseded) ∧ Holds c p f s') s := by
  have hinstalled : ∀ {s'}, Keeps p s s' → (s'.fibers f).plugin = r :=
    fun hk => plugin_keeps hk h.made hplugin
  have hmatches : ∀ {s'}, Keeps p s s' → Sound s' →
      change.contract = (s'.seals r).plugin.contract := by
    intro s' hk hs'
    have hown := (hs'.installed f (h.keeps hk).made).contract
    rw [hinstalled hk, (hk.installed f h.made).2, hcontract] at hown
    exact hown.symm
  refine wp_op rfl rfl (fun s' hk hs' => due_of_free (h.keeps hk).lease
    ⟨(h.keeps hk).holding, hinstalled hk, (h.keeps hk).alive, hmatches hk hs'⟩)
    fun s' u choice s'' ret hk hs' _ heq _ => ?_
  have h' := h.keeps hk
  rcases commitChange_spec change hs' h'.holding (hinstalled hk) h'.alive with
    ⟨hok, hlease, hsame, -, -⟩
  have hs'' : s'' = (s'.commitChange r change).1 := (congrArg Prod.fst (Option.some.inj heq)).symm
  have hret : ret = (s'.commitChange r change).2 := (congrArg Prod.snd (Option.some.inj heq)).symm
  subst hs'' hret
  refine ⟨⟨_, hok (hmatches hk hs')⟩, ⟨h'.toStands.undisturbed hsame, ?_⟩, ?_⟩
  · rw [hlease]
    exact h'.lease
  · rw [hsame.fibers]
    exact h'.holder

theorem wp_updatePass (hs : Sound s) (h : Free {} p f s)
    (hcontract : (s.fibers f).contract = change.contract) :
    leasing.wp p (updatePass f change) (fun _ s' => Idle p s') s := by
  refine leasing.wp_seq hs (wp_claimFixed fixed_contract h hcontract (Role.away_of_none rfl))
    fun _ s₁ hs₁ h₁ => ?_
  refine leasing.wp_seq hs₁ (wp_isAlive (steady_holds.and fixed_contract) h₁)
    fun alive s₂ hs₂ h₂ => ?_
  cases alive with
  | false => exact leasing.wp_mono hs₂ (wp_abandon h₂.1.1) fun _ _ _ h => h.idle rfl
  | true =>
      refine leasing.wp_seq hs₂ (wp_plugin (steady_live.and fixed_contract)
        ⟨⟨h₂.1.1, h₂.2⟩, h₂.1.2⟩) fun r s₃ hs₃ h₃ => ?_
      refine leasing.wp_seq hs₃ (wp_commitChange h₃.1.1 h₃.2 h₃.1.2) fun answer s₄ hs₄ h₄ => ?_
      rcases h₄ with ⟨⟨superseded, rfl⟩, h₄⟩
      exact wp_startHolding h₄ rfl rfl fun _ _ h => h

theorem wp_update (hs : Sound s) (h : Free {} p f s) :
    leasing.wp p (update f change) (fun _ s' => Idle p s') s := by
  refine leasing.wp_seq hs (wp_isAlive steady_free h) fun alive s₁ hs₁ h₁ => ?_
  cases alive with
  | false => exact h₁.1.idle rfl
  | true =>
      refine leasing.wp_seq hs₁ (wp_contract steady_free h₁.1) fun contract s₂ hs₂ h₂ => ?_
      by_cases hcontract : contract = change.contract
      · rw [if_pos hcontract]
        refine leasing.wp_seq hs₂ (wp_ask (steady_free.and fixed_contract) h₂)
          fun accepted s₃ hs₃ h₃ => ?_
        cases accepted with
        | true => exact wp_updatePass hs₃ h₃.1 (h₃.2.trans hcontract)
        | false => exact h₃.1.idle rfl
      · rw [if_neg hcontract]
        exact h₂.1.idle rfl

/-! ## Disposal -/

/-- The terminal claim is raised, and whoever found it open has it. -/
def claimed (p : Party) (u : Fiber) : Fiber :=
  { u with disposing := true, terminal := if u.disposing then u.terminal else some p }

theorem claimTerminal_eq : s.claimTerminal p f = (s.setFiber f (claimed p), (s.fibers f).disposing) :=
  rfl

/-- Whoever finds the disposal of a Fiber open has committed it. -/
theorem wp_claimTerminal {F : Root → Prop} {alive : Bool} (hF : Fixed p f F) (h : Holds {} p f s)
    (hf : F s) (halive : (s.fibers f).alive = alive) :
    leasing.wp p (perform (.claimTerminal f)) (fun disposing s' => Holds {} p f s' ∧ F s' ∧
      (s'.fibers f).alive = alive ∧ (disposing = false → (s'.fibers f).terminal = some p)) s := by
  refine wp_op rfl rfl (fun s' hk _ => due_of_free (h.keeps hk).lease (h.keeps hk).made)
    fun s' u choice s'' ret hk hs' _ heq _ => ?_
  have h' := h.keeps hk
  have hidle := h'.idle rfl
  simp only [exec, claimTerminal_eq] at heq
  cases heq
  refine ⟨⟨⟨⟨h'.made, hidle.guard, by simp, by simp⟩, h'.lease⟩,
    (setFiber_same (g := claimed p) Fiber.holder rfl f).trans h'.holder⟩,
    hF.store (hF.keeps hf h.made hk) (fun _ => rfl) fun _ => rfl,
    (setFiber_same (g := claimed p) Fiber.alive rfl f).trans (((hk.fiber f).held h.holder).trans halive),
    fun hopen => ?_⟩
  rw [fibers_setFiber_self]
  show (if (s'.fibers f).disposing = true then (s'.fibers f).terminal else some p) = some p
  rw [hopen]
  rfl

/-- A guard that would inherit nothing leaves nothing behind. -/
theorem wp_waitDisposeComplete (h : Free c p f s) (hc : c.Away) :
    leasing.wp p (perform (.waitDisposeComplete f)) (fun _ s' => Free c p f s') s := by
  refine wp_wait rfl (fun s' hk _ => due_of_free (h.keeps hk).lease trivial)
    (fun s' hk => (h.keeps hk).inherits_nothing hc) fun s' u choice s'' ret hk _ heq _ => ?_
  simp only [exec] at heq
  split at heq
  · cases heq
    exact h.keeps hk
  · cases heq

theorem wp_disposeComplete {D : Root → Prop} (hD : Steady p f D) (hd : D s) :
    leasing.wp p (perform (.disposeComplete f)) (fun _ s' => D s') s := by
  refine wp_look hD hd rfl rfl (fun _ => trivial) fun _ _ _ _ _ h => ?_
  cases h
  rfl

theorem wp_dispose (hs : Sound s) (h : Free {} p f s) :
    leasing.wp p (dispose f) (fun _ s' => Idle p s') s := by
  have haway : Role.Away {} := Role.away_of_none rfl
  refine leasing.wp_seq hs (wp_disposeComplete steady_free h) fun complete s₁ hs₁ h₁ => ?_
  cases complete with
  | true => exact h₁.idle rfl
  | false =>
      refine leasing.wp_seq hs₁ (wp_claim hs₁ h₁ haway) fun _ s₂ hs₂ h₂ => ?_
      refine leasing.wp_seq hs₂ (wp_disposeComplete steady_holds h₂) fun complete s₃ hs₃ h₃ => ?_
      cases complete with
      | true => exact leasing.wp_mono hs₃ (wp_abandon h₃) fun _ _ _ h => h.idle rfl
      | false =>
          refine leasing.wp_seq hs₃ (wp_claimTerminal fixed_plugin h₃ rfl rfl)
            fun disposing s₄ hs₄ h₄ => ?_
          cases disposing with
          | false => exact wp_startHolding h₄.1 rfl rfl fun _ _ h => h
          | true =>
              refine leasing.wp_seq hs₄ (wp_abandon h₄.1) fun _ s₅ hs₅ h₅ => ?_
              exact leasing.wp_mono hs₅ (wp_waitDisposeComplete h₅ haway) fun _ _ _ h => h.idle rfl

/-! ## Era replacements -/

/-- The committed disposal goes along with the slot. -/
theorem handOver_retires {contract : Contract}
    (h : Holds { retires := some (f, r, contract) } p f s) (hq : Idle q s) :
    Holds { retires := some (f, r, contract) } q f (s.handOver p q f) := by
  have hold := h.retires f r contract rfl
  refine { handOver_holds h hq with retires := fun g x k hg => ?_ }
  cases hg
  refine ⟨hold.made, ?_, (setFiber_same Fiber.plugin rfl f).trans hold.plugin,
    (setFiber_same Fiber.contract rfl f).trans hold.contract, hold.kept⟩
  refine (congrArg Fiber.terminal fibers_setFiber_self).trans ?_
  exact if_pos hold.terminal

theorem wp_eraClaim (hs : Sound s) (h : Free {} p f s)
    (hcontract : (s.fibers f).contract = change.contract) :
    leasing.wp p (eraClaim f change) (fun _ s' => Idle p s') s := by
  refine leasing.wp_seq hs (wp_plugin (steady_free.and fixed_contract) ⟨h, hcontract⟩)
    fun r s₁ hs₁ h₁ => ?_
  have hfixed : Fixed p f fun s => (s.fibers f).contract = change.contract ∧
      (s.fibers f).plugin = r := fixed_contract.and fixed_plugin
  refine leasing.wp_seq hs₁ (wp_claimFixed hfixed h₁.1.1 ⟨h₁.1.2, h₁.2⟩ (Role.away_of_none rfl))
    fun _ s₂ hs₂ h₂ => ?_
  refine leasing.wp_seq hs₂ (wp_isAlive (steady_holds.and hfixed) h₂) fun alive s₃ hs₃ h₃ => ?_
  cases alive with
  | false => exact leasing.wp_mono hs₃ (wp_abandon h₃.1.1) fun _ _ _ h => h.idle rfl
  | true =>
      refine leasing.wp_seq hs₃ (wp_ask (steady_live.and hfixed) ⟨⟨h₃.1.1, h₃.2⟩, h₃.1.2⟩)
        fun recursive s₄ hs₄ h₄ => ?_
      cases recursive with
      | true => exact leasing.wp_mono hs₄ (wp_abandon h₄.1.toHolds) fun _ _ _ h => h.idle rfl
      | false =>
          refine leasing.wp_seq hs₄ (wp_claimTerminal hfixed h₄.1.toHolds h₄.2 h₄.1.alive)
            fun disposing s₅ hs₅ h₅ => ?_
          rcases h₅ with ⟨hholds, hrecord, halive, hterminal⟩
          cases disposing with
          | true => exact leasing.wp_mono hs₅ (wp_abandon hholds) fun _ _ _ h => h.idle rfl
          | false =>
              have hkept := hs₅.kept hholds.made halive
              rw [hrecord.2] at hkept
              have hretires : Holds { retires := some (f, r, change.contract) } p f s₅ := by
                refine { hholds with retires := fun g x k hg => ?_ }
                cases hg
                exact ⟨hholds.made, hterminal rfl, hrecord.2, hrecord.1, hkept⟩
              exact wp_start hretires rfl rfl fun _ _ h' hq => handOver_retires h' hq

theorem wp_eraSwap (hs : Sound s) (h : Free {} p f s) :
    leasing.wp p (eraSwap f change) (fun _ s' => Idle p s') s := by
  refine leasing.wp_seq hs (wp_isAlive steady_free h) fun alive s₁ hs₁ h₁ => ?_
  cases alive with
  | false => exact h₁.1.idle rfl
  | true =>
      have hread : leasing.wp p (perform (.isDisposing f)) (fun _ s' => Free {} p f s') s₁ := by
        refine wp_look steady_free h₁.1 rfl rfl (fun _ => trivial) fun _ _ _ _ _ h => ?_
        cases h
        rfl
      refine leasing.wp_seq hs₁ hread fun disposing s₂ hs₂ h₂ => ?_
      cases disposing with
      | true => exact h₂.idle rfl
      | false =>
          refine leasing.wp_seq hs₂ (wp_contract steady_free h₂) fun contract s₃ hs₃ h₃ => ?_
          by_cases hcontract : contract = change.contract
          · rw [if_pos hcontract]
            exact wp_eraClaim hs₃ h₃.1 (h₃.2.trans hcontract)
          · rw [if_neg hcontract]
            exact h₃.1.idle rfl

end Lease
end CordisCore
