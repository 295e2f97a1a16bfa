import CordisCore.Lease.Standing

/-!
# Settling — whoever holds the slot of a live Fiber takes the pair, and puts it back
-/

namespace CordisCore
namespace Lease

open Interleaving
open Interleaving.Program (iterate)
open CordisCore.Runtime (ApplyOutcome Contract FiberId FiberState Inertia Input)

variable {p q : Party} {f : FiberId} {r : SealId} {pair : Pair} {s s' : Root} {c : Role}

/-! ## Words that no knowledge is about -/

structure Spares (g : Fiber → Fiber) : Prop where
  plugin : ∀ u, (g u).plugin = u.plugin
  contract : ∀ u, (g u).contract = u.contract
  creator : ∀ u, (g u).creator = u.creator
  owned : ∀ u, (g u).creationOwned = u.creationOwned
  terminal : ∀ u, (g u).terminal = u.terminal
  holder : ∀ u, (g u).holder = u.holder
  alive : ∀ u, (g u).alive = u.alive

section Spares

variable {g : Fiber → Fiber} {x : FiberId} (hg : Spares g)

include hg

theorem Free.setFiber (h : Free c p f s) : Free c p f (s.setFiber x g) :=
  ⟨h.toStands.setFiber (hg.plugin _) (hg.contract _) (hg.creator _) (hg.owned _) (hg.terminal _), h.lease⟩

theorem Holds.setFiber (h : Holds c p f s) : Holds c p f (s.setFiber x g) :=
  ⟨h.toFree.setFiber hg, (setFiber_same Fiber.holder (hg.holder _) f).trans h.holder⟩

theorem Live.setFiber (h : Live c p f s) : Live c p f (s.setFiber x g) :=
  ⟨h.toHolds.setFiber hg, (setFiber_same Fiber.alive (hg.alive _) f).trans h.alive⟩

theorem Dead.setFiber (h : Dead c p f s) : Dead c p f (s.setFiber x g) :=
  ⟨h.toHolds.setFiber hg, (setFiber_same Fiber.alive (hg.alive _) f).trans h.dead⟩

end Spares

/-- Knowledge that survives the others and the stores of such words. -/
structure Steady (p : Party) (f : FiberId) (D : Root → Prop) : Prop where
  keeps : ∀ {s s'}, D s → Keeps p s s' → D s'
  lease : ∀ {s}, D s → s.lease p = none
  made : ∀ {s}, D s → f < s.nextFiber
  store : ∀ {s} {g : Fiber → Fiber}, D s → Spares g → D (s.setFiber f g)

theorem steady_free : Steady p f (Free c p f) :=
  ⟨fun h hk => h.keeps hk, fun h => h.lease, fun h => h.made, fun h hg => h.setFiber hg⟩

theorem steady_holds : Steady p f (Holds c p f) :=
  ⟨fun h hk => h.keeps hk, fun h => h.lease, fun h => h.made, fun h hg => h.setFiber hg⟩

theorem steady_live : Steady p f (Live c p f) :=
  ⟨fun h hk => h.keeps hk, fun h => h.lease, fun h => h.made, fun h hg => h.setFiber hg⟩

theorem steady_dead : Steady p f (Dead c p f) :=
  ⟨fun h hk => h.keeps hk, fun h => h.lease, fun h => h.made, fun h hg => h.setFiber hg⟩

/-- A fact about the installed record, which is never changed. -/
structure Fixed (p : Party) (f : FiberId) (F : Root → Prop) : Prop where
  keeps : ∀ {s s'}, F s → f < s.nextFiber → Keeps p s s' → F s'
  store : ∀ {s} {g : Fiber → Fiber}, F s → (∀ u, (g u).plugin = u.plugin) →
    (∀ u, (g u).contract = u.contract) → F (s.setFiber f g)

theorem fixed_plugin : Fixed p f fun s => (s.fibers f).plugin = r :=
  ⟨fun h hf hk => plugin_keeps hk hf h, fun h hplugin _ =>
    (setFiber_same Fiber.plugin (hplugin _) f).trans h⟩

theorem fixed_contract {contract : Contract} : Fixed p f fun s => (s.fibers f).contract = contract :=
  ⟨fun h hf hk => (hk.installed f hf).2.trans h, fun h _ hcontract =>
    (setFiber_same Fiber.contract (hcontract _) f).trans h⟩

theorem Fixed.and {F G : Root → Prop} (hF : Fixed p f F) (hG : Fixed p f G) :
    Fixed p f fun s => F s ∧ G s :=
  ⟨fun h hf hk => ⟨hF.keeps h.1 hf hk, hG.keeps h.2 hf hk⟩, fun h hplugin hcontract =>
    ⟨hF.store h.1 hplugin hcontract, hG.store h.2 hplugin hcontract⟩⟩

theorem Steady.and {D F : Root → Prop} (hD : Steady p f D) (hF : Fixed p f F) :
    Steady p f fun s => D s ∧ F s where
  keeps h hk := ⟨hD.keeps h.1 hk, hF.keeps h.2 (hD.made h.1) hk⟩
  lease h := hD.lease h.1
  made h := hD.made h.1
  store h hg := ⟨hD.store h.1 hg, hF.store h.2 hg.plugin hg.contract⟩

section Steady

variable {D : Root → Prop} (hD : Steady p f D) (hd : D s)

include hD hd

/-- One such word is stored. -/
theorem wp_word {op : Op} (g : Fiber → Fiber) (hforks : forks op = none)
    (hawaits : awaits op = false) (hg : Spares g)
    (hentitled : ∀ {s}, Sound s → D s → Entitled p s op)
    (hexec : ∀ u choice s s' ret, exec p u choice op s = some (s', ret) → s' = s.setFiber f g) :
    leasing.wp p (perform op) (fun _ s' => D s') s := by
  refine wp_op hforks hawaits (fun s' hk hs' =>
    due_of_free (hD.lease (hD.keeps hd hk)) (hentitled hs' (hD.keeps hd hk)))
    fun s' u choice s'' ret hk _ _ heq _ => ?_
  rw [hexec u choice s' s'' ret heq]
  exact hD.store (hD.keeps hd hk) hg

theorem wp_transition {next : FiberState} (hnext : ∀ {s}, D s → next = .disposed →
    (s.fibers f).alive = false) :
    leasing.wp p (perform (.transition f next)) (fun _ s' => D s') s := by
  refine wp_word hD hd (fun u => { u with state := next }) rfl rfl
    ⟨fun _ => rfl, fun _ => rfl, fun _ => rfl, fun _ => rfl, fun _ => rfl, fun _ => rfl,
      fun _ => rfl⟩
    (fun _ h => ⟨hD.made h, hnext h⟩) fun _ _ _ _ _ h => ?_
  cases h
  rfl

theorem wp_setApplied : leasing.wp p (perform (.setApplied f)) (fun _ s' => D s') s := by
  refine wp_word hD hd (fun u => { u with applied := true }) rfl rfl
    ⟨fun _ => rfl, fun _ => rfl, fun _ => rfl, fun _ => rfl, fun _ => rfl, fun _ => rfl,
      fun _ => rfl⟩
    (fun _ h => hD.made h) fun _ _ _ _ _ h => ?_
  cases h
  rfl

theorem wp_closeCreation : leasing.wp p (perform (.closeCreation f)) (fun _ s' => D s') s := by
  refine wp_word hD hd (fun u => { u with creationPending := false }) rfl rfl
    ⟨fun _ => rfl, fun _ => rfl, fun _ => rfl, fun _ => rfl, fun _ => rfl, fun _ => rfl,
      fun _ => rfl⟩
    (fun _ h => hD.made h) fun _ _ _ _ _ h => ?_
  cases h
  rfl

theorem wp_markTerminal : leasing.wp p (perform (.markTerminal f)) (fun _ s' => D s') s := by
  refine wp_word hD hd (fun u => { u with disposing := true }) rfl rfl
    ⟨fun _ => rfl, fun _ => rfl, fun _ => rfl, fun _ => rfl, fun _ => rfl, fun _ => rfl,
      fun _ => rfl⟩
    (fun _ h => hD.made h) fun _ _ _ _ _ h => ?_
  cases h
  rfl

theorem wp_publishDisposeComplete :
    leasing.wp p (perform (.publishDisposeComplete f)) (fun _ s' => D s') s := by
  refine wp_word hD hd (fun u => { u with disposeComplete := true }) rfl rfl
    ⟨fun _ => rfl, fun _ => rfl, fun _ => rfl, fun _ => rfl, fun _ => rfl, fun _ => rfl,
      fun _ => rfl⟩
    (fun _ h => hD.made h) fun _ _ _ _ _ h => ?_
  cases h
  rfl

/-- What is read leaves the party what it knows. -/
theorem wp_look {op : Op} (hforks : forks op = none) (hawaits : awaits op = false)
    (hentitled : ∀ s, Entitled p s op)
    (hsame : ∀ u choice s s' ret, exec p u choice op s = some (s', ret) → s' = s) :
    leasing.wp p (perform op) (fun _ s' => D s') s := by
  refine wp_op hforks hawaits (fun s' hk _ =>
    due_of_free (hD.lease (hD.keeps hd hk)) (hentitled s')) fun s' u choice s'' ret hk _ _ heq _ => ?_
  rw [hsame u choice s' s'' ret heq]
  exact hD.keeps hd hk

theorem wp_ask {question : Question} :
    leasing.wp p (perform (.ask question)) (fun _ s' => D s') s := by
  refine wp_look hD hd rfl rfl (fun _ => trivial) fun _ _ _ _ _ h => ?_
  cases h
  rfl

theorem wp_state : leasing.wp p (perform (.state f))
    (fun current s' => D s' ∧ (current = .disposed → (s'.fibers f).alive = false)) s := by
  refine wp_op rfl rfl (fun s' hk _ => due_of_free (hD.lease (hD.keeps hd hk)) trivial)
    fun s' u choice s'' ret hk hs' _ heq _ => ?_
  cases heq
  exact ⟨hD.keeps hd hk, (hs'.fiber f).disposed⟩

theorem wp_isAlive : leasing.wp p (perform (.isAlive f))
    (fun alive s' => D s' ∧ (s'.fibers f).alive = alive) s := by
  refine wp_op rfl rfl (fun s' hk _ => due_of_free (hD.lease (hD.keeps hd hk)) trivial)
    fun s' u choice s'' ret hk _ _ heq _ => ?_
  cases heq
  exact ⟨hD.keeps hd hk, rfl⟩

theorem wp_plugin : leasing.wp p (perform (.plugin f))
    (fun r s' => D s' ∧ (s'.fibers f).plugin = r) s := by
  refine wp_op rfl rfl (fun s' hk _ => due_of_free (hD.lease (hD.keeps hd hk)) trivial)
    fun s' u choice s'' ret hk _ _ heq _ => ?_
  cases heq
  exact ⟨hD.keeps hd hk, rfl⟩

theorem wp_contract : leasing.wp p (perform (.contract f))
    (fun contract s' => D s' ∧ (s'.fibers f).contract = contract) s := by
  refine wp_op rfl rfl (fun s' hk _ => due_of_free (hD.lease (hD.keeps hd hk)) trivial)
    fun s' u choice s'' ret hk _ _ heq _ => ?_
  cases heq
  exact ⟨hD.keeps hd hk, rfl⟩

/-- A drain is waited for. -/
theorem wp_drain (hinherits : ∀ {s}, D s → Inherits p s) :
    leasing.wp p (perform (.drain f)) (fun _ s' => D s') s := by
  refine wp_wait rfl (fun s' hk _ => due_of_free (hD.lease (hD.keeps hd hk)) trivial)
    (fun s' hk => hinherits (hD.keeps hd hk)) fun s' u choice s'' ret hk _ heq _ => ?_
  cases heq
  exact hD.keeps hd hk

end Steady

/-! ## The slot -/

/-- IDLE is won. -/
theorem Free.acquire (h : Free c p f s) : Holds c p f (s.acquire p f) :=
  ⟨⟨h.toStands.setFiber rfl rfl rfl rfl rfl, h.lease⟩, congrArg Fiber.holder fibers_setFiber_self⟩

/-- IDLE is stored. -/
theorem Holds.release (h : Holds c p f s) : Free c p f (s.release f) :=
  ⟨h.toStands.setFiber rfl rfl rfl rfl rfl, h.lease⟩

theorem wp_claimFixed {F : Root → Prop} (hF : Fixed p f F) (h : Free c p f s) (hf : F s)
    (hc : c.Away) :
    leasing.wp p (perform (.claim f)) (fun _ s' => Holds c p f s' ∧ F s') s := by
  refine wp_wait rfl (fun s' hk _ => due_of_free (h.keeps hk).lease (h.keeps hk).made)
    (fun s' hk => (h.keeps hk).inherits_nothing hc) fun s' u choice s'' ret hk _ heq _ => ?_
  simp only [exec] at heq
  split at heq
  · cases heq
    exact ⟨(h.keeps hk).acquire, hF.store (hF.keeps hf h.made hk) (fun _ => rfl) fun _ => rfl⟩
  · cases heq

theorem wp_claim (hs : Sound s) (h : Free c p f s) (hc : c.Away) :
    leasing.wp p (perform (.claim f)) (fun _ s' => Holds c p f s') s := by
  have hany : Fixed p f fun _ => True := ⟨fun _ _ _ => trivial, fun _ _ _ => trivial⟩
  exact leasing.wp_mono hs (wp_claimFixed hany h trivial hc) fun _ _ _ h => h.1

theorem wp_tryClaim (h : Free c p f s) : leasing.wp p (perform (.tryClaim f))
    (fun won s' => if won then Holds c p f s' else Free c p f s') s := by
  refine wp_op rfl rfl (fun s' hk _ => due_of_free (h.keeps hk).lease (h.keeps hk).made)
    fun s' u choice s'' ret hk _ _ heq _ => ?_
  simp only [exec] at heq
  split at heq
  · cases heq
    exact (h.keeps hk).acquire
  · cases heq
    exact h.keeps hk

theorem wp_abandon (h : Holds c p f s) :
    leasing.wp p (perform (.abandon f)) (fun _ s' => Free c p f s') s := by
  refine wp_op rfl rfl (fun s' hk _ => due_of_free (h.keeps hk).lease (h.keeps hk).holding)
    fun s' u choice s'' ret hk _ _ heq _ => ?_
  cases heq
  exact (h.keeps hk).release

theorem wp_storeReleasing (h : Holds c p f s) :
    leasing.wp p (perform (.storeReleasing f)) (fun _ s' => Holds c p f s') s := by
  refine wp_word steady_holds h (fun u => { u with inertia := .releasing }) rfl rfl
    ⟨fun _ => rfl, fun _ => rfl, fun _ => rfl, fun _ => rfl, fun _ => rfl, fun _ => rfl,
      fun _ => rfl⟩
    (fun _ h => h.holding) fun _ _ _ _ _ h => ?_
  cases h
  rfl

theorem wp_storeActive (h : Holds c p f s) :
    leasing.wp p (perform (.storeActive f)) (fun _ s' => Holds c p f s') s := by
  refine wp_word steady_holds h (fun u => { u with inertia := .active }) rfl rfl
    ⟨fun _ => rfl, fun _ => rfl, fun _ => rfl, fun _ => rfl, fun _ => rfl, fun _ => rfl,
      fun _ => rfl⟩
    (fun _ h => h.holding) fun _ _ _ _ _ h => ?_
  cases h
  rfl

/-- The exchange fails only where a kick claimed the releasing slot for its holder. -/
theorem wp_exchangeIdle (h : Holds c p f s) : leasing.wp p (perform (.exchangeIdle f))
    (fun answer s' => match answer with
      | .ok () => Free c p f s'
      | .error word => word = .active ∧ Holds c p f s') s := by
  refine wp_op rfl rfl (fun s' hk _ => due_of_free (h.keeps hk).lease (h.keeps hk).holding)
    fun s' u choice s'' ret hk hs' _ heq _ => ?_
  have h' := h.keeps hk
  simp only [exec] at heq
  split at heq
  · cases heq
    exact h'.release
  · rename_i hreleasing
    cases heq
    refine ⟨?_, h'⟩
    cases hword : (s'.fibers f).inertia with
    | active => rfl
    | releasing => exact absurd hword hreleasing
    | idle => cases h'.holder.symm.trans (hs'.free hword)

theorem wp_exitRecheck (h : Holds c p f s) : leasing.wp p (exitRecheck f)
    (fun kept s' => if kept then Holds c p f s' else Free c p f s') s := by
  refine leasing.wp_iterate (fun _ s' => Holds c p f s') h fun _ s₀ hs₀ h₀ => ?_
  refine leasing.wp_seq hs₀ (wp_storeReleasing h₀) fun _ s₁ hs₁ h₁ => ?_
  have hprobe : leasing.wp p (perform (.probe f)) (fun _ s' => Holds c p f s') s₁ := by
    refine wp_look steady_holds h₁ rfl rfl (fun _ => trivial) fun _ _ _ _ _ h => ?_
    cases h
    rfl
  refine leasing.wp_seq hs₁ hprobe fun found s₂ hs₂ h₂ => ?_
  cases found with
  | drifted => exact leasing.wp_seq hs₂ (wp_storeActive h₂) fun _ _ _ h₃ => h₃
  | revised => exact h₂
  | settled =>
      refine leasing.wp_seq hs₂ (wp_exchangeIdle h₂) fun answer s₃ hs₃ h₃ => ?_
      cases answer with
      | ok => exact h₃
      | error word =>
          rcases h₃ with ⟨rfl, h₃⟩
          exact h₃

/-! ## Applies -/

/-- The pair of a live Fiber is home for its holder. -/
theorem wp_take (h : Live c p f s) (hplugin : (s.fibers f).plugin = r) :
    leasing.wp p (perform (.take r))
      (fun taken s' => ∃ pair, taken = some pair ∧ Applies c p f r pair s') s := by
  have hleased : ∀ {s'}, Keeps p s s' → Leased s' r p f := fun hk =>
    ⟨(h.keeps hk).made, plugin_keeps hk h.made hplugin, (h.keeps hk).holder, (h.keeps hk).alive⟩
  refine wp_op rfl rfl (fun s' hk _ => due_of_free (h.keeps hk).lease
    ⟨(h.keeps hk).lease, f, hleased hk⟩) fun s' u choice s'' ret hk hs' _ heq _ => ?_
  have h' := h.keeps hk
  rcases take_spec hs' h'.lease (hleased hk) with ⟨hpair, hlease, hsame, -, -⟩
  have hs'' : s'' = (s'.take p r).1 := (congrArg Prod.fst (Option.some.inj heq)).symm
  have hret : ret = (s'.take p r).2 := (congrArg Prod.snd (Option.some.inj heq)).symm
  subst hs'' hret
  refine ⟨_, hpair, h'.toStands.undisturbed hsame, hlease, ?_⟩
  rw [hsame.fibers]
  exact h'.holder

/-- The future is dropped inside its apply, or the apply ends. -/
theorem wp_apply (h : Applies c p f r pair s) (hc : c.At f) :
    leasing.wp p (perform (.apply r pair)) (fun _ s' => Applies c p f r pair s') s := by
  refine wp_wait rfl (fun s' hk _ => ⟨(h.keeps hk).lease, fun r' pair' hlease => ?_⟩)
    (fun s' hk => (h.keeps hk).inherits hc (h.keeps hk).holder) fun s' u choice s'' ret hk _ heq _ => ?_
  · cases (h.keeps hk).lease.symm.trans hlease
    exact .inl rfl
  · cases heq
    exact h.keeps hk

/-- The drop of a lease, by an apply that ended or by a destructor. -/
theorem wp_dropLease {D D' : Root → Prop} (hs : Sound s) (hd : D s) (hD : ∀ {s s'}, D s → Keeps p s s' → D s')
    (hlease : ∀ {s}, D s → s.lease p = some (r, pair))
    (hD' : ∀ {s s'}, D s → Undisturbed s s' → s'.lease p = none → D' s') :
    leasing.wp p (dropLease r pair) (fun _ s' => D' s') s := by
  have hreplace : leasing.wp p (perform (.replace r pair))
      (fun replaced s' => replaced = none ∧ D' s') s := by
    refine wp_op rfl rfl (fun s' hk _ => ⟨hlease (hD hd hk), fun r' pair' hlease' => ?_⟩)
      fun s' u choice s'' ret hk hs' _ heq _ => ?_
    · cases (hlease (hD hd hk)).symm.trans hlease'
      exact .inr rfl
    · have hs'' : s'' = (s'.replace p r pair).1 := (congrArg Prod.fst (Option.some.inj heq)).symm
      have hret : ret = (s'.replace p r pair).2 := (congrArg Prod.snd (Option.some.inj heq)).symm
      rcases replace_spec hs' (hlease (hD hd hk)) with ⟨hnone, hreturned, hsame, -, -⟩
      subst hs'' hret
      exact ⟨hnone, hD' (hD hd hk) hsame hreturned⟩
  refine leasing.wp_seq hs hreplace fun replaced s₁ hs₁ h₁ => ?_
  rcases h₁ with ⟨rfl, h₁⟩
  exact h₁

theorem wp_applyBoxed (hs : Sound s) (h : Live c p f s) (hplugin : (s.fibers f).plugin = r)
    (hc : c.At f) : leasing.wp p (applyBoxed r) (fun _ s' => Holds c p f s') s := by
  refine leasing.wp_seq hs (wp_take h hplugin) fun taken s₁ hs₁ h₁ => ?_
  rcases h₁ with ⟨pair, rfl, h₁⟩
  refine leasing.wp_seq hs₁ (wp_apply h₁ hc) fun outcome s₂ hs₂ h₂ => ?_
  refine leasing.wp_seq hs₂ (wp_dropLease hs₂ h₂ (fun h hk => h.keeps hk) (fun h => h.lease)
    fun h hsame hlease => ⟨⟨h.toStands.undisturbed hsame, hlease⟩, ?_⟩) fun _ _ _ h₃ => h₃
  rw [hsame.fibers]
  exact h.holder

/-! ## One settle -/

theorem Live.inherits (h : Live c p f s) (hc : c.At f) : Inherits p s :=
  h.toStands.inherits hc h.holder

theorem wp_unload (hs : Sound s) (h : Live c p f s) (hc : c.At f) :
    leasing.wp p (unload f) (fun _ s' => Live c p f s') s :=
  leasing.wp_seq hs (wp_transition steady_live h fun _ => nofun) fun _ _ _ h₁ =>
    wp_drain steady_live h₁ fun h => h.inherits hc

theorem wp_unloadLive (hs : Sound s) (h : Live c p f s) (hc : c.At f) :
    leasing.wp p (unloadLive f) (fun _ s' => Live c p f s') s := by
  refine leasing.wp_seq hs (wp_state steady_live h) fun current s₁ hs₁ h₁ => ?_
  cases current with
  | active | failed | loading => exact wp_unload hs₁ h₁.1 hc
  | pending | unloading | disposed => exact h₁.1

theorem wp_publishOutcome {outcome : ApplyOutcome} (hs : Sound s) (h : Holds c p f s)
    (hc : c.At f) : leasing.wp p (publishOutcome f outcome) (fun _ s' => Holds c p f s') s := by
  have hunload : leasing.wp p (unload f) (fun _ s' => Holds c p f s') s :=
    leasing.wp_seq hs (wp_transition steady_holds h fun _ => nofun) fun _ _ _ h₁ =>
      wp_drain steady_holds h₁ fun h => h.toStands.inherits hc h.holder
  cases outcome with
  | succeeded => exact wp_transition steady_holds h fun _ => nofun
  | returned _ | panicked _ =>
      exact leasing.wp_seq hs hunload fun _ _ _ h₁ => wp_transition steady_holds h₁ fun _ => nofun

theorem wp_applyOnce (hs : Sound s) (h : Live c p f s) (hc : c.At f) :
    leasing.wp p (applyOnce f) (fun _ s' => Holds c p f s') s := by
  refine leasing.wp_seq hs (wp_plugin steady_live h) fun r s₁ hs₁ h₁ => ?_
  refine leasing.wp_seq hs₁ (wp_transition (steady_live.and fixed_plugin) h₁ fun _ => nofun) fun _ s₂ hs₂ h₂ => ?_
  refine leasing.wp_seq hs₂ (wp_applyBoxed hs₂ h₂.1 h₂.2 hc) fun outcome s₃ hs₃ h₃ => ?_
  exact leasing.wp_seq hs₃ (wp_setApplied steady_holds h₃) fun _ s₄ hs₄ h₄ =>
    wp_publishOutcome hs₄ h₄ hc

theorem wp_leavesFirstApply {owns : Bool} (h : Live c p f s) :
    leasing.wp p (leavesFirstApply f owns) (fun _ s' => Live c p f s') s := by
  cases owns with
  | true => exact h
  | false =>
      refine wp_look steady_live h rfl rfl (fun _ => trivial) fun _ _ _ _ _ h => ?_
      cases h
      rfl

theorem wp_settleOnce {missing owns : Bool} (hs : Sound s) (h : Holds c p f s) (hc : c.At f) :
    leasing.wp p (settleOnce f missing owns) (fun _ s' => Holds c p f s') s := by
  refine leasing.wp_seq hs (wp_isAlive steady_holds h) fun alive s₁ hs₁ h₁ => ?_
  cases alive with
  | false => exact h₁.1
  | true =>
      refine leasing.wp_seq hs₁ (wp_unloadLive hs₁ ⟨h₁.1, h₁.2⟩ hc) fun _ s₂ hs₂ h₂ => ?_
      cases missing with
      | true =>
          exact leasing.wp_mono hs₂ (wp_transition steady_live h₂ fun _ => nofun)
            fun _ _ _ h => h.toHolds
      | false =>
          refine leasing.wp_seq hs₂ (wp_leavesFirstApply h₂) fun leaves s₃ hs₃ h₃ => ?_
          cases leaves with
          | true => exact h₃.toHolds
          | false => exact wp_applyOnce hs₃ h₃ hc

/-! ## Teardown -/

/-- The death mark. -/
theorem wp_kill (h : Holds c p f s) :
    leasing.wp p (perform (.kill f)) (fun _ s' => Dead c p f s') s := by
  refine wp_op rfl rfl (fun s' hk _ => due_of_free (h.keeps hk).lease (h.keeps hk).holding)
    fun s' u choice s'' ret hk _ _ heq _ => ?_
  have h' := h.keeps hk
  cases heq
  exact ⟨⟨⟨h'.toStands.setFiber rfl rfl rfl rfl rfl, h'.lease⟩,
    (setFiber_same Fiber.holder rfl f).trans h'.holder⟩, congrArg Fiber.alive fibers_setFiber_self⟩

theorem wp_teardownBody (hs : Sound s) (h : Holds c p f s) (hc : c.At f) :
    leasing.wp p (teardownBody f) (fun _ s' => Dead c p f s') s := by
  refine leasing.wp_seq hs (wp_closeCreation steady_holds h) fun _ s₁ hs₁ h₁ => ?_
  refine leasing.wp_seq hs₁ (wp_state steady_holds h₁) fun current s₂ hs₂ h₂ => ?_
  by_cases hdisposed : current = .disposed
  · rw [if_pos hdisposed]
    exact ⟨h₂.1, h₂.2 hdisposed⟩
  · rw [if_neg hdisposed]
    refine leasing.wp_seq hs₂ (wp_transition steady_holds h₂.1 fun _ => nofun) fun _ s₃ hs₃ h₃ => ?_
    refine leasing.wp_seq hs₃ (wp_kill h₃) fun _ s₄ hs₄ h₄ => ?_
    refine leasing.wp_seq hs₄ (wp_drain steady_dead h₄ fun h => h.toStands.inherits hc h.holder)
      fun _ s₅ hs₅ h₅ => ?_
    exact wp_transition steady_dead h₅ fun h _ => h.dead

/-- The slot is given back, and the Fiber is dead and disposed of. -/
structure Retired (c : Role) (p : Party) (f : FiberId) (s : Root) : Prop extends Free c p f s where
  dead : (s.fibers f).alive = false
  complete : (s.fibers f).disposeComplete = true

theorem Retired.keeps (h : Retired c p f s) (hk : Keeps p s s') : Retired c p f s' :=
  ⟨h.toFree.keeps hk, (hk.fiber f).dead h.dead, (hk.fiber f).complete h.complete⟩

theorem wp_completeClaimedDispose (hs : Sound s) (h : Holds c p f s) (hc : c.At f) :
    leasing.wp p (completeClaimedDispose f) (fun _ s' => Retired c p f s') s := by
  refine leasing.wp_seq hs (wp_teardownBody hs h hc) fun _ s₁ hs₁ h₁ => ?_
  have habandon : leasing.wp p (perform (.abandon f))
      (fun _ s' => Free c p f s' ∧ (s'.fibers f).alive = false) s₁ := by
    refine wp_op rfl rfl (fun s' hk _ => due_of_free (h₁.keeps hk).lease (h₁.keeps hk).holding)
      fun s' u choice s'' ret hk _ _ heq _ => ?_
    have h' := h₁.keeps hk
    cases heq
    exact ⟨h'.release, (setFiber_same Fiber.alive rfl f).trans h'.dead⟩
  refine leasing.wp_seq hs₁ habandon fun _ s₂ hs₂ h₂ => ?_
  refine wp_op rfl rfl (fun s' hk _ => due_of_free (h₂.1.keeps hk).lease (h₂.1.keeps hk).made)
    fun s' u choice s'' ret hk _ _ heq _ => ?_
  have h' := h₂.1.keeps hk
  have hdead := (hk.fiber f).dead h₂.2
  cases heq
  exact ⟨⟨h'.toStands.setFiber rfl rfl rfl rfl rfl, h'.lease⟩,
    (setFiber_same Fiber.alive rfl f).trans hdead,
    congrArg Fiber.disposeComplete fibers_setFiber_self⟩

theorem wp_creationTeardown (hs : Sound s) (h : Holds c p f s) (hc : c.At f) :
    leasing.wp p (creationTeardown f) (fun _ s' => Holds c p f s') s := by
  refine leasing.wp_seq hs (wp_markTerminal steady_holds h) fun _ s₁ hs₁ h₁ => ?_
  refine leasing.wp_seq hs₁ (wp_teardownBody hs₁ h₁ hc) fun _ s₂ hs₂ h₂ => ?_
  exact wp_publishDisposeComplete steady_holds h₂.toHolds

end Lease
end CordisCore
