import CordisCore.Lease.Seals

/-!
# Accesses — every operation keeps the invariant and what the others rely on
-/

namespace CordisCore
namespace Lease

open Interleaving
open CordisCore.Runtime (Contract FiberId FiberState Inertia Input)

variable {p q t : Party} {f : FiberId} {r : SealId} {s s' : Root}

/-! ## The slot -/

/-- Nobody applies on a Fiber whose slot is free. -/
theorem Sound.unleased_of_free (hs : Sound s) (hf : f < s.nextFiber)
    (h : (s.fibers f).holder = none) : (s.seals (s.fibers f).plugin).lessee = none := by
  cases hlessee : (s.seals (s.fibers f).plugin).lessee with
  | none => rfl
  | some b =>
      rcases (hs.lent _ b hlessee).2 with ⟨g, hg⟩
      have hsame : g = f := hs.apart g f hg.made hf hg.plugin
      rw [← hsame, hg.holder] at h
      cases h

theorem Sound.free (hs : Sound s) (h : (s.fibers f).inertia = .idle) : (s.fibers f).holder = none :=
  (hs.fiber f).idle.mpr h

theorem Holding.ne (h : Holding p f s) (ht : t ≠ p) : (s.fibers f).holder ≠ some t := by
  intro heq
  exact ht (Option.some.inj (heq.symm.trans h.holder))

/-- One Fiber changes within what its holder, its creator and its disposer rely on. -/
theorem setFiber_spec {g : Fiber → Fiber} (hs : Sound s) (hf : f < s.nextFiber)
    (h : FiberStep s (s.fibers f) (g (s.fibers f)))
    (hk : FiberKeeps t (s.fibers f) (g (s.fibers f))) :
    Sound (s.setFiber f g) ∧ Keeps t s (s.setFiber f g) :=
  ⟨hs.setFiber hf h, keeps_setFiber hk h.plugin h.contract⟩

/-- The words that no invariant mentions. -/
structure Aside (u u' : Fiber) : Prop where
  plugin : u'.plugin = u.plugin
  contract : u'.contract = u.contract
  creator : u'.creator = u.creator
  alive : u'.alive = u.alive
  holder : u'.holder = u.holder
  terminal : u'.terminal = u.terminal
  complete : u.disposeComplete = true → u'.disposeComplete = true
  disposing : u.disposing = true → u'.disposing = true
  idle : u'.inertia = .idle ↔ u.inertia = .idle
  disposed : u'.state = .disposed → u'.alive = false

theorem Aside.spec {g : Fiber → Fiber} (h : Aside (s.fibers f) (g (s.fibers f))) (hs : Sound s)
    (hf : f < s.nextFiber)
    (howned : (s.fibers f).creator = some t →
      (g (s.fibers f)).creationOwned = (s.fibers f).creationOwned) :
    Sound (s.setFiber f g) ∧ Keeps t s (s.setFiber f g) := by
  have hconsistent := hs.fiber f
  refine setFiber_spec hs hf {
    consistent := ⟨?_, fun hterminal => ?_, h.disposed⟩
    plugin := h.plugin
    contract := h.contract
    creator := h.creator
    dead := fun hdead => h.alive.trans hdead
    complete := h.complete
    disposing := h.disposing
    held := .inl ⟨h.holder, h.alive⟩ } {
    dead := fun hdead => h.alive.trans hdead
    complete := h.complete
    holder := by rw [h.holder]
    held := fun _ => h.alive
    creator := by rw [h.creator]
    owned := howned
    terminal := by rw [h.terminal] }
  · rw [h.holder, hconsistent.idle, h.idle]
  · exact h.disposing (hconsistent.terminal (h.terminal ▸ hterminal))

theorem acquire_spec (hs : Sound s) (hf : f < s.nextFiber) (h : (s.fibers f).inertia = .idle)
    (ht : t ≠ p) : Sound (s.acquire p f) ∧ Keeps t s (s.acquire p f) := by
  have hfree := hs.free h
  have hconsistent := hs.fiber f
  refine setFiber_spec hs hf {
    consistent := ⟨⟨nofun, nofun⟩, hconsistent.terminal, hconsistent.disposed⟩
    plugin := rfl
    contract := rfl
    creator := rfl
    dead := id
    complete := id
    disposing := id
    held := .inr (hs.unleased_of_free hf hfree) } { FiberKeeps.refl t (s.fibers f) with
    holder := ⟨fun heq => absurd (Option.some.inj heq).symm ht, fun heq => ?_⟩ }
  cases hfree.symm.trans heq

theorem release_spec (hs : Sound s) (h : Holding p f s) (ht : t ≠ p) :
    Sound (s.release f) ∧ Keeps t s (s.release f) := by
  have hconsistent := hs.fiber f
  refine setFiber_spec hs (hs.made_of_holder h.holder) {
    consistent := ⟨⟨fun _ => rfl, fun _ => rfl⟩, hconsistent.terminal, hconsistent.disposed⟩
    plugin := rfl
    contract := rfl
    creator := rfl
    dead := id
    complete := id
    disposing := id
    held := .inr (hs.unleased h) } { FiberKeeps.refl t (s.fibers f) with
    holder := ⟨nofun, fun heq => absurd heq (h.ne ht)⟩
    held := fun heq => absurd heq (h.ne ht) }

theorem handOver_spec (hs : Sound s) (h : Holding p f s) (ht : t ≠ p) (htq : t ≠ q) :
    Sound (s.handOver p q f) ∧ Keeps t s (s.handOver p q f) := by
  have hconsistent := hs.fiber f
  have hbusy : (s.fibers f).inertia ≠ .idle := fun hidle => by
    cases h.holder.symm.trans (hs.free hidle)
  refine setFiber_spec hs (hs.made_of_holder h.holder) {
    consistent := ⟨⟨nofun, fun hidle => absurd hidle hbusy⟩, fun hterminal => ?_,
      hconsistent.disposed⟩
    plugin := rfl
    contract := rfl
    creator := rfl
    dead := id
    complete := id
    disposing := id
    held := .inr (hs.unleased h) } { FiberKeeps.refl t (s.fibers f) with
    holder := ⟨fun heq => absurd (Option.some.inj heq).symm htq, fun heq => absurd heq (h.ne ht)⟩
    held := fun heq => absurd heq (h.ne ht)
    terminal := ?_ }
  · refine hconsistent.terminal fun hnone => hterminal ?_
    show (if (s.fibers f).terminal = some p then some q else (s.fibers f).terminal) = none
    rw [hnone]
    rfl
  · show (if (s.fibers f).terminal = some p then some q else (s.fibers f).terminal) = some t ↔
      (s.fibers f).terminal = some t
    split
    · rename_i hown
      rw [hown]
      exact ⟨fun heq => absurd (Option.some.inj heq).symm htq,
        fun heq => absurd (Option.some.inj heq).symm ht⟩
    · exact Iff.rfl

theorem kill_spec (hs : Sound s) (h : Holding p f s) (ht : t ≠ p) :
    Sound (s.setFiber f fun u => { u with alive := false }) ∧
      Keeps t s (s.setFiber f fun u => { u with alive := false }) := by
  have hconsistent := hs.fiber f
  refine setFiber_spec hs (hs.made_of_holder h.holder) {
    consistent := ⟨hconsistent.idle, hconsistent.terminal, fun _ => rfl⟩
    plugin := rfl
    contract := rfl
    creator := rfl
    dead := fun _ => rfl
    complete := id
    disposing := id
    held := .inr (hs.unleased h) } {
    dead := fun _ => rfl
    complete := id
    holder := Iff.rfl
    held := fun heq => absurd heq (h.ne ht)
    creator := Iff.rfl
    owned := fun _ => rfl
    terminal := Iff.rfl }

theorem claimTerminal_spec (hs : Sound s) (hf : f < s.nextFiber) (ht : t ≠ p) :
    Sound (s.claimTerminal p f).1 ∧ Keeps t s (s.claimTerminal p f).1 := by
  have hconsistent := hs.fiber f
  refine setFiber_spec (g := fun u => { u with
    disposing := true
    terminal := if u.disposing then u.terminal else some p }) hs hf {
    consistent := ⟨hconsistent.idle, fun _ => rfl, hconsistent.disposed⟩
    plugin := rfl
    contract := rfl
    creator := rfl
    dead := id
    complete := id
    disposing := fun _ => rfl
    held := .inl ⟨rfl, rfl⟩ } {
    dead := id
    complete := id
    holder := Iff.rfl
    held := fun _ => rfl
    creator := Iff.rfl
    owned := fun _ => rfl
    terminal := ?_ }
  show (if (s.fibers f).disposing = true then (s.fibers f).terminal else some p) = some t ↔
    (s.fibers f).terminal = some t
  split
  · exact Iff.rfl
  · rename_i hopen
    -- nobody committed a disposal of an open Fiber
    refine ⟨fun heq => absurd (Option.some.inj heq).symm ht, fun heq => ?_⟩
    exact absurd (hconsistent.terminal (by rw [heq]; nofun)) hopen

/-! ## Every operation -/

variable {c : Choice} {op : Op} {ret : op.Ret}

theorem exec_spec (hs : Sound s) (hd : Due p op s) (hexec : exec p q c op s = some (s', ret))
    (ht : t ≠ p) (htq : forks op ≠ none → t ≠ q) : Sound s' ∧ Keeps t s s' := by
  have hentitled := hd.entitled
  -- reads change nothing; the rest is one lemma for each kind of access
  have hself : Sound s ∧ Keeps t s s := ⟨hs, .refl t s⟩
  cases op with
  | ask | inertia | probe | isIdle | isAlive | isDisposing | disposeComplete | state | drain
  | awaitsFirstApply | contract | plugin | apply =>
      cases hexec
      exact hself
  | claim f =>
      simp only [exec] at hexec
      split at hexec
      · rename_i hidle
        cases hexec
        exact acquire_spec hs hentitled hidle ht
      · cases hexec
  | tryClaim f =>
      simp only [exec] at hexec
      split at hexec
      · rename_i hidle
        cases hexec
        exact acquire_spec hs hentitled hidle ht
      · cases hexec
        exact hself
  | reclaim f =>
      simp only [exec] at hexec
      split at hexec
      · rename_i hreleasing
        cases hexec
        -- a slot that is RELEASING belongs to a Fiber that exists
        have hf : f < s.nextFiber := by
          refine Nat.lt_of_not_le fun hle => ?_
          rw [hs.unborn f hle] at hreleasing
          cases hreleasing
        have hbusy : (s.fibers f).inertia ≠ .idle := by
          rw [hreleasing]
          nofun
        exact Aside.spec ⟨rfl, rfl, rfl, rfl, rfl, rfl, id, id,
          ⟨nofun, fun hidle => absurd hidle hbusy⟩, (hs.fiber f).disposed⟩ hs hf fun _ => rfl
      · cases hexec
        exact hself
  | storeReleasing f | storeActive f =>
      cases hexec
      have hheld : Holding p f s := hentitled
      have hbusy : (s.fibers f).inertia ≠ .idle := fun hidle => by
        cases hheld.holder.symm.trans (hs.free hidle)
      exact Aside.spec ⟨rfl, rfl, rfl, rfl, rfl, rfl, id, id,
        ⟨nofun, fun hidle => absurd hidle hbusy⟩, (hs.fiber f).disposed⟩ hs
        (hs.made_of_holder hheld.holder) fun _ => rfl
  | exchangeIdle f =>
      simp only [exec] at hexec
      split at hexec
      · cases hexec
        exact release_spec hs hentitled ht
      · cases hexec
        exact hself
  | abandon f =>
      cases hexec
      exact release_spec hs hentitled ht
  | setCreationOwned f owned =>
      cases hexec
      have hcreator : (s.fibers f).creator = some p := hentitled
      refine Aside.spec ⟨rfl, rfl, rfl, rfl, rfl, rfl, id, id, Iff.rfl, (hs.fiber f).disposed⟩ hs
        (hs.made_of_creator hcreator) fun heq => ?_
      exact absurd (Option.some.inj (heq.symm.trans hcreator)) ht
  | takeCreationOwnership f =>
      cases hexec
      have hcreator : (s.fibers f).creator = some p := hentitled
      have hstep : Sound (s.setFiber f fun u => { u with creationOwned := false }) ∧
          Keeps t s (s.setFiber f fun u => { u with creationOwned := false }) := by
        refine Aside.spec ⟨rfl, rfl, rfl, rfl, rfl, rfl, id, id, Iff.rfl, (hs.fiber f).disposed⟩ hs
          (hs.made_of_creator hcreator) fun heq => ?_
        exact absurd (Option.some.inj (heq.symm.trans hcreator)) ht
      exact ⟨hstep.1.setGuard nofun, hstep.2.trans (keeps_setGuard ht)⟩
  | kill f =>
      cases hexec
      exact kill_spec hs hentitled ht
  | claimTerminal f =>
      cases hexec
      exact claimTerminal_spec hs hentitled ht
  | markTerminal f =>
      cases hexec
      exact Aside.spec ⟨rfl, rfl, rfl, rfl, rfl, rfl, id, fun _ => rfl, Iff.rfl,
        (hs.fiber f).disposed⟩ hs hentitled fun _ => rfl
  | publishDisposeComplete f =>
      cases hexec
      exact Aside.spec ⟨rfl, rfl, rfl, rfl, rfl, rfl, fun _ => rfl, id, Iff.rfl,
        (hs.fiber f).disposed⟩ hs hentitled fun _ => rfl
  | waitDisposeComplete f =>
      simp only [exec] at hexec
      split at hexec
      · cases hexec
        exact hself
      · cases hexec
  | transition f next =>
      cases hexec
      exact Aside.spec ⟨rfl, rfl, rfl, rfl, rfl, rfl, id, id, Iff.rfl, hentitled.2⟩ hs hentitled.1
        fun _ => rfl
  | setApplied f | closeCreation f =>
      cases hexec
      exact Aside.spec ⟨rfl, rfl, rfl, rfl, rfl, rfl, id, id, Iff.rfl, (hs.fiber f).disposed⟩ hs
        hentitled fun _ => rfl
  | fromInput contract pair =>
      cases hexec
      exact ⟨sound_make hs rfl, keeps_make hs⟩
  | create r =>
      cases hexec
      exact (create_spec hs hentitled).imp id fun hk => hk t ht
  | disarm f =>
      cases hexec
      exact ⟨hs.setGuard nofun, keeps_setGuard ht⟩
  | take r =>
      rcases hentitled with ⟨hlease, f, hf⟩
      have hspec := (take_spec hs hlease hf).2.2.2
      have hs' : (s.take p r).1 = s' := congrArg Prod.fst (Option.some.inj hexec)
      rw [← hs']
      exact hspec.imp id fun hk => hk t ht
  | replace r pair =>
      have hspec := (replace_spec hs hentitled).2.2.2
      have hs' : (s.replace p r pair).1 = s' := congrArg Prod.fst (Option.some.inj hexec)
      rw [← hs']
      exact hspec.imp id fun hk => hk t ht
  | commitChange f r change =>
      have hspec : Sound (s.commitChange r change).1 ∧
          ∀ t, t ≠ p → Keeps t s (s.commitChange r change).1 :=
        (commitChange_spec change hs hentitled.1 hentitled.2.1 hentitled.2.2.1).2.2.2
      have hs' : (s.commitChange r change).1 = s' := congrArg Prod.fst (Option.some.inj hexec)
      rw [← hs']
      exact hspec.imp id fun hk => hk t ht
  | intoSuccessor r change =>
      rcases hentitled with ⟨f, hf, hterminal, hfate, hcontract⟩
      have hs' : (s.intoSuccessor p r change).1 = s' := congrArg Prod.fst (Option.some.inj hexec)
      rw [← hs']
      rcases intoSuccessor_spec (p := p) hs hf hfate hcontract with ⟨-, -, hsound, -, -, hk⟩
      refine ⟨hsound, hk t fun heq => ht ?_⟩
      exact Option.some.inj (heq.symm.trans hterminal)
  | dropSuperseded r =>
      simp only [exec] at hexec
      split at hexec
      · cases hexec
        exact (destroy_spec hs hentitled).imp id fun hk => hk t ht
      · cases hexec
        exact hself
  | raise => exact hentitled.elim
  | start f routine =>
      cases hexec
      exact handOver_spec hs hentitled.1 ht (htq nofun)

end Lease
end CordisCore
