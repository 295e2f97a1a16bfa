import CordisCore.Lease.Accesses

/-!
# Standing — what a party knows of its Fiber, its guard and its lease

A future that is dropped while it waits leaves its lease and its guard to its
destructors.  If its guard would inherit the slot, it holds the slot of that Fiber.
-/

namespace CordisCore
namespace Lease

open Interleaving
open Interleaving.Program (iterate)
open CordisCore.Runtime (ApplyOutcome Contract FiberId FiberState Inertia Input)

variable {p q : Party} {f : FiberId} {r : SealId} {pair : Pair} {s s' : Root}

/-! ## What a party knows -/

/-- What a party is about besides the Fiber at hand. -/
structure Role where
  /-- The Fiber of its armed guard, and whether the guard would inherit the slot. -/
  guard : Option (FiberId × Bool) := none
  /-- The Fiber whose disposal it committed, with its seal and its contract. -/
  retires : Option (FiberId × SealId × Contract) := none

/-- A guard that would inherit a slot would inherit the one at hand. -/
def Role.At (c : Role) (f : FiberId) : Prop :=
  ∀ g, c.guard = some (g, true) → g = f

/-- The guard would inherit nothing. -/
def Role.Away (c : Role) : Prop :=
  ∀ g, c.guard ≠ some (g, true)

/-- The disposal of a Fiber is committed, and its behavior has not moved on. -/
structure Commits (p : Party) (f : FiberId) (r : SealId) (contract : Contract) (s : Root) :
    Prop where
  made : f < s.nextFiber
  terminal : (s.fibers f).terminal = some p
  plugin : (s.fibers f).plugin = r
  contract : (s.fibers f).contract = contract
  kept : (s.seals r).fate = .kept

structure Stands (c : Role) (p : Party) (f : FiberId) (s : Root) : Prop where
  made : f < s.nextFiber
  guard : s.guard p = c.guard.map Prod.fst
  owned : ∀ g owned, c.guard = some (g, owned) →
    (s.fibers g).creator = some p ∧ (s.fibers g).creationOwned = owned
  retires : ∀ g r contract, c.retires = some (g, r, contract) → Commits p g r contract s

/-- No lease is out. -/
structure Free (c : Role) (p : Party) (f : FiberId) (s : Root) : Prop extends Stands c p f s where
  lease : s.lease p = none

/-- The slot is held. -/
structure Holds (c : Role) (p : Party) (f : FiberId) (s : Root) : Prop extends Free c p f s where
  holder : (s.fibers f).holder = some p

/-- The slot of a live Fiber is held. -/
structure Live (c : Role) (p : Party) (f : FiberId) (s : Root) : Prop extends Holds c p f s where
  alive : (s.fibers f).alive = true

/-- The slot of a dead Fiber is held. -/
structure Dead (c : Role) (p : Party) (f : FiberId) (s : Root) : Prop extends Holds c p f s where
  dead : (s.fibers f).alive = false

/-- A pair is on a lease. -/
structure Applies (c : Role) (p : Party) (f : FiberId) (r : SealId) (pair : Pair) (s : Root) :
    Prop extends Stands c p f s where
  lease : s.lease p = some (r, pair)
  holder : (s.fibers f).holder = some p

/-- A party that is about nothing. -/
structure Idle (p : Party) (s : Root) : Prop where
  lease : s.lease p = none
  guard : s.guard p = none

section Keeps

variable {c : Role} (hk : Keeps p s s')

include hk

theorem Commits.keeps {contract : Contract} (h : Commits p f r contract s) :
    Commits p f r contract s' where
  made := Nat.lt_of_lt_of_le h.made hk.grown
  terminal := (hk.fiber f).terminal.mpr h.terminal
  plugin := (hk.installed f h.made).1.trans h.plugin
  contract := (hk.installed f h.made).2.trans h.contract
  kept := by
    have hfate := hk.fate f h.made h.terminal
    rw [h.plugin] at hfate
    exact hfate.trans h.kept

theorem Stands.keeps (h : Stands c p f s) : Stands c p f s' where
  made := Nat.lt_of_lt_of_le h.made hk.grown
  guard := hk.guard.trans h.guard
  owned g owned hg := by
    have hcreator := (h.owned g owned hg).1
    exact ⟨(hk.fiber g).creator.mpr hcreator,
      ((hk.fiber g).owned hcreator).trans (h.owned g owned hg).2⟩
  retires g r contract hg := (h.retires g r contract hg).keeps hk

theorem Free.keeps (h : Free c p f s) : Free c p f s' :=
  ⟨h.toStands.keeps hk, hk.lease.trans h.lease⟩

theorem Holds.keeps (h : Holds c p f s) : Holds c p f s' :=
  ⟨h.toFree.keeps hk, (hk.fiber f).holder.mpr h.holder⟩

theorem Live.keeps (h : Live c p f s) : Live c p f s' :=
  ⟨h.toHolds.keeps hk, ((hk.fiber f).held h.holder).trans h.alive⟩

theorem Dead.keeps (h : Dead c p f s) : Dead c p f s' :=
  ⟨h.toHolds.keeps hk, (hk.fiber f).dead h.dead⟩

theorem Applies.keeps (h : Applies c p f r pair s) : Applies c p f r pair s' :=
  ⟨h.toStands.keeps hk, hk.lease.trans h.lease, (hk.fiber f).holder.mpr h.holder⟩

theorem Idle.keeps (h : Idle p s) : Idle p s' :=
  ⟨hk.lease.trans h.lease, hk.guard.trans h.guard⟩

/-- What a Fiber was made with stays. -/
theorem plugin_keeps (hf : f < s.nextFiber) (h : (s.fibers f).plugin = r) :
    (s'.fibers f).plugin = r :=
  (hk.installed f hf).1.trans h

end Keeps

theorem Holds.holding {c : Role} (h : Holds c p f s) : Holding p f s :=
  ⟨h.holder, h.lease⟩

theorem Free.idle {c : Role} (h : Free c p f s) (hc : c.guard = none) : Idle p s := by
  refine ⟨h.lease, ?_⟩
  rw [h.guard, hc]
  rfl

/-- A party may stand for less. -/
theorem Free.plain {c : Role} (h : Free c p f s) (hc : c.guard = none) : Free {} p f s :=
  ⟨⟨h.made, (h.idle hc).guard, nofun, nofun⟩, h.lease⟩

section SetFiber

variable {c : Role} {g : Fiber → Fiber} {x : FiberId}

theorem Stands.setFiber (h : Stands c p f s)
    (hplugin : (g (s.fibers x)).plugin = (s.fibers x).plugin)
    (hcontract : (g (s.fibers x)).contract = (s.fibers x).contract)
    (hcreator : (g (s.fibers x)).creator = (s.fibers x).creator)
    (howned : (g (s.fibers x)).creationOwned = (s.fibers x).creationOwned)
    (hterminal : (g (s.fibers x)).terminal = (s.fibers x).terminal) :
    Stands c p f (s.setFiber x g) where
  made := h.made
  guard := h.guard
  owned y owned hy := ⟨(setFiber_same Fiber.creator hcreator y).trans (h.owned y owned hy).1,
    (setFiber_same Fiber.creationOwned howned y).trans (h.owned y owned hy).2⟩
  retires y r contract hy := by
    have hold := h.retires y r contract hy
    exact ⟨hold.made, (setFiber_same Fiber.terminal hterminal y).trans hold.terminal,
      (setFiber_same Fiber.plugin hplugin y).trans hold.plugin,
      (setFiber_same Fiber.contract hcontract y).trans hold.contract, hold.kept⟩

end SetFiber

theorem Stands.undisturbed {c : Role} (h : Stands c p f s) (hsame : Undisturbed s s') :
    Stands c p f s' where
  made := hsame.nextFiber ▸ h.made
  guard := hsame.guard ▸ h.guard
  owned := by
    rw [hsame.fibers]
    exact h.owned
  retires g r contract hg := by
    have hold := h.retires g r contract hg
    refine ⟨hsame.nextFiber ▸ hold.made, ?_, ?_, ?_, (hsame.fate r).trans hold.kept⟩ <;>
      rw [hsame.fibers]
    · exact hold.terminal
    · exact hold.plugin
    · exact hold.contract

/-! ## The logic -/

/-- What holds for a party at the start of a routine. -/
def Pre : Routine → Party → Root → Prop
  | .spawn _ _, p, s => Idle p s
  | .kick f, p, s | .restart f, p, s | .update f _, p, s | .eraSwap f _, p, s
  | .dispose f, p, s => Free {} p f s
  | .convergencePass f, p, s | .replacementCommitted f, p, s
  | .completeClaimedDispose f, p, s => Holds {} p f s
  | .runCommittedReplacement f r change, p, s => Holds { retires := some (f, r, change.contract) } p f s
  | .unwind lease guard, p, s => s.lease p = lease ∧ s.guard p = guard ∧
      ∀ f, guard = some f → (s.fibers f).creationOwned = true → (s.fibers f).holder = some p

def leasing : Logic protocol tailIdle where
  inv := Sound
  rely := Keeps
  blank := Idle
  pre := Pre
  post p _ := Idle p
  check := Due
  rely_refl := Keeps.refl
  rely_trans := Keeps.trans
  blank_rely h hk := h.keeps hk
  post_rely h hk := h.keeps hk

theorem due_of_free {op : Op} (h : s.lease p = none) (hentitled : Entitled p s op) : Due p op s :=
  ⟨hentitled, fun r pair hlease => by cases h.symm.trans hlease⟩

/-! ## Operations -/

theorem sound_exec {c : Choice} {op : Op} {ret : op.Ret} (hs : Sound s) (hd : Due p op s)
    (hexec : exec p q c op s = some (s', ret)) : Sound s' := by
  -- a party that is neither of the two
  have ht : p + q + 1 ≠ p := Nat.ne_of_gt (Nat.lt_succ_of_le (Nat.le_add_right p q))
  have htq : forks op ≠ none → p + q + 1 ≠ q := fun _ =>
    Nat.ne_of_gt (Nat.lt_succ_of_le (Nat.le_add_left q p))
  exact (exec_spec hs hd hexec ht htq).1

/-- An operation that forks nothing and does not wait. -/
theorem wp_op {op : Op} {Q : op.Ret → Root → Prop} (hforks : forks op = none)
    (hawaits : awaits op = false) (hdue : ∀ s', Keeps p s s' → Sound s' → Due p op s')
    (h : ∀ s' u c s'' ret, Keeps p s s' → Sound s' → tailIdle p c op s' →
      exec p u c op s' = some (s'', ret) → Sound s'' → Q ret s'') :
    leasing.wp p (perform op) Q s := by
  refine leasing.wp_perform fun s' hk hs' => ⟨hdue s' hk hs', ?_, fun hwaits => ?_⟩
  · refine Logic.Performs.of_step hforks fun u c s'' ret hok _ hexec => ?_
    have hd := hdue s' hk hs'
    refine ⟨sound_exec hs' hd hexec, fun t ht => ?_, h s' u c s'' ret hk hs' hok hexec
      (sound_exec hs' hd hexec)⟩
    exact (exec_spec hs' hd hexec ht fun hfork => absurd hforks hfork).2
  · rw [show protocol.awaits op = awaits op from rfl, hawaits] at hwaits
    cases hwaits

/-- The guard of a party that is dropped here inherits a slot that the party holds. -/
def Inherits (p : Party) (s : Root) : Prop :=
  ∀ f, s.guard p = some f → (s.fibers f).creationOwned = true → (s.fibers f).holder = some p

theorem Stands.inherits {c : Role} (h : Stands c p f s) (hc : c.At f)
    (hholder : (s.fibers f).holder = some p) : Inherits p s := by
  intro g hg howned
  rw [h.guard] at hg
  rcases Option.map_eq_some_iff.mp hg with ⟨⟨g', owned⟩, hguard, rfl⟩
  have hsame := (h.owned g' owned hguard).2
  rw [howned] at hsame
  subst hsame
  rw [show g' = f from hc g' hguard]
  exact hholder

theorem Stands.inherits_nothing {c : Role} (h : Stands c p f s) (hc : c.Away) : Inherits p s := by
  intro g hg howned
  rw [h.guard] at hg
  rcases Option.map_eq_some_iff.mp hg with ⟨⟨g', owned⟩, hguard, rfl⟩
  have hsame := (h.owned g' owned hguard).2
  rw [howned] at hsame
  subst hsame
  exact absurd hguard (hc g')

/-- An operation at which the future may be dropped. -/
theorem wp_wait {op : Op} {Q : op.Ret → Root → Prop} (hforks : forks op = none)
    (hdue : ∀ s', Keeps p s s' → Sound s' → Due p op s')
    (hinherits : ∀ s', Keeps p s s' → Inherits p s')
    (h : ∀ s' u c s'' ret, Keeps p s s' → Sound s' → exec p u c op s' = some (s'', ret) →
      Sound s'' → Q ret s'') : leasing.wp p (perform op) Q s := by
  refine leasing.wp_perform fun s' hk hs' => ⟨hdue s' hk hs', ?_, fun _ _ s'' next hdrop => ?_⟩
  · refine Logic.Performs.of_step hforks fun u c s'' ret _ _ hexec => ?_
    have hd := hdue s' hk hs'
    refine ⟨sound_exec hs' hd hexec, fun t ht => ?_, h s' u c s'' ret hk hs' hexec
      (sound_exec hs' hd hexec)⟩
    exact (exec_spec hs' hd hexec ht fun hfork => absurd hforks hfork).2
  · have heq : s'' = s' := (congrArg Prod.fst (Option.some.inj hdrop)).symm
    have hnext : next = if s'.lease p = none ∧ s'.guard p = none then none
        else some (.unwind (s'.lease p) (s'.guard p)) :=
      (congrArg Prod.snd (Option.some.inj hdrop)).symm
    subst heq
    refine ⟨hs', fun t _ => .refl t s'', ?_⟩
    rw [hnext]
    by_cases hbare : s''.lease p = none ∧ s''.guard p = none
    · rw [if_pos hbare]
      exact ⟨hbare.1, hbare.2⟩
    · rw [if_neg hbare]
      exact ⟨rfl, rfl, hinherits s'' hk⟩

end Lease
end CordisCore
