import CordisCore.Interleaving.Logic
import CordisCore.Lease.Protocol

/-!
# Keeping — where every pair is, and who may move it

A pair is home unless somebody has it on a lease, and whoever has it holds the slot
of the live Fiber that it belongs to.  Only the party that committed a disposal moves
a behavior on, after the Fiber is dead, so no lease is out then.
-/

namespace CordisCore
namespace Lease

open Interleaving
open CordisCore.Runtime (Contract FiberId FiberState Inertia Input)

/-! ## Invariants -/

/-- The pair that a seal stands for. -/
def Seal.pair (u : Seal) : Pair :=
  (u.behaviour, u.committed)

/-- The pair is home exactly when it is kept and nobody has it on a lease. -/
def Seal.Whole (u : Seal) : Prop :=
  u.plugin.state = if u.fate = .kept ∧ u.lessee = none then some u.pair else none

/-- What the words of one Fiber say about each other. -/
structure Consistent (u : Fiber) : Prop where
  idle : u.holder = none ↔ u.inertia = .idle
  terminal : u.terminal ≠ none → u.disposing = true
  disposed : u.state = .disposed → u.alive = false

/-- A seal in its Fiber. -/
structure Installed (s : Root) (u : Fiber) : Prop where
  made : u.plugin < s.nextSeal
  contract : (s.seals u.plugin).plugin.contract = u.contract
  unborne : (s.seals u.plugin).bearer = none
  present : (s.seals u.plugin).fate ≠ .unmade ∧ (s.seals u.plugin).fate ≠ .destroyed

/-- A disposed Fiber without its behavior. -/
structure Emptied (s : Root) (q : SealId) (f : FiberId) : Prop where
  made : f < s.nextFiber
  plugin : (s.fibers f).plugin = q
  dead : (s.fibers f).alive = false
  disposed : (s.fibers f).disposeComplete = true
  disposing : (s.fibers f).disposing = true

/-- A running apply. -/
structure Leased (s : Root) (q : SealId) (p : Party) (f : FiberId) : Prop where
  made : f < s.nextFiber
  plugin : (s.fibers f).plugin = q
  holder : (s.fibers f).holder = some p
  alive : (s.fibers f).alive = true

/-- The behavior and the input that a move gave to its successor. -/
structure Succeeded (s : Root) (q r : SealId) (input : Input) : Prop where
  made : r < s.nextSeal
  contract : (s.seals r).plugin.contract = (s.seals q).plugin.contract
  behaviour : (s.seals r).behaviour = (s.seals q).behaviour
  first : (s.seals r).first = input
  fate : (s.seals r).fate ≠ .unmade

structure Sound (s : Root) : Prop where
  fiber : ∀ f, Consistent (s.fibers f)
  unborn : ∀ f, s.nextFiber ≤ f → s.fibers f = {}
  unmade : ∀ q, s.nextSeal ≤ q → s.seals q = {}
  installed : ∀ f, f < s.nextFiber → Installed s (s.fibers f)
  apart : ∀ f g, f < s.nextFiber → g < s.nextFiber →
    (s.fibers f).plugin = (s.fibers g).plugin → f = g
  whole : ∀ q, (s.seals q).Whole
  lent : ∀ q p, (s.seals q).lessee = some p →
    s.lease p = some (q, (s.seals q).pair) ∧ ∃ f, Leased s q p f
  leased : ∀ p q pair, s.lease p = some (q, pair) → (s.seals q).lessee = some p
  moved : ∀ q r input, (s.seals q).fate = .moved r input →
    Succeeded s q r input ∧ ∃ f, Emptied s q f
  borne : ∀ q p, (s.seals q).bearer = some p →
    (s.seals q).fate = .kept ∧ (s.seals q).lessee = none ∧
      (s.seals q).committed = (s.seals q).first
  guarded : ∀ p f, s.guard p = some f → (s.fibers f).creator = some p

/-! ## What the others leave a party -/

/-- What is left of one Fiber to its holder, its creator and whoever disposes of it. -/
structure FiberKeeps (p : Party) (u u' : Fiber) : Prop where
  dead : u.alive = false → u'.alive = false
  complete : u.disposeComplete = true → u'.disposeComplete = true
  holder : u'.holder = some p ↔ u.holder = some p
  held : u.holder = some p → u'.alive = u.alive
  creator : u'.creator = some p ↔ u.creator = some p
  owned : u.creator = some p → u'.creationOwned = u.creationOwned
  terminal : u'.terminal = some p ↔ u.terminal = some p

structure Keeps (p : Party) (s s' : Root) : Prop where
  fiber : ∀ f, FiberKeeps p (s.fibers f) (s'.fibers f)
  grown : s.nextFiber ≤ s'.nextFiber
  installed : ∀ f, f < s.nextFiber → (s'.fibers f).plugin = (s.fibers f).plugin ∧
    (s'.fibers f).contract = (s.fibers f).contract
  lease : s'.lease p = s.lease p
  guard : s'.guard p = s.guard p
  fate : ∀ f, f < s.nextFiber → (s.fibers f).terminal = some p →
    (s'.seals (s.fibers f).plugin).fate = (s.seals (s.fibers f).plugin).fate
  borne : ∀ q, (s.seals q).bearer = some p → s'.seals q = s.seals q

theorem FiberKeeps.refl (p : Party) (u : Fiber) : FiberKeeps p u u :=
  ⟨id, id, Iff.rfl, fun _ => rfl, Iff.rfl, fun _ => rfl, Iff.rfl⟩

theorem FiberKeeps.trans {p : Party} {u u' u'' : Fiber} (h : FiberKeeps p u u')
    (h' : FiberKeeps p u' u'') : FiberKeeps p u u'' where
  dead hd := h'.dead (h.dead hd)
  complete hc := h'.complete (h.complete hc)
  holder := h'.holder.trans h.holder
  held hp := (h'.held (h.holder.mpr hp)).trans (h.held hp)
  creator := h'.creator.trans h.creator
  owned hp := (h'.owned (h.creator.mpr hp)).trans (h.owned hp)
  terminal := h'.terminal.trans h.terminal

theorem Keeps.refl (p : Party) (s : Root) : Keeps p s s :=
  ⟨fun _ => .refl p _, Nat.le_refl _, fun _ _ => ⟨rfl, rfl⟩, rfl, rfl, fun _ _ _ => rfl,
    fun _ _ => rfl⟩

theorem Keeps.trans {p : Party} {s s' s'' : Root} (h : Keeps p s s') (h' : Keeps p s' s'') :
    Keeps p s s'' where
  fiber f := (h.fiber f).trans (h'.fiber f)
  grown := Nat.le_trans h.grown h'.grown
  installed f hf := by
    have hf' := Nat.lt_of_lt_of_le hf h.grown
    exact ⟨(h'.installed f hf').1.trans (h.installed f hf).1,
      (h'.installed f hf').2.trans (h.installed f hf).2⟩
  lease := h'.lease.trans h.lease
  guard := h'.guard.trans h.guard
  fate f hf ht := by
    have hfate := h'.fate f (Nat.lt_of_lt_of_le hf h.grown) ((h.fiber f).terminal.mpr ht)
    rw [(h.installed f hf).1] at hfate
    exact hfate.trans (h.fate f hf ht)
  borne q hq := by
    have hsame := h.borne q hq
    exact (h'.borne q (hsame ▸ hq)).trans hsame

/-! ## What a party is entitled to -/

/-- The slot is held, and no lease is out. -/
structure Holding (p : Party) (f : FiberId) (s : Root) : Prop where
  holder : (s.fibers f).holder = some p
  lease : s.lease p = none

/-- The routine is about this Fiber. -/
def Routine.fiber : Routine → Option FiberId
  | .convergencePass f | .replacementCommitted f | .completeClaimedDispose f => some f
  | .runCommittedReplacement f _ _ => some f
  | _ => none

/-- What must hold when a party performs an operation. -/
def Entitled (p : Party) (s : Root) : Op → Prop
  | .storeReleasing f | .storeActive f | .exchangeIdle f | .abandon f | .kill f => Holding p f s
  | .claim f | .tryClaim f | .claimTerminal f | .markTerminal f => f < s.nextFiber
  | .publishDisposeComplete f | .setApplied f | .closeCreation f => f < s.nextFiber
  | .transition f next => f < s.nextFiber ∧ (next = .disposed → (s.fibers f).alive = false)
  | .setCreationOwned f _ | .takeCreationOwnership f => (s.fibers f).creator = some p
  | .create q => (s.seals q).bearer = some p
  | .take q => s.lease p = none ∧ ∃ f, Leased s q p f
  | .apply q pair | .replace q pair => s.lease p = some (q, pair)
  | .commitChange f q change => Holding p f s ∧ (s.fibers f).plugin = q ∧
      (s.fibers f).alive = true ∧ change.contract = (s.seals q).plugin.contract
  | .intoSuccessor q change => ∃ f, Emptied s q f ∧ (s.fibers f).terminal = some p ∧
      (s.seals q).fate = .kept ∧ change.contract = (s.seals q).plugin.contract
  | .dropSuperseded successor => (s.seals successor).bearer = some p
  | .raise _ => False
  | .start f routine => Holding p f s ∧ routine.fiber = some f
  | _ => True

/-- Whoever has a pair on a lease is in its apply, or gives it back. -/
structure Due (p : Party) (op : Op) (s : Root) : Prop where
  entitled : Entitled p s op
  applies : ∀ q pair, s.lease p = some (q, pair) → op = .apply q pair ∨ op = .replace q pair

end Lease
end CordisCore
