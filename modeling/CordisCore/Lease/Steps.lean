import CordisCore.Lease.Keeping

/-!
# Steps — what every operation preserves
-/

namespace CordisCore
namespace Lease

open Interleaving
open CordisCore.Runtime (Contract FiberId FiberState Inertia Input)

variable {p q t : Party} {f : FiberId} {r : SealId} {s s' : Root}

/-! ## Fibers and seals apart -/

section Fields

variable {g : Fiber → Fiber} {h : Seal → Seal}

@[simp] theorem fibers_setFiber_self : (s.setFiber f g).fibers f = g (s.fibers f) := by
  simp [Root.setFiber]

theorem fibers_setFiber_of_ne {x : FiberId} (hx : x ≠ f) :
    (s.setFiber f g).fibers x = s.fibers x := by
  simp [Root.setFiber, hx]

@[simp] theorem seals_setSeal_self : (s.setSeal r h).seals r = h (s.seals r) := by
  simp [Root.setSeal]

theorem seals_setSeal_of_ne {x : SealId} (hx : x ≠ r) : (s.setSeal r h).seals x = s.seals x := by
  simp [Root.setSeal, hx]

/-- A property of every Fiber, when one of them changes. -/
theorem forall_setFiber {P : FiberId → Fiber → Prop} (hall : ∀ x, P x (s.fibers x))
    (hf : P f (g (s.fibers f))) (x : FiberId) : P x ((s.setFiber f g).fibers x) := by
  by_cases hx : x = f
  · subst hx
    rw [fibers_setFiber_self]
    exact hf
  · rw [fibers_setFiber_of_ne hx]
    exact hall x

/-- A property of every seal, when one of them changes. -/
theorem forall_setSeal {P : SealId → Seal → Prop} (hall : ∀ x, P x (s.seals x))
    (hr : P r (h (s.seals r))) (x : SealId) : P x ((s.setSeal r h).seals x) := by
  by_cases hx : x = r
  · subst hx
    rw [seals_setSeal_self]
    exact hr
  · rw [seals_setSeal_of_ne hx]
    exact hall x

theorem setFiber_same {α : Type} (a : Fiber → α) (hf : a (g (s.fibers f)) = a (s.fibers f))
    (x : FiberId) : a ((s.setFiber f g).fibers x) = a (s.fibers x) :=
  forall_setFiber (P := fun x u => a u = a (s.fibers x)) (fun _ => rfl) hf x

/-- Nothing happens to a seal whose plugin is stored as it is. -/
theorem setSeal_self : s.setSeal r (fun u => { u with plugin := (s.seals r).plugin }) = s := by
  have hseals : (s.setSeal r fun u => { u with plugin := (s.seals r).plugin }).seals = s.seals :=
    funext fun x => forall_setSeal (P := fun x u => u = s.seals x) (fun _ => rfl) rfl x
  exact congrArg (fun seals => { s with seals := seals }) hseals

@[simp] theorem lease_setLease_self {l : Option (SealId × Pair)} :
    (s.setLease p l).lease p = l := by
  simp [Root.setLease]

theorem lease_setLease_of_ne {l : Option (SealId × Pair)} (ht : t ≠ p) :
    (s.setLease p l).lease t = s.lease t := by
  simp [Root.setLease, ht]

@[simp] theorem guard_setGuard_self {l : Option FiberId} : (s.setGuard p l).guard p = l := by
  simp [Root.setGuard]

theorem guard_setGuard_of_ne {l : Option FiberId} (ht : t ≠ p) :
    (s.setGuard p l).guard t = s.guard t := by
  simp [Root.setGuard, ht]

end Fields

/-! ## What the invariant says -/

namespace Sound

variable (hs : Sound s)

include hs

theorem made_of_holder (h : (s.fibers f).holder = some p) : f < s.nextFiber := by
  refine Nat.lt_of_not_le fun hle => ?_
  rw [hs.unborn f hle] at h
  cases h

theorem made_of_creator (h : (s.fibers f).creator = some p) : f < s.nextFiber := by
  refine Nat.lt_of_not_le fun hle => ?_
  rw [hs.unborn f hle] at h
  cases h

theorem made_of_bearer (h : (s.seals r).bearer = some p) : r < s.nextSeal := by
  refine Nat.lt_of_not_le fun hle => ?_
  rw [hs.unmade r hle] at h
  cases h

/-- What is carried is in no Fiber yet. -/
theorem not_installed (h : (s.seals r).bearer = some p) (hf : f < s.nextFiber) :
    (s.fibers f).plugin ≠ r := by
  rintro rfl
  rw [(hs.installed f hf).unborne] at h
  cases h

/-- A live Fiber has its behavior. -/
theorem kept (hf : f < s.nextFiber) (halive : (s.fibers f).alive = true) :
    (s.seals (s.fibers f).plugin).fate = .kept := by
  have hpresent := (hs.installed f hf).present
  cases hfate : (s.seals (s.fibers f).plugin).fate with
  | kept => rfl
  | unmade => exact absurd hfate hpresent.1
  | destroyed => exact absurd hfate hpresent.2
  | moved x input =>
      rcases (hs.moved _ x input hfate).2 with ⟨g, hg⟩
      have hsame : g = f := hs.apart g f hg.made hf hg.plugin
      rw [← hsame, hg.dead] at halive
      cases halive

/-- The holder is the only one that could have the pair on a lease. -/
theorem unleased (h : Holding p f s) : (s.seals (s.fibers f).plugin).lessee = none := by
  cases hlessee : (s.seals (s.fibers f).plugin).lessee with
  | none => rfl
  | some t =>
      rcases hs.lent _ t hlessee with ⟨hlease, g, hg⟩
      have hsame : g = f := hs.apart g f hg.made (hs.made_of_holder h.holder) hg.plugin
      have hparty : t = p := by
        have hholder := hg.holder
        rw [hsame, h.holder] at hholder
        exact (Option.some.inj hholder).symm
      rw [hparty, h.lease] at hlease
      cases hlease

/-- No lease is out on a dead Fiber. -/
theorem unleased_of_dead (hf : f < s.nextFiber) (hdead : (s.fibers f).alive = false) :
    (s.seals (s.fibers f).plugin).lessee = none := by
  cases hlessee : (s.seals (s.fibers f).plugin).lessee with
  | none => rfl
  | some t =>
      rcases (hs.lent _ t hlessee).2 with ⟨g, hg⟩
      have hsame : g = f := hs.apart g f hg.made hf hg.plugin
      rw [← hsame, hg.alive] at hdead
      cases hdead

theorem home (hfate : (s.seals r).fate = .kept) (hlessee : (s.seals r).lessee = none) :
    (s.seals r).plugin.state = some (s.seals r).pair := by
  have hwhole := hs.whole r
  unfold Seal.Whole at hwhole
  rw [hwhole, if_pos ⟨hfate, hlessee⟩]

theorem away (h : (s.seals r).lessee = some p) : (s.seals r).plugin.state = none := by
  have hwhole := hs.whole r
  unfold Seal.Whole at hwhole
  rw [hwhole, if_neg fun hhome => by rw [hhome.2] at h; cases h]

/-- Whoever has a lease has the pair that the seal stands for. -/
theorem lease_pair {pair : Pair} (h : s.lease p = some (r, pair)) : pair = (s.seals r).pair := by
  have hlent := (hs.lent r p (hs.leased p r pair h)).1
  rw [h] at hlent
  exact (Prod.mk.inj (Option.some.inj hlent)).2

end Sound

/-! ## Operations on one Fiber -/

/-- What an operation may do to a Fiber. -/
structure FiberStep (s : Root) (u u' : Fiber) : Prop where
  consistent : Consistent u'
  plugin : u'.plugin = u.plugin
  contract : u'.contract = u.contract
  creator : u'.creator = u.creator
  dead : u.alive = false → u'.alive = false
  complete : u.disposeComplete = true → u'.disposeComplete = true
  disposing : u.disposing = true → u'.disposing = true
  /-- A running apply keeps its slot. -/
  held : u'.holder = u.holder ∧ u'.alive = u.alive ∨ (s.seals u.plugin).lessee = none

theorem Installed.congr {u u' : Fiber} (h : Installed s u) (hplugin : u'.plugin = u.plugin)
    (hcontract : u'.contract = u.contract) : Installed s u' := by
  refine ⟨?_, ?_, ?_, ?_⟩
  · rw [hplugin]
    exact h.made
  · rw [hplugin, hcontract]
    exact h.contract
  · rw [hplugin]
    exact h.unborne
  · rw [hplugin]
    exact h.present

theorem Sound.setFiber {g : Fiber → Fiber} (hs : Sound s) (hf : f < s.nextFiber)
    (h : FiberStep s (s.fibers f) (g (s.fibers f))) : Sound (s.setFiber f g) := by
  have hplugin := setFiber_same (s := s) Fiber.plugin h.plugin
  refine {
    fiber := forall_setFiber hs.fiber h.consistent
    unborn := fun x hx => ?unborn
    unmade := hs.unmade
    installed := fun x hx => ?installed
    apart := fun x y hx hy hxy => hs.apart x y hx hy ((hplugin x).symm.trans (hxy.trans (hplugin y)))
    whole := hs.whole
    lent := fun x y hxy => ?lent
    leased := hs.leased
    moved := fun x y input hfate => ?moved
    borne := hs.borne
    guarded := fun x y hxy => (setFiber_same Fiber.creator h.creator y).trans (hs.guarded x y hxy) }
  case unborn =>
    rw [fibers_setFiber_of_ne (Nat.ne_of_gt (Nat.lt_of_lt_of_le hf hx))]
    exact hs.unborn x hx
  case installed =>
    have hsame := (hs.installed x hx).congr (hplugin x) (setFiber_same Fiber.contract h.contract x)
    exact ⟨hsame.made, hsame.contract, hsame.unborne, hsame.present⟩
  case lent =>
    rcases hs.lent x y hxy with ⟨hlease, z, hz⟩
    have hkept : ((s.setFiber f g).fibers z).holder = (s.fibers z).holder ∧
        ((s.setFiber f g).fibers z).alive = (s.fibers z).alive := by
      by_cases hzf : z = f
      · subst hzf
        rw [fibers_setFiber_self]
        refine h.held.resolve_right fun hnone => ?_
        rw [hz.plugin] at hnone
        cases hnone.symm.trans hxy
      · rw [fibers_setFiber_of_ne hzf]
        exact ⟨rfl, rfl⟩
    exact ⟨hlease, z, hz.made, (hplugin z).trans hz.plugin, hkept.1.trans hz.holder,
      hkept.2.trans hz.alive⟩
  case moved =>
    rcases hs.moved x y input hfate with ⟨hsucceeded, z, hz⟩
    have hover : ((s.setFiber f g).fibers z).alive = false ∧
        ((s.setFiber f g).fibers z).disposeComplete = true ∧
        ((s.setFiber f g).fibers z).disposing = true := by
      by_cases hzf : z = f
      · subst hzf
        rw [fibers_setFiber_self]
        exact ⟨h.dead hz.dead, h.complete hz.disposed, h.disposing hz.disposing⟩
      · rw [fibers_setFiber_of_ne hzf]
        exact ⟨hz.dead, hz.disposed, hz.disposing⟩
    exact ⟨⟨hsucceeded.made, hsucceeded.contract, hsucceeded.behaviour, hsucceeded.first,
      hsucceeded.fate⟩, z, hz.made, (hplugin z).trans hz.plugin, hover.1, hover.2.1, hover.2.2⟩

theorem keeps_setFiber {g : Fiber → Fiber} (h : FiberKeeps t (s.fibers f) (g (s.fibers f)))
    (hplugin : (g (s.fibers f)).plugin = (s.fibers f).plugin)
    (hcontract : (g (s.fibers f)).contract = (s.fibers f).contract) :
    Keeps t s (s.setFiber f g) where
  fiber := forall_setFiber (P := fun x u => FiberKeeps t (s.fibers x) u) (fun _ => .refl t _) h
  grown := Nat.le_refl _
  installed x _ := ⟨setFiber_same Fiber.plugin hplugin x, setFiber_same Fiber.contract hcontract x⟩
  lease := rfl
  guard := rfl
  fate _ _ _ := rfl
  borne _ _ := rfl

end Lease
end CordisCore
