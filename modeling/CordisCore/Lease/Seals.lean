import CordisCore.Lease.Steps

/-!
# Seals — leases, commits and moves, one operation at a time
-/

namespace CordisCore
namespace Lease

open Interleaving
open CordisCore.Runtime (Contract FiberId FiberState Inertia Input)

variable {p q t : Party} {f : FiberId} {r : SealId} {s s' : Root} {pair : Pair} {change : Change}

/-! ## One seal changes -/

/-- What an operation may do to a seal, and to the leases on it. -/
structure SealStep (s s' : Root) (r : SealId) : Prop where
  fibers : s'.fibers = s.fibers
  nextFiber : s'.nextFiber = s.nextFiber
  nextSeal : s'.nextSeal = s.nextSeal
  guard : s'.guard = s.guard
  seals : ∀ x, x ≠ r → s'.seals x = s.seals x
  others : ∀ b x pair, x ≠ r → (s'.lease b = some (x, pair) ↔ s.lease b = some (x, pair))
  contract : (s'.seals r).plugin.contract = (s.seals r).plugin.contract
  behaviour : (s'.seals r).behaviour = (s.seals r).behaviour
  first : (s'.seals r).first = (s.seals r).first
  whole : (s'.seals r).Whole
  present : (s'.seals r).fate ≠ .unmade
  bearer : ∀ b, (s'.seals r).bearer = some b → (s.seals r).bearer = some b ∧
    (s'.seals r).fate = .kept ∧ (s'.seals r).lessee = none ∧
      (s'.seals r).committed = (s'.seals r).first
  /-- Only what is carried can be destroyed. -/
  destroyed : (s'.seals r).fate = .destroyed → (s.seals r).bearer ≠ none
  lessee : ∀ b, (s'.seals r).lessee = some b →
    s'.lease b = some (r, (s'.seals r).pair) ∧ ∃ f, Leased s r b f
  leased : ∀ b pair, s'.lease b = some (r, pair) → (s'.seals r).lessee = some b
  moved : ∀ x input, (s'.seals r).fate = .moved x input →
    Succeeded s r x input ∧ ∃ f, Emptied s r f

namespace SealStep

variable (h : SealStep s s' r)

include h

/-- What the operation leaves alone is the same for every seal. -/
theorem same {α : Type} (a : Seal → α) (hr : a (s'.seals r) = a (s.seals r)) (x : SealId) :
    a (s'.seals x) = a (s.seals x) := by
  by_cases hx : x = r
  · exact hx ▸ hr
  · exact congrArg a (h.seals x hx)

theorem stillPresent {x : SealId} (hx : (s.seals x).fate ≠ .unmade) :
    (s'.seals x).fate ≠ .unmade := by
  by_cases hr : x = r
  · exact hr ▸ h.present
  · rwa [h.seals x hr]

theorem succeeded {x y : SealId} {input : Input} (hxy : Succeeded s x y input) :
    Succeeded s' x y input := by
  have hcontract := h.same (fun u => u.plugin.contract) h.contract
  have hbehaviour := h.same Seal.behaviour h.behaviour
  exact ⟨h.nextSeal ▸ hxy.made, (hcontract y).trans (hxy.contract.trans (hcontract x).symm),
    (hbehaviour y).trans (hxy.behaviour.trans (hbehaviour x).symm),
    (h.same Seal.first h.first y).trans hxy.first, h.stillPresent hxy.fate⟩

theorem emptied {x : SealId} (hf : Emptied s x f) : Emptied s' x f := by
  refine ⟨h.nextFiber ▸ hf.made, ?_, ?_, ?_, ?_⟩ <;> rw [h.fibers]
  · exact hf.plugin
  · exact hf.dead
  · exact hf.disposed
  · exact hf.disposing

theorem lent {x : SealId} (hf : Leased s x p f) : Leased s' x p f := by
  refine ⟨h.nextFiber ▸ hf.made, ?_, ?_, ?_⟩ <;> rw [h.fibers]
  · exact hf.plugin
  · exact hf.holder
  · exact hf.alive

theorem installed {u : Fiber} (hu : Installed s u) : Installed s' u := by
  refine ⟨h.nextSeal ▸ hu.made,
    (h.same (fun u => u.plugin.contract) h.contract _).trans hu.contract, ?_,
    h.stillPresent hu.present.1, fun hdestroyed => ?_⟩
  · refine Option.eq_none_iff_forall_ne_some.mpr fun b hb => ?_
    by_cases hr : u.plugin = r
    · rw [hr] at hb
      cases (hr ▸ hu.unborne).symm.trans (h.bearer b hb).1
    · rw [h.seals _ hr, hu.unborne] at hb
      cases hb
  · by_cases hr : u.plugin = r
    · exact h.destroyed (hr ▸ hdestroyed) (hr ▸ hu.unborne)
    · exact hu.present.2 (h.seals _ hr ▸ hdestroyed)

theorem sound (hs : Sound s) (hr : r < s.nextSeal) : Sound s' := by
  refine {
    fiber := fun x => h.fibers ▸ hs.fiber x
    unborn := fun x hx => h.fibers ▸ hs.unborn x (h.nextFiber ▸ hx)
    unmade := fun x hx => ?unmade
    installed := fun x hx => h.fibers ▸ h.installed (hs.installed x (h.nextFiber ▸ hx))
    apart := fun x y hx hy hxy => ?apart
    whole := fun x => ?whole
    lent := fun x b hb => ?lent
    leased := fun b x pair hb => ?leased
    moved := fun x y input hfate => ?moved
    borne := fun x b hb => ?borne
    guarded := fun b x hb => h.fibers ▸ hs.guarded b x (h.guard ▸ hb) }
  case unmade =>
    have hx' : s.nextSeal ≤ x := h.nextSeal ▸ hx
    rw [h.seals x (Nat.ne_of_gt (Nat.lt_of_lt_of_le hr hx'))]
    exact hs.unmade x hx'
  case apart =>
    rw [h.fibers] at hxy
    exact hs.apart x y (h.nextFiber ▸ hx) (h.nextFiber ▸ hy) hxy
  case whole =>
    by_cases hx : x = r
    · exact hx ▸ h.whole
    · exact (h.seals x hx).symm ▸ hs.whole x
  case lent =>
    by_cases hx : x = r
    · subst hx
      exact ⟨(h.lessee b hb).1, (h.lessee b hb).2.imp fun _ => h.lent⟩
    · rw [h.seals x hx] at hb ⊢
      rcases hs.lent x b hb with ⟨hlease, g, hg⟩
      exact ⟨(h.others b x _ hx).mpr hlease, g, h.lent hg⟩
  case leased =>
    by_cases hx : x = r
    · subst hx
      exact h.leased b pair hb
    · rw [h.seals x hx]
      exact hs.leased b x pair ((h.others b x pair hx).mp hb)
  case moved =>
    -- the fate of `r` is vouched for by the change, that of the others by the state before
    have hmoved : Succeeded s x y input ∧ ∃ f, Emptied s x f := by
      by_cases hx : x = r
      · subst hx
        exact h.moved y input hfate
      · exact hs.moved x y input (h.seals x hx ▸ hfate)
    exact ⟨h.succeeded hmoved.1, hmoved.2.imp fun _ => h.emptied⟩
  case borne =>
    by_cases hx : x = r
    · subst hx
      exact (h.bearer b hb).2
    · rw [h.seals x hx] at hb ⊢
      exact hs.borne x b hb

theorem keeps (hlease : s'.lease t = s.lease t) (hbearer : (s.seals r).bearer ≠ some t)
    (hfate : ∀ f, f < s.nextFiber → (s.fibers f).terminal = some t → (s.fibers f).plugin = r →
      (s'.seals r).fate = (s.seals r).fate) : Keeps t s s' where
  fiber x := h.fibers ▸ .refl t _
  grown := Nat.le_of_eq h.nextFiber.symm
  installed x _ := h.fibers ▸ ⟨rfl, rfl⟩
  lease := hlease
  guard := congrFun h.guard t
  fate x hx ht := by
    by_cases hr : (s.fibers x).plugin = r
    · rw [hr]
      exact hfate x hx ht hr
    · rw [h.seals _ hr]
  borne x hx := by
    refine h.seals x ?_
    rintro rfl
    exact hbearer hx

end SealStep

/-! ## Leases -/

/-- The pair is home whenever a live Fiber is held and nobody applies. -/
theorem Sound.held (hs : Sound s) (h : Holding p f s) (halive : (s.fibers f).alive = true) :
    (s.seals (s.fibers f).plugin).plugin.state = some (s.seals (s.fibers f).plugin).pair :=
  hs.home (hs.kept (hs.made_of_holder h.holder) halive) (hs.unleased h)

/-- A kept seal in its Fiber changes what is home, what is committed or who has it on a lease. -/
theorem SealStep.of_kept {h : Seal → Seal} {l : Party → Option (SealId × Pair)}
    (hkept : (s.seals r).fate = .kept) (hborne : (s.seals r).bearer = none)
    (hcontract : (h (s.seals r)).plugin.contract = (s.seals r).plugin.contract)
    (hsame : h (s.seals r) = { s.seals r with
      plugin := (h (s.seals r)).plugin
      committed := (h (s.seals r)).committed
      lessee := (h (s.seals r)).lessee })
    (hwhole : (h (s.seals r)).Whole)
    (hothers : ∀ b x pair, x ≠ r → (l b = some (x, pair) ↔ s.lease b = some (x, pair)))
    (hlessee : ∀ b, (h (s.seals r)).lessee = some b →
      l b = some (r, (h (s.seals r)).pair) ∧ ∃ f, Leased s r b f)
    (hleased : ∀ b pair, l b = some (r, pair) → (h (s.seals r)).lessee = some b) :
    SealStep s { s.setSeal r h with lease := l } r ∧
      ({ s.setSeal r h with lease := l }.seals r).fate = (s.seals r).fate := by
  have hself : (s.setSeal r h).seals r = h (s.seals r) := seals_setSeal_self
  have hfate : (h (s.seals r)).fate = .kept := (congrArg Seal.fate hsame).trans hkept
  have hbearer : (h (s.seals r)).bearer = none := (congrArg Seal.bearer hsame).trans hborne
  have hbehaviour : (h (s.seals r)).behaviour = (s.seals r).behaviour :=
    (congrArg Seal.behaviour hsame).trans rfl
  have hfirst : (h (s.seals r)).first = (s.seals r).first :=
    (congrArg Seal.first hsame).trans rfl
  rw [← hself] at hcontract hwhole hlessee hleased hfate hbearer hbehaviour hfirst
  refine ⟨?_, hfate.trans hkept.symm⟩
  exact {
    fibers := rfl
    nextFiber := rfl
    nextSeal := rfl
    guard := rfl
    seals := fun x hx => seals_setSeal_of_ne hx
    others := hothers
    contract := hcontract
    behaviour := hbehaviour
    first := hfirst
    whole := hwhole
    present := fun hunmade => by cases hfate.symm.trans hunmade
    bearer := fun b hb => by cases hbearer.symm.trans hb
    destroyed := fun hd => by cases hfate.symm.trans hd
    lessee := hlessee
    leased := hleased
    moved := fun x input hm => by cases hfate.symm.trans hm }

/-- Whatever the knowledge of a party is about besides leases is the same. -/
structure Undisturbed (s s' : Root) : Prop where
  fibers : s'.fibers = s.fibers
  nextFiber : s'.nextFiber = s.nextFiber
  guard : s'.guard = s.guard
  fate : ∀ x, (s'.seals x).fate = (s.seals x).fate

/-- A change to the seal of a Fiber that leaves its fate and the leases of the others. -/
theorem SealStep.spec (h : SealStep s s' r ∧ (s'.seals r).fate = (s.seals r).fate) (hs : Sound s)
    (hf : f < s.nextFiber) (hplugin : (s.fibers f).plugin = r)
    (hlease : ∀ t, t ≠ p → s'.lease t = s.lease t) :
    Undisturbed s s' ∧ Sound s' ∧ ∀ t, t ≠ p → Keeps t s s' := by
  have hinstalled := hs.installed f hf
  rw [← hplugin] at h
  refine ⟨⟨h.1.fibers, h.1.nextFiber, h.1.guard, h.1.same Seal.fate h.2⟩,
    h.1.sound hs hinstalled.made, fun t ht => h.1.keeps (hlease t ht) ?_ fun _ _ _ _ => h.2⟩
  rw [hinstalled.unborne]
  nofun

/-- What taking a pair that is home does. -/
theorem take_spec (hs : Sound s) (hlease : s.lease p = none) (h : Leased s r p f) :
    (s.take p r).2 = some (s.seals r).pair ∧
      (s.take p r).1.lease p = some (r, (s.seals r).pair) ∧
        Undisturbed s (s.take p r).1 ∧ Sound (s.take p r).1 ∧ ∀ t, t ≠ p → Keeps t s (s.take p r).1 := by
  have hholding : Holding p f s := ⟨h.holder, hlease⟩
  have hkept := hs.kept h.made h.alive
  have hfree := hs.unleased hholding
  have hborne := (hs.installed f h.made).unborne
  rw [h.plugin] at hkept hfree hborne
  unfold Root.take TypedPlugin.take
  rw [hs.home hkept hfree]
  refine ⟨rfl, lease_setLease_self, SealStep.spec (SealStep.of_kept hkept hborne rfl rfl ?_ ?_ ?_ ?_)
    hs h.made h.plugin fun t ht => if_neg ht⟩
  · unfold Seal.Whole
    exact (if_neg fun hhome => nomatch hhome.2).symm
  · intro b x pair hx
    by_cases hb : b = p
    · rw [if_pos hb, hb, hlease]
      exact ⟨fun heq => absurd (Prod.mk.inj (Option.some.inj heq)).1.symm hx, nofun⟩
    · rw [if_neg hb]
      exact Iff.rfl
  · intro b hb
    have hbp : b = p := (Option.some.inj hb).symm
    exact ⟨if_pos hbp, f, hbp ▸ h⟩
  · intro b pair hb
    by_cases hbp : b = p
    · rw [hbp]
    · rw [if_neg hbp] at hb
      cases hfree.symm.trans (hs.leased b r pair hb)

/-- What the drop of a lease does: it replaces nothing. -/
theorem replace_spec (hs : Sound s) (h : s.lease p = some (r, pair)) :
    (s.replace p r pair).2 = none ∧ (s.replace p r pair).1.lease p = none ∧
      Undisturbed s (s.replace p r pair).1 ∧ Sound (s.replace p r pair).1 ∧
        ∀ t, t ≠ p → Keeps t s (s.replace p r pair).1 := by
  have hlessee := hs.leased p r pair h
  rcases (hs.lent r p hlessee).2 with ⟨f, hf⟩
  have hkept := hs.kept hf.made hf.alive
  have hborne := (hs.installed f hf.made).unborne
  rw [hf.plugin] at hkept hborne
  refine ⟨hs.away hlessee, lease_setLease_self,
    SealStep.spec (SealStep.of_kept hkept hborne rfl rfl ?_ ?_ nofun ?_) hs hf.made hf.plugin
      fun t ht => if_neg ht⟩
  · unfold Seal.Whole
    exact (congrArg some (hs.lease_pair h)).trans (if_pos ⟨hkept, rfl⟩).symm
  · intro b x pair' hx
    by_cases hb : b = p
    · rw [if_pos hb, hb, h]
      exact ⟨nofun, fun heq => absurd (Prod.mk.inj (Option.some.inj heq)).1.symm hx⟩
    · rw [if_neg hb]
      exact Iff.rfl
  · intro b pair' hb
    by_cases hbp : b = p
    · rw [if_pos hbp] at hb
      cases hb
    · rw [if_neg hbp] at hb
      exact absurd (Option.some.inj (hlessee.symm.trans (hs.leased b r _ hb))).symm hbp

/-! ## Commits -/

/-- A change that does not fit is handed back, and nothing changes. -/
theorem commitChange_refused (h : (s.seals r).plugin.Refuses change) :
    s.commitChange r change = (s, .error change) := by
  unfold Root.commitChange
  rw [TypedPlugin.swapInput_refused h]
  exact congrArg (·, Except.error change) setSeal_self

theorem commitChange_matching (hcontract : change.contract = (s.seals r).plugin.contract)
    (hhome : (s.seals r).plugin.state = some pair) :
    s.commitChange r change = (s.setSeal r fun u =>
      { u with
        plugin := { (s.seals r).plugin with state := some (pair.1, change.input) }
        committed := change.input }, .ok pair.2) := by
  unfold Root.commitChange
  rw [TypedPlugin.swapInput_matching hcontract hhome]

/-- What a commit to a held live Fiber does. -/
theorem commitChange_spec (change : Change) (hs : Sound s) (h : Holding p f s) (hplugin : (s.fibers f).plugin = r)
    (halive : (s.fibers f).alive = true) :
    (change.contract = (s.seals r).plugin.contract →
      (s.commitChange r change).2 = .ok (s.seals r).committed) ∧
      (s.commitChange r change).1.lease = s.lease ∧
        Undisturbed s (s.commitChange r change).1 ∧
          Sound (s.commitChange r change).1 ∧ ∀ t, t ≠ p → Keeps t s (s.commitChange r change).1 := by
  have hf := hs.made_of_holder h.holder
  have hkept := hs.kept hf halive
  have hfree := hs.unleased h
  have hborne := (hs.installed f hf).unborne
  have hhome := hs.held h halive
  rw [hplugin] at hkept hfree hborne hhome
  by_cases hcontract : change.contract = (s.seals r).plugin.contract
  · rw [commitChange_matching hcontract hhome]
    refine ⟨fun _ => rfl, rfl, SealStep.spec (p := p) ?_ hs hf hplugin fun _ _ => rfl⟩
    refine SealStep.of_kept (h := fun u => { u with
      plugin := { (s.seals r).plugin with state := some ((s.seals r).behaviour, change.input) }
      committed := change.input }) (l := s.lease) hkept hborne rfl rfl ?_
      (fun _ _ _ _ => Iff.rfl) ?_ ?_
    · unfold Seal.Whole
      exact (if_pos ⟨hkept, hfree⟩).symm
    · exact fun b hb => by cases hfree.symm.trans hb
    · exact fun b => hs.leased b r
  · rw [commitChange_refused (.inl hcontract)]
    exact ⟨fun heq => absurd heq hcontract, rfl, ⟨rfl, rfl, rfl, fun _ => rfl⟩, hs,
      fun t _ => .refl t s⟩

/-! ## New seals -/

section Make

variable {plugin : TypedPlugin Behaviour Input}

theorem seals_make_self : (s.make p plugin pair).seals s.nextSeal = .sealed p plugin pair :=
  seals_setSeal_self

theorem seals_make_of_lt {x : SealId} (hx : x < s.nextSeal) :
    (s.make p plugin pair).seals x = s.seals x :=
  seals_setSeal_of_ne (Nat.ne_of_lt hx)

theorem sound_make (hs : Sound s) (hstate : plugin.state = some pair) :
    Sound (s.make p plugin pair) := by
  -- a seal with a fate was made, so its number is below the next one
  have hpresent : ∀ x, (s.seals x).fate ≠ .unmade → x < s.nextSeal := by
    intro x hx
    refine Nat.lt_of_not_le fun hle => hx ?_
    rw [hs.unmade x hle]
  refine {
    fiber := hs.fiber
    unborn := hs.unborn
    unmade := fun x hx => ?unmade
    installed := fun x hx => ?installed
    apart := hs.apart
    whole := forall_setSeal (P := fun _ u => u.Whole) hs.whole ?whole
    lent := fun x b hb => ?lent
    leased := fun b x pair hb => ?leased
    moved := fun x y input hfate => ?moved
    borne := fun x b hb => ?borne
    guarded := hs.guarded }
  case unmade => exact (seals_setSeal_of_ne (Nat.ne_of_gt hx)).trans (hs.unmade x (Nat.le_of_lt hx))
  case installed =>
    have hold := hs.installed x hx
    -- the new seal is not the one installed in the fiber
    have hsame : (s.make p plugin pair).seals (s.fibers x).plugin =
      s.seals (s.fibers x).plugin := seals_make_of_lt hold.made
    have hfate := congrArg Seal.fate hsame
    exact ⟨Nat.lt_succ_of_lt hold.made,
      (congrArg (fun u => u.plugin.contract) hsame).trans hold.contract,
      (congrArg Seal.bearer hsame).trans hold.unborne,
      fun h => hold.present.1 (hfate.symm.trans h), fun h => hold.present.2 (hfate.symm.trans h)⟩
  case whole =>
    unfold Seal.Whole
    -- a new seal is kept, and nobody has it on a lease
    rw [if_pos ⟨rfl, rfl⟩]
    exact hstate
  case lent =>
    by_cases hx : x = s.nextSeal
    · rw [hx, seals_make_self] at hb
      cases hb
    · rw [show (s.make p plugin pair).seals x = s.seals x from seals_setSeal_of_ne hx] at hb ⊢
      exact (hs.lent x b hb).imp id fun hf => hf.imp fun _ h => ⟨h.made, h.plugin, h.holder, h.alive⟩
  case leased =>
    have hlessee := hs.leased b x pair hb
    have hx : x < s.nextSeal := by
      refine Nat.lt_of_not_le fun hle => ?_
      rw [hs.unmade x hle] at hlessee
      cases hlessee
    rw [seals_make_of_lt hx]
    exact hlessee
  case moved =>
    by_cases hx : x = s.nextSeal
    · rw [hx, seals_make_self] at hfate
      cases hfate
    · rw [show (s.make p plugin pair).seals x = s.seals x from seals_setSeal_of_ne hx] at hfate
      rcases hs.moved x y input hfate with ⟨hsucceeded, z, hz⟩
      have hxlt := hpresent x (by rw [hfate]; nofun)
      refine ⟨⟨Nat.lt_succ_of_lt hsucceeded.made, ?_, ?_, ?_, ?_⟩, z,
        ⟨hz.made, hz.plugin, hz.dead, hz.disposed, hz.disposing⟩⟩
      · rw [seals_make_of_lt hsucceeded.made, seals_make_of_lt hxlt]
        exact hsucceeded.contract
      · rw [seals_make_of_lt hsucceeded.made, seals_make_of_lt hxlt]
        exact hsucceeded.behaviour
      · rw [seals_make_of_lt hsucceeded.made]
        exact hsucceeded.first
      · rw [seals_make_of_lt hsucceeded.made]
        exact hsucceeded.fate
  case borne =>
    by_cases hx : x = s.nextSeal
    · rw [hx, seals_make_self]
      exact ⟨rfl, rfl, rfl⟩
    · rw [show (s.make p plugin pair).seals x = s.seals x from seals_setSeal_of_ne hx] at hb ⊢
      exact hs.borne x b hb

theorem keeps_make (hs : Sound s) : Keeps t s (s.make p plugin pair) where
  fiber _ := .refl t _
  grown := Nat.le_refl _
  installed _ _ := ⟨rfl, rfl⟩
  lease := rfl
  guard := rfl
  fate x hx _ := congrArg Seal.fate (seals_make_of_lt (hs.installed x hx).made)
  borne _ hx := seals_make_of_lt (hs.made_of_bearer hx)

end Make

/-! ## Era replacements -/

/-- A change that does not fit is handed back, and nothing changes. -/
theorem intoSuccessor_refused (h : (s.seals r).plugin.Refuses change) :
    s.intoSuccessor p r change = (s, .error change) := by
  unfold Root.intoSuccessor
  rw [TypedPlugin.intoSuccessor_refused h]
  exact congrArg (·, Except.error change) setSeal_self

/-- The successor has the behavior and the new input, and the source has nothing. -/
theorem intoSuccessor_matching (hcontract : change.contract = (s.seals r).plugin.contract)
    (hhome : (s.seals r).plugin.state = some (s.seals r).pair) :
    s.intoSuccessor p r change =
      ((s.make p { contract := (s.seals r).plugin.contract
                   state := some ((s.seals r).behaviour, change.input) }
        ((s.seals r).behaviour, change.input)).setSeal r fun u =>
          { u with
            plugin := { (s.seals r).plugin with state := none }
            fate := .moved s.nextSeal change.input }, .ok s.nextSeal) := by
  unfold Root.intoSuccessor
  rw [TypedPlugin.intoSuccessor_matching hcontract hhome]

theorem intoSuccessor_spec (hs : Sound s) (h : Emptied s r f) (hfate : (s.seals r).fate = .kept)
    (hcontract : change.contract = (s.seals r).plugin.contract) :
    (s.intoSuccessor p r change).2 = .ok s.nextSeal ∧
      ((s.intoSuccessor p r change).1.seals s.nextSeal).bearer = some p ∧
        Sound (s.intoSuccessor p r change).1 ∧
          (s.intoSuccessor p r change).1.lease = s.lease ∧
          (s.intoSuccessor p r change).1.guard = s.guard ∧
          ∀ t, (s.fibers f).terminal ≠ some t → Keeps t s (s.intoSuccessor p r change).1 := by
  have hfree := hs.unleased_of_dead h.made h.dead
  have hinstalled := hs.installed f h.made
  have hborne := hinstalled.unborne
  have hr := hinstalled.made
  rw [h.plugin] at hfree hborne hr
  have hhome := hs.home hfate hfree
  rw [intoSuccessor_matching hcontract hhome]
  generalize hm : s.make p { contract := (s.seals r).plugin.contract
                             state := some ((s.seals r).behaviour, change.input) }
    ((s.seals r).behaviour, change.input) = m
  have hsound : Sound m := hm ▸ sound_make hs rfl
  have hold : m.seals r = s.seals r := hm ▸ seals_make_of_lt hr
  have hnew : m.seals s.nextSeal = .sealed p
      { contract := (s.seals r).plugin.contract, state := some ((s.seals r).behaviour, change.input) }
      ((s.seals r).behaviour, change.input) := hm ▸ seals_make_self
  have hne : s.nextSeal ≠ r := Nat.ne_of_gt hr
  have hfibers : m.fibers = s.fibers := by
    subst hm
    rfl
  have hnext : m.nextFiber = s.nextFiber := by
    subst hm
    rfl
  generalize hs' : (m.setSeal r fun u => { u with
    plugin := { (s.seals r).plugin with state := none }
    fate := .moved s.nextSeal change.input }) = s'
  have hself : s'.seals r = { s.seals r with
      plugin := { (s.seals r).plugin with state := none }
      fate := .moved s.nextSeal change.input } := by
    rw [← hs', seals_setSeal_self, hold]
  have hother : ∀ x, x ≠ r → s'.seals x = m.seals x := fun x hx => hs' ▸ seals_setSeal_of_ne hx
  have hlease : s'.lease = m.lease := by
    subst hs'
    rfl
  have hstep : SealStep m s' r := by
    refine {
      fibers := hs' ▸ rfl
      nextFiber := hs' ▸ rfl
      nextSeal := hs' ▸ rfl
      guard := hs' ▸ rfl
      seals := hother
      others := fun b x pair hx => hlease ▸ Iff.rfl
      contract := by rw [hself, hold]
      behaviour := by rw [hself, hold]
      first := by rw [hself, hold]
      whole := ?whole
      present := by rw [hself]; nofun
      bearer := fun b hb => ?bearer
      destroyed := by rw [hself]; nofun
      lessee := fun b hb => ?lessee
      leased := fun b pair hb => ?leased
      moved := fun x input hx => ?moved }
    case whole =>
      unfold Seal.Whole
      rw [hself]
      exact (if_neg fun hhome => nomatch hhome.1).symm
    case bearer =>
      rw [hself] at hb
      cases hborne.symm.trans hb
    case lessee =>
      rw [hself] at hb
      cases hfree.symm.trans hb
    case leased =>
      have hlessee := hsound.leased b r pair (hlease ▸ hb)
      rw [hold] at hlessee
      cases hfree.symm.trans hlessee
    case moved =>
      rw [hself] at hx
      cases hx
      refine ⟨⟨?_, ?_, ?_, ?_, ?_⟩, f, ?_⟩
      · exact hm ▸ Nat.lt_succ_self _
      · rw [hnew, hold]
        rfl
      · rw [hnew, hold]
        rfl
      · rw [hnew]
        rfl
      · rw [hnew]
        nofun
      · exact hm ▸ ⟨h.made, h.plugin, h.dead, h.disposed, h.disposing⟩
  refine ⟨rfl, ?_, hstep.sound hsound (hm ▸ Nat.lt_succ_of_lt hr), ?_, ?_, fun t ht => ?_⟩
  · show (s'.seals s.nextSeal).bearer = some p
    rw [hother _ hne, hnew]
    rfl
  · exact hlease.trans (hm ▸ rfl)
  · exact hstep.guard.trans (hm ▸ rfl)
  · refine Keeps.trans (hm ▸ keeps_make hs) (hstep.keeps (congrFun hlease t) ?_ fun x hx hxt hxr => ?_)
    · rw [hold, hborne]
      nofun
    · -- the source is in one Fiber only, and that one is not disposed of by this party
      rw [hfibers] at hxt hxr
      have hsame : x = f := hs.apart x f (hnext ▸ hx) h.made (hxr.trans h.plugin.symm)
      exact absurd (hsame ▸ hxt) ht

/-- What the unwinding of a panicked destructor does. -/
theorem destroy_spec (hs : Sound s) (h : (s.seals r).bearer = some p) :
    Sound (s.destroy r) ∧ ∀ t, t ≠ p → Keeps t s (s.destroy r) := by
  rcases hs.borne r p h with ⟨-, hfree, -⟩
  have hself : (s.destroy r).seals r = { s.seals r with
      plugin := { (s.seals r).plugin with state := none }, fate := .destroyed, bearer := none } :=
    seals_setSeal_self
  have hstep : SealStep s (s.destroy r) r := by
    refine {
      fibers := rfl
      nextFiber := rfl
      nextSeal := rfl
      guard := rfl
      seals := fun x hx => seals_setSeal_of_ne hx
      others := fun _ _ _ _ => Iff.rfl
      contract := by rw [hself]
      behaviour := by rw [hself]
      first := by rw [hself]
      whole := ?_
      present := by rw [hself]; nofun
      bearer := fun b hb => by rw [hself] at hb; cases hb
      destroyed := fun _ hnone => by cases h.symm.trans hnone
      lessee := fun b hb => by rw [hself] at hb; cases hfree.symm.trans hb
      leased := fun b pair hb => by cases hfree.symm.trans (hs.leased b r pair hb)
      moved := fun x input hx => by rw [hself] at hx; cases hx }
    unfold Seal.Whole
    rw [hself]
    exact (if_neg fun hhome => nomatch hhome.1).symm
  refine ⟨hstep.sound hs (hs.made_of_bearer h), fun t ht => hstep.keeps rfl ?_ fun f hf _ hr => ?_⟩
  · exact fun heq => ht (Option.some.inj (heq.symm.trans h))
  · exact absurd hr (hs.not_installed h hf)

/-! ## New Fibers -/

/-- The guard of a party is armed for a Fiber of its own, or consumed. -/
theorem Sound.setGuard {guard : Option FiberId} (hs : Sound s)
    (h : ∀ f, guard = some f → (s.fibers f).creator = some p) : Sound (s.setGuard p guard) := by
  refine { hs with
    installed := fun x hx => ?installed
    lent := fun x b hb => ?lent
    moved := fun x y input hx => ?moved
    guarded := fun b x hb => ?guarded }
  case installed =>
    have hold := hs.installed x hx
    exact ⟨hold.made, hold.contract, hold.unborne, hold.present⟩
  case lent =>
    exact (hs.lent x b hb).imp id fun hf => hf.imp fun _ h => ⟨h.made, h.plugin, h.holder, h.alive⟩
  case moved =>
    rcases hs.moved x y input hx with ⟨hsucceeded, z, hz⟩
    exact ⟨⟨hsucceeded.made, hsucceeded.contract, hsucceeded.behaviour, hsucceeded.first,
      hsucceeded.fate⟩, z, hz.made, hz.plugin, hz.dead, hz.disposed, hz.disposing⟩
  case guarded =>
    by_cases hbp : b = p
    · subst hbp
      rw [guard_setGuard_self] at hb
      exact h x hb
    · rw [guard_setGuard_of_ne hbp] at hb
      exact hs.guarded b x hb

theorem keeps_setGuard {guard : Option FiberId} (ht : t ≠ p) : Keeps t s (s.setGuard p guard) :=
  { Keeps.refl t s with guard := guard_setGuard_of_ne ht }

theorem create_spec (hs : Sound s) (h : (s.seals r).bearer = some p) :
    Sound (s.create p r).1 ∧ ∀ t, t ≠ p → Keeps t s (s.create p r).1 := by
  have hr := hs.made_of_bearer h
  have hborne := hs.borne r p h
  generalize hs' : (s.create p r).1 = s'
  -- the new Fiber is the only one that changes, its plugin the only seal
  have hself : s'.fibers s.nextFiber =
      { plugin := r, contract := (s.seals r).plugin.contract, creator := some p } := by
    subst hs'
    exact if_pos rfl
  have hfibers : ∀ x, x ≠ s.nextFiber → s'.fibers x = s.fibers x := by
    subst hs'
    exact fun x hx => if_neg hx
  have hseal : s'.seals r = { s.seals r with bearer := none } := by
    subst hs'
    exact if_pos rfl
  have hseals : ∀ x, x ≠ r → s'.seals x = s.seals x := by
    subst hs'
    exact fun x hx => if_neg hx
  have hnext : s'.nextFiber = s.nextFiber + 1 := hs' ▸ rfl
  have hlt : ∀ z, z < s.nextFiber + 1 → z ≠ s.nextFiber → z < s.nextFiber := fun z hz hne =>
    Nat.lt_of_le_of_ne (Nat.le_of_lt_succ hz) hne
  have hlease : s'.lease = s.lease := by
    subst hs'
    rfl
  have hguard : ∀ b, s'.guard b = if b = p then some s.nextFiber else s.guard b := by
    subst hs'
    exact fun b => rfl
  have hsame : ∀ {α : Type} (a : Seal → α), a { s.seals r with bearer := none } = a (s.seals r) →
      ∀ x, a (s'.seals x) = a (s.seals x) := by
    intro α a ha x
    by_cases hx : x = r
    · rw [hx, hseal]
      exact ha
    · rw [hseals x hx]
  refine ⟨{
    fiber := fun x => ?_
    unborn := fun x hx => ?unborn
    unmade := fun x hx => ?unmade
    installed := fun x hx => ?installed
    apart := fun x y hx hy hxy => ?apart
    whole := fun x => ?whole
    lent := fun x b hb => ?lent
    leased := fun b x pair hb => ?leased
    moved := fun x y input hfate => ?moved
    borne := fun x b hb => ?_
    guarded := fun b x hb => ?guarded }, fun t ht => {
    fiber := fun x => ?_
    grown := by rw [hnext]; exact Nat.le_succ _
    installed := fun x hx => by rw [hfibers x (Nat.ne_of_lt hx)]; exact ⟨rfl, rfl⟩
    lease := congrFun hlease t
    guard := by rw [hguard, if_neg ht]
    fate := fun x _ _ => hsame Seal.fate rfl _
    borne := fun x hx => hseals x ?_ }⟩
  · by_cases hx : x = s.nextFiber
    · rw [hx, hself]
      exact ⟨⟨fun _ => rfl, fun _ => rfl⟩, fun h => absurd rfl h, nofun⟩
    · rw [hfibers x hx]
      exact hs.fiber x
  case unborn =>
    rw [hnext] at hx
    rw [hfibers x (Nat.ne_of_gt hx)]
    exact hs.unborn x (Nat.le_of_lt hx)
  case unmade =>
    have hx' : s.nextSeal ≤ x := by
      subst hs'
      exact hx
    rw [hseals x (Nat.ne_of_gt (Nat.lt_of_lt_of_le hr hx'))]
    exact hs.unmade x hx'
  case installed =>
    -- a borne seal is in no Fiber yet, so the old Fibers keep theirs
    have hmade : s'.nextSeal = s.nextSeal := by
      subst hs'
      rfl
    by_cases hxn : x = s.nextFiber
    · rw [hxn, hself]
      refine ⟨hmade ▸ hr, by rw [hseal], by rw [hseal], ?_⟩
      rw [hseal, show _ = Fate.kept from hborne.1]
      exact ⟨nofun, nofun⟩
    · have hold := hs.installed x (hlt x (hnext ▸ hx) hxn)
      have hne : (s.fibers x).plugin ≠ r := by
        intro heq
        have hunborne := hold.unborne
        rw [heq, h] at hunborne
        cases hunborne
      rw [hfibers x hxn]
      refine ⟨hmade ▸ hold.made, ?_, ?_, ?_⟩ <;> rw [hseals _ hne]
      · exact hold.contract
      · exact hold.unborne
      · exact hold.present
  case apart =>
    rw [hnext] at hx hy
    by_cases hxn : x = s.nextFiber <;> by_cases hyn : y = s.nextFiber
    · rw [hxn, hyn]
    · rw [hxn, hself, hfibers y hyn] at hxy
      exact absurd hxy.symm (hs.not_installed h (hlt y hy hyn))
    · rw [hyn, hself, hfibers x hxn] at hxy
      exact absurd hxy (hs.not_installed h (hlt x hx hxn))
    · rw [hfibers x hxn, hfibers y hyn] at hxy
      exact hs.apart x y (hlt x hx hxn) (hlt y hy hyn) hxy
  case whole =>
    by_cases hx : x = r
    · rw [hx, hseal]
      exact hs.whole r
    · rw [hseals x hx]
      exact hs.whole x
  case lent =>
    have hpair := hsame Seal.pair rfl x
    rw [hsame Seal.lessee rfl x] at hb
    rcases hs.lent x b hb with ⟨hold, f, hf⟩
    have hfiber := hfibers f (Nat.ne_of_lt hf.made)
    refine ⟨by rw [hlease, hpair]; exact hold, f, hnext ▸ Nat.lt_succ_of_lt hf.made, ?_, ?_, ?_⟩
    · exact (congrArg Fiber.plugin hfiber).trans hf.plugin
    · exact (congrArg Fiber.holder hfiber).trans hf.holder
    · exact (congrArg Fiber.alive hfiber).trans hf.alive
  case leased =>
    rw [hsame Seal.lessee rfl x]
    exact hs.leased b x pair (hlease ▸ hb)
  case moved =>
    rw [hsame Seal.fate rfl x] at hfate
    rcases hs.moved x y input hfate with ⟨hsucceeded, f, hf⟩
    have hcontract := hsame (fun u => u.plugin.contract) rfl
    have hbehaviour := hsame Seal.behaviour rfl
    have hfiber := hfibers f (Nat.ne_of_lt hf.made)
    refine ⟨⟨?_, ?_, ?_, ?_, ?_⟩, f, hnext ▸ Nat.lt_succ_of_lt hf.made,
      (congrArg Fiber.plugin hfiber).trans hf.plugin, (congrArg Fiber.alive hfiber).trans hf.dead,
      (congrArg Fiber.disposeComplete hfiber).trans hf.disposed,
      (congrArg Fiber.disposing hfiber).trans hf.disposing⟩
    · subst hs'
      exact hsucceeded.made
    · exact (hcontract y).trans (hsucceeded.contract.trans (hcontract x).symm)
    · exact (hbehaviour y).trans (hsucceeded.behaviour.trans (hbehaviour x).symm)
    · exact (hsame Seal.first rfl y).trans hsucceeded.first
    · rw [hsame Seal.fate rfl y]
      exact hsucceeded.fate
  · by_cases hx : x = r
    · rw [hx, hseal] at hb
      cases hb
    · rw [hseals x hx] at hb ⊢
      exact hs.borne x b hb
  case guarded =>
    rw [hguard] at hb
    by_cases hbp : b = p
    -- the guard of the creator is now about the new Fiber
    · rw [if_pos hbp] at hb
      cases hb
      rw [hself, hbp]
    · rw [if_neg hbp] at hb
      have hold := hs.guarded b x hb
      rw [hfibers x (Nat.ne_of_lt (hs.made_of_creator hold))]
      exact hold
  · by_cases hx : x = s.nextFiber
    · rw [hx, hself, hs.unborn _ (Nat.le_refl _)]
      exact ⟨nofun, nofun, Iff.rfl, nofun, ⟨fun heq => absurd (Option.some.inj heq).symm ht, nofun⟩,
        nofun, Iff.rfl⟩
    · rw [hfibers x hx]
      exact .refl t _
  · rintro rfl
    exact ht (Option.some.inj (hx.symm.trans h))

end Lease
end CordisCore
