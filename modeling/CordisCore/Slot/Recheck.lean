import CordisCore.Interleaving.Logic
import CordisCore.Slot.Protocol

/-!
# Exit rechecks — every extra round is paid for, and the verdict is true

While the tail of the initial pass finds the slot idle, one party at most holds it.
Then the counters of a holder move under its own hands only, each extra iteration
of its exit recheck has a commit or a kick of its own, and both panic arms are out
of reach.
-/

namespace CordisCore
namespace Slot

open Interleaving
open CordisCore.Runtime (SemanticTarget)

/-! ## The condition -/

/-- The probe at the tail of an initial pass whose exit recheck released the slot. -/
def releasedTail : Op → Option Unit
  | .probeIdle true => some ()
  | _ => none

/-- The tail of an initial pass whose exit recheck released the slot finds it idle. -/
def tailIdle : Machine.Condition InertiaSlot Op Choice :=
  Machine.finds releasedTail fun _ s => s.inertia = INERTIA_IDLE

def tailIdle? : Party → Choice → Op → InertiaSlot → Bool :=
  Machine.finds? releasedTail fun _ s => s.inertia = INERTIA_IDLE

/-! ## Ownership -/

def Holds (p : Party) (s : InertiaSlot) : Prop :=
  s.trace.holder = some p

structure Sound (s : InertiaSlot) : Prop where
  held : s.inertia = INERTIA_IDLE ↔ s.trace.holder = none
  word : s.inertia ≤ INERTIA_RELEASING
  settled : s.recheckSettled ≤ s.recheckCommitted

/-- What the steps of the others leave a party. -/
structure Leaves (p : Party) (s s' : InertiaSlot) : Prop where
  holder : s'.trace.holder = some p ↔ s.trace.holder = some p
  call : s'.trace.call p = s.trace.call p
  committed : s.recheckCommitted ≤ s'.recheckCommitted
  reclaims : s.trace.reclaims ≤ s'.trace.reclaims
  settled : Holds p s → s'.recheckSettled = s.recheckSettled
  target : Holds p s → s'.target = s.target
  active : Holds p s → s.inertia = INERTIA_ACTIVE → s'.inertia = INERTIA_ACTIVE
  /-- Only a kick takes a releasing slot back, and it counts. -/
  releasing : Holds p s → s.inertia = INERTIA_RELEASING →
    s'.inertia = INERTIA_RELEASING ∧ s'.trace.reclaims = s.trace.reclaims ∨
      s'.inertia = INERTIA_ACTIVE ∧ s.trace.reclaims < s'.trace.reclaims

namespace Leaves

variable {p : Party} {s s' s'' : InertiaSlot}

theorem refl (p : Party) (s : InertiaSlot) : Leaves p s s where
  holder := Iff.rfl
  call := rfl
  committed := Nat.le_refl _
  reclaims := Nat.le_refl _
  settled _ := rfl
  target _ := rfl
  active _ h := h
  releasing _ h := .inl ⟨h, rfl⟩

theorem trans (h : Leaves p s s') (h' : Leaves p s' s'') : Leaves p s s'' where
  holder := h'.holder.trans h.holder
  call := h'.call.trans h.call
  committed := Nat.le_trans h.committed h'.committed
  reclaims := Nat.le_trans h.reclaims h'.reclaims
  settled hp := (h'.settled (h.holder.mpr hp)).trans (h.settled hp)
  target hp := (h'.target (h.holder.mpr hp)).trans (h.target hp)
  active hp hword := h'.active (h.holder.mpr hp) (h.active hp hword)
  releasing hp hword := by
    rcases h.releasing hp hword with ⟨hsame, hcount⟩ | ⟨hback, hcount⟩
    · rcases h'.releasing (h.holder.mpr hp) hsame with ⟨hsame', hcount'⟩ | ⟨hback', hcount'⟩
      · exact .inl ⟨hsame', hcount'.trans hcount⟩
      · exact .inr ⟨hback', by omega⟩
    · exact .inr ⟨h'.active (h.holder.mpr hp) hback, Nat.lt_of_lt_of_le hcount h'.reclaims⟩

/-- Somebody else holds the slot, or nobody does. -/
theorem of_not_holds (hp : ¬ Holds p s) (hp' : ¬ Holds p s')
    (hcall : s'.trace.call p = s.trace.call p)
    (hcommitted : s.recheckCommitted ≤ s'.recheckCommitted)
    (hreclaims : s.trace.reclaims ≤ s'.trace.reclaims) : Leaves p s s' where
  holder := ⟨fun h => absurd h hp', fun h => absurd h hp⟩
  call := hcall
  committed := hcommitted
  reclaims := hreclaims
  settled h := absurd h hp
  target h := absurd h hp
  active h := absurd h hp
  releasing h := absurd h hp

/-- Nothing that concerns a holder was written. -/
theorem of_same (hholder : s'.trace.holder = s.trace.holder)
    (hcall : s'.trace.call p = s.trace.call p)
    (hcommitted : s.recheckCommitted ≤ s'.recheckCommitted)
    (hreclaims : s'.trace.reclaims = s.trace.reclaims)
    (hsettled : s'.recheckSettled = s.recheckSettled) (htarget : s'.target = s.target)
    (hinertia : s'.inertia = s.inertia) : Leaves p s s' where
  holder := by rw [hholder]
  call := hcall
  committed := hcommitted
  reclaims := Nat.le_of_eq hreclaims.symm
  settled _ := hsettled
  target _ := htarget
  active _ h := hinertia.trans h
  releasing _ h := .inl ⟨hinertia.trans h, hreclaims⟩

end Leaves

/-! ## What each operation needs -/

/-- The iterations of the call so far are paid for by the commits since its revision was read and
by the kicks since it began; the latest one by one of them. -/
def Charged (p : Party) (s : InertiaSlot) : Prop :=
  ∃ c, s.trace.call p = some c ∧
    c.iterations + c.base + c.kicks ≤ s.recheckCommitted + s.trace.reclaims ∧
    (0 < c.iterations → c.compared < s.recheckCommitted ∨ c.reclaimed < s.trace.reclaims)

/-- What an answered call says. -/
def Verdict (p : Party) (settled : SemanticTarget) (s : InertiaSlot) : Bool → Prop
  | true => Holds p s ∧ s.inertia = INERTIA_ACTIVE ∧
      ∃ c live, s.trace.call p = some c ∧ c.settled = settled ∧ c.live = some live ∧
        live ≠ settled ∧ s.target = some live
  | false => ∃ c revision, s.trace.call p = some c ∧ c.settled = settled ∧
      c.live = some settled ∧ c.observed = some revision ∧ c.acknowledged = some revision ∧
        c.announced = true

/-- What holds when a party is about to perform an operation. -/
def check (p : Party) : Op → InertiaSlot → Prop
  | .abandon, s | .storeActive, s | .recordTarget _, s | .markPendingIfUntouched _, s
  | .pinInactive, s => Holds p s
  | .fork routine, s => routine = .convergencePass ∧ Holds p s ∧ s.inertia = INERTIA_ACTIVE ∧
      s.target ≠ none
  | .storeReleasing _, s => Holds p s ∧ Charged p s
  | .storeSettled revision, s => Holds p s ∧ s.recheckSettled ≤ revision ∧
      revision ≤ s.recheckCommitted
  | .compareExchange expected new, s =>
      (expected = INERTIA_IDLE ∧ new = INERTIA_ACTIVE) ∨
        (expected = INERTIA_RELEASING ∧ new = INERTIA_ACTIVE) ∨
          (expected = INERTIA_RELEASING ∧ new = INERTIA_IDLE ∧ Holds p s)
  | .verdict settled kept, s => Verdict p settled s kept
  | .panic _, _ => False
  | _, _ => True

/-- Operations that leave the owner, the word and the target alone. -/
def Op.quiet : Op → Bool
  | notified _ | awaitNotified _ | discard _ | notifyWaiters _ | load | probeIdle _
  | commitRecheck | recheckRevision | loadSettled | computeTarget | readTarget
  | disposeComplete | completeDispose | isAlive | applyFailed | tryCurrent | claimTerminal
  | refused | enterRecheck _ _ | verdict _ _ | panic _ => true
  | _ => false

/-- What a quiet operation of one party does to the others' parts. -/
structure Quiet (p : Party) (s s' : InertiaSlot) : Prop where
  holder : s'.trace.holder = s.trace.holder
  inertia : s'.inertia = s.inertia
  target : s'.target = s.target
  settled : s'.recheckSettled = s.recheckSettled
  committed : s.recheckCommitted ≤ s'.recheckCommitted
  reclaims : s'.trace.reclaims = s.trace.reclaims
  call : ∀ t, t ≠ p → s'.trace.call t = s.trace.call t

theorem Quiet.sound {p : Party} {s s' : InertiaSlot} (h : Quiet p s s') (hs : Sound s) :
    Sound s' where
  held := by
    rw [h.inertia, h.holder]
    exact hs.held
  word := by
    rw [h.inertia]
    exact hs.word
  settled := by
    rw [h.settled]
    exact Nat.le_trans hs.settled h.committed

theorem Quiet.leaves {p t : Party} {s s' : InertiaSlot} (h : Quiet p s s') (ht : t ≠ p) :
    Leaves t s s' :=
  .of_same h.holder (h.call t ht) h.committed h.reclaims h.settled h.target h.inertia

theorem InertiaSlot.call_trackCall_of_ne {s : InertiaSlot} {p t : Party} (change : Call → Call)
    (ht : t ≠ p) : (s.trackCall p change).trace.call t = s.trace.call t := by
  simp [InertiaSlot.trackCall, InertiaSlot.track, ht]

theorem InertiaSlot.call_trackCall_self {s : InertiaSlot} {p : Party} (change : Call → Call) :
    (s.trackCall p change).trace.call p = (s.trace.call p).map change := by
  simp [InertiaSlot.trackCall, InertiaSlot.track]

theorem exec_quiet {p q : Party} {c : Choice} {op : Op} {s s' : InertiaSlot} {r : op.Ret}
    (hquiet : op.quiet = true) (hexec : exec p q c op s = some (s', r)) : Quiet p s s' := by
  have hrefl : Quiet p s s := ⟨rfl, rfl, rfl, rfl, Nat.le_refl _, rfl, fun _ _ => rfl⟩
  have hcell : ∀ n cell, Quiet p s (s.setNotify n cell) := by
    intro n cell
    cases cell <;> exact ⟨rfl, rfl, rfl, rfl, Nat.le_refl _, rfl, fun _ _ => rfl⟩
  have hcall : ∀ change, Quiet p s (s.trackCall p change) := fun change =>
    ⟨rfl, rfl, rfl, rfl, Nat.le_refl _, rfl, fun _ ht => InertiaSlot.call_trackCall_of_ne change ht⟩
  cases op with
  | notified cell =>
      cases hexec
      exact hcell _ cell
  | discard cell =>
      cases hexec
      exact hcell _ cell
  | awaitNotified cell =>
      simp only [exec, Option.ite_none_right_eq_some, Option.some.injEq] at hexec
      rcases hexec with ⟨-, hout⟩
      cases hout
      have hset := hcell ((s.notify cell).discard p) cell
      exact ⟨hset.holder, hset.inertia, hset.target, hset.settled, hset.committed, hset.reclaims,
        hset.call⟩
  | notifyWaiters cell =>
      cases hexec
      cases cell with
      | done =>
          exact ⟨rfl, rfl, rfl, rfl, Nat.le_refl _, rfl,
            fun _ ht => InertiaSlot.call_trackCall_of_ne _ ht⟩
      | disposeDone => exact ⟨rfl, rfl, rfl, rfl, Nat.le_refl _, rfl, fun _ _ => rfl⟩
  | load | probeIdle | loadSettled | readTarget | disposeComplete | isAlive | applyFailed
  | tryCurrent | claimTerminal | refused | verdict =>
      cases hexec
      exact hrefl
  | commitRecheck =>
      cases hexec
      exact ⟨rfl, rfl, rfl, rfl, Nat.le_succ _, rfl, fun _ _ => rfl⟩
  | recheckRevision =>
      cases hexec
      exact hcall _
  | computeTarget =>
      cases hexec
      exact hcall _
  | completeDispose =>
      cases hexec
      exact ⟨rfl, rfl, rfl, rfl, Nat.le_refl _, rfl, fun _ _ => rfl⟩
  | enterRecheck settled revision =>
      cases hexec
      refine ⟨rfl, rfl, rfl, rfl, Nat.le_refl _, rfl, fun t ht => ?_⟩
      simp [InertiaSlot.enterCall, InertiaSlot.track, ht]
  | panic arm => cases hexec
  | claim | compareExchange | abandon | storeActive | storeReleasing | storeSettled | recordTarget
  | markPendingIfUntouched | pinInactive | fork => cases hquiet

theorem Holds.ne {p t : Party} {s : InertiaSlot} (h : Holds p s) (ht : t ≠ p) : ¬ Holds t s := by
  intro hother
  rw [Holds, h, Option.some.injEq] at hother
  exact ht hother.symm

theorem Sound.not_idle {p : Party} {s : InertiaSlot} (hs : Sound s) (h : Holds p s) :
    s.inertia ≠ INERTIA_IDLE := by
  intro hidle
  have hnone := hs.held.mp hidle
  rw [h] at hnone
  cases hnone

/-- A party takes the idle slot. -/
theorem acquire_spec {p : Party} {s : InertiaSlot} (hs : Sound s)
    (hidle : s.inertia = INERTIA_IDLE) :
    Sound (s.acquire p) ∧ ∀ t, t ≠ p → Leaves t s (s.acquire p) := by
  have hnone := hs.held.mp hidle
  refine ⟨⟨⟨nofun, nofun⟩, ?_, hs.settled⟩, fun t ht => ?_⟩
  · show INERTIA_ACTIVE ≤ INERTIA_RELEASING
    decide
  · refine .of_not_holds (fun h => ?_) (fun h => ?_) rfl (Nat.le_refl _) (Nat.le_refl _)
    · rw [Holds, hnone] at h
      cases h
    · exact ht (Option.some.inj h).symm

/-- The holder lets go. -/
theorem release_spec {p : Party} {s : InertiaSlot} (hs : Sound s) (hp : Holds p s) :
    Sound (s.release p) ∧ ∀ t, t ≠ p → Leaves t s (s.release p) := by
  refine ⟨⟨⟨fun _ => rfl, fun _ => rfl⟩, Nat.zero_le _, hs.settled⟩, fun t ht => ?_⟩
  exact .of_not_holds (hp.ne ht) nofun rfl (Nat.le_refl _) (Nat.le_refl _)

theorem reclaim_spec {s : InertiaSlot} (hs : Sound s) (hword : s.inertia = INERTIA_RELEASING) :
    Sound s.reclaim ∧ ∀ t, Leaves t s s.reclaim := by
  have hbusy : s.trace.holder ≠ none := fun hnone => by
    have hidle := hs.held.mpr hnone
    rw [hword] at hidle
    cases hidle
  refine ⟨⟨⟨nofun, fun h => absurd h hbusy⟩, ?_, hs.settled⟩, fun t => ?_⟩
  · show INERTIA_ACTIVE ≤ INERTIA_RELEASING
    decide
  · refine ⟨Iff.rfl, rfl, Nat.le_refl _, Nat.le_succ _, fun _ => rfl, fun _ => rfl, fun _ _ => rfl,
      fun _ _ => .inr ⟨rfl, Nat.lt_succ_self _⟩⟩

theorem exec_leaves {p q : Party} {c : Choice} {op : Op} {s s' : InertiaSlot} {r : op.Ret}
    (hs : Sound s) (hcheck : check p op s) (hexec : exec p q c op s = some (s', r))
    (hfork : ∀ routine, op ≠ .fork routine) : Sound s' ∧ ∀ t, t ≠ p → Leaves t s s' := by
  by_cases hquiet : op.quiet = true
  · have hq := exec_quiet hquiet hexec
    exact ⟨hq.sound hs, fun t ht => hq.leaves ht⟩
  -- the operations that only the holder performs
  have hown : Holds p s → s'.trace.holder = s.trace.holder → s'.inertia ≠ INERTIA_IDLE →
      s'.inertia ≤ INERTIA_RELEASING → s'.recheckCommitted = s.recheckCommitted →
      s'.trace.reclaims = s.trace.reclaims → s'.recheckSettled ≤ s'.recheckCommitted →
      (∀ t, t ≠ p → s'.trace.call t = s.trace.call t) →
      Sound s' ∧ ∀ t, t ≠ p → Leaves t s s' := by
    intro hp hholder hbusy hword hcommitted hreclaims hsettled hcall
    have hp' : Holds p s' := hholder.trans hp
    refine ⟨⟨⟨fun h => absurd h hbusy, fun h => ?_⟩, hword, hsettled⟩, fun t ht => ?_⟩
    · rw [hp'] at h
      cases h
    · exact .of_not_holds (hp.ne ht) (hp'.ne ht) (hcall t ht) (Nat.le_of_eq hcommitted.symm)
        (Nat.le_of_eq hreclaims.symm)
  cases op with
  | claim =>
      simp only [exec] at hexec
      split at hexec
      · rename_i hidle
        cases hexec
        exact acquire_spec hs hidle
      · cases hexec
        exact ⟨⟨hs.held, hs.word, hs.settled⟩,
          fun t _ => .of_same rfl rfl (Nat.le_refl _) rfl rfl rfl rfl⟩
  | compareExchange expected new =>
      have hout : s.compareExchange p expected new = (s', r) := Option.some.inj hexec
      obtain rfl : (s.compareExchange p expected new).1 = s' := congrArg Prod.fst hout
      unfold InertiaSlot.compareExchange
      split
      · rename_i hword
        rcases hcheck with ⟨rfl, rfl⟩ | ⟨rfl, rfl⟩ | ⟨rfl, rfl, hp⟩
        · exact acquire_spec hs hword
        · have hspec := reclaim_spec hs hword
          exact ⟨hspec.1, fun t _ => hspec.2 t⟩
        · rcases release_spec hs hp with ⟨hsound, hleaves⟩
          refine ⟨⟨hsound.held, hsound.word, hsound.settled⟩, fun t ht => ?_⟩
          refine (hleaves t ht).trans (.of_same rfl ?_ (Nat.le_refl _) rfl rfl rfl rfl)
          exact InertiaSlot.call_trackCall_of_ne _ ht
      · exact ⟨hs, fun t _ => .refl t s⟩
  | abandon =>
      cases hexec
      exact release_spec hs hcheck
  | storeActive =>
      cases hexec
      exact hown hcheck rfl nofun (Nat.le_succ 1) rfl rfl hs.settled fun _ _ => rfl
  | storeReleasing revision =>
      cases hexec
      exact hown hcheck.1 rfl nofun (Nat.le_refl 2) rfl rfl hs.settled
        fun t ht => InertiaSlot.call_trackCall_of_ne _ ht
  | storeSettled revision =>
      cases hexec
      exact hown hcheck.1 rfl (hs.not_idle hcheck.1) hs.word rfl rfl hcheck.2.2 fun _ _ => rfl
  | recordTarget target =>
      cases hexec
      exact hown hcheck rfl (hs.not_idle hcheck) hs.word rfl rfl hs.settled fun _ _ => rfl
  | markPendingIfUntouched target =>
      cases hexec
      exact hown hcheck rfl (hs.not_idle hcheck) hs.word rfl rfl hs.settled fun _ _ => rfl
  | pinInactive =>
      cases hexec
      exact hown hcheck rfl (hs.not_idle hcheck) hs.word rfl rfl hs.settled fun _ _ => rfl
  | fork routine => exact absurd rfl (hfork routine)
  | notified | awaitNotified | discard | notifyWaiters | load | probeIdle | commitRecheck
  | recheckRevision | loadSettled | computeTarget | readTarget | disposeComplete
  | completeDispose | isAlive | applyFailed | tryCurrent | claimTerminal | refused
  | enterRecheck | verdict | panic => exact absurd rfl hquiet

/-! ## The logic -/

/-- The holder's pass is about to settle toward a recorded target. -/
def Aims (p : Party) (s : InertiaSlot) : Prop :=
  Holds p s ∧ s.inertia = INERTIA_ACTIVE ∧ s.target ≠ none

def entry (routine : Routine) (p : Party) (s : InertiaSlot) : Prop :=
  if routine = .convergencePass then Aims p s else ¬ Holds p s

def rechecking : Logic protocol tailIdle where
  inv := Sound
  rely := Leaves
  blank p s := ¬ Holds p s
  pre := entry
  post p _ s := ¬ Holds p s
  check := check
  rely_refl := Leaves.refl
  rely_trans := Leaves.trans
  blank_rely h hl hp := h (hl.holder.mp hp)
  post_rely h hl hp := h (hl.holder.mp hp)

theorem wp_op {p : Party} {op : Op} {Q : op.Ret → InertiaSlot → Prop} {s : InertiaSlot}
    (hforks : ∀ routine, op ≠ .fork routine) (hawaits : protocol.awaits op = false)
    (hcheck : ∀ s', Leaves p s s' → Sound s' → check p op s')
    (h : ∀ s' q c s'' r, Leaves p s s' → Sound s' → tailIdle p c op s' →
      exec p q c op s' = some (s'', r) → Q r s'') : rechecking.wp p (perform op) Q s := by
  have hnone : protocol.forks op = none := by
    cases op with
    | fork routine => exact absurd rfl (hforks routine)
    | _ => rfl
  refine rechecking.wp_perform fun s' hl hs' => ⟨hcheck s' hl hs', ?_, fun hwaits => ?_⟩
  · refine Logic.Performs.of_step hnone fun q c s'' r hok _ hexec => ?_
    have hexec : exec p q c op s' = some (s'', r) := hexec
    rcases exec_leaves hs' (hcheck s' hl hs') hexec hforks with ⟨hsound, hleaves⟩
    exact ⟨hsound, hleaves, h s' q c s'' r hl hs' hok hexec⟩
  · rw [hawaits] at hwaits
    cases hwaits

/-! ## Assertions that quiet operations keep -/

/-- Neither the others nor the party's own quiet operations undo the assertion. -/
structure Steady (p : Party) (D : InertiaSlot → Prop) : Prop where
  rely : ∀ {s s'}, Leaves p s s' → D s → D s'
  quiet : ∀ {s s'}, Quiet p s s' → D s → D s'

theorem steady_not_holds (p : Party) : Steady p fun s => ¬ Holds p s where
  rely hl hp hp' := hp (hl.holder.mp hp')
  quiet hq hp hp' := by
    rw [Holds, hq.holder] at hp'
    exact hp hp'

theorem steady_holds (p : Party) : Steady p (Holds p) where
  rely hl hp := hl.holder.mpr hp
  quiet hq hp := by
    rw [Holds, hq.holder]
    exact hp

/-- The holder's pass is under way. -/
def Owns (p : Party) (s : InertiaSlot) : Prop :=
  Holds p s ∧ s.inertia = INERTIA_ACTIVE

theorem steady_owns (p : Party) : Steady p (Owns p) where
  rely hl h := ⟨hl.holder.mpr h.1, hl.active h.1 h.2⟩
  quiet hq h := ⟨(steady_holds p).quiet hq h.1, hq.inertia.trans h.2⟩

theorem steady_aims (p : Party) : Steady p (Aims p) where
  rely hl h := by
    refine ⟨hl.holder.mpr h.1, hl.active h.1 h.2.1, ?_⟩
    rw [hl.target h.1]
    exact h.2.2
  quiet hq h := by
    refine ⟨(steady_holds p).quiet hq h.1, hq.inertia.trans h.2.1, ?_⟩
    rw [hq.target]
    exact h.2.2

/-- A revision that was read stays behind the committed one. -/
theorem steady_revision (p : Party) (revision : Nat) :
    Steady p fun s => revision ≤ s.recheckCommitted where
  rely hl h := Nat.le_trans h hl.committed
  quiet hq h := Nat.le_trans h hq.committed

theorem Steady.and {p : Party} {D E : InertiaSlot → Prop} (hD : Steady p D) (hE : Steady p E) :
    Steady p fun s => D s ∧ E s where
  rely hl h := ⟨hD.rely hl h.1, hE.rely hl h.2⟩
  quiet hq h := ⟨hD.quiet hq h.1, hE.quiet hq h.2⟩

theorem wp_quiet {p : Party} {op : Op} {D : InertiaSlot → Prop} {s : InertiaSlot}
    (hD : Steady p D) (hquiet : op.quiet = true) (hawaits : protocol.awaits op = false)
    (hcheck : ∀ s', check p op s') (h : D s) :
    rechecking.wp p (perform op) (fun _ s' => D s') s := by
  refine wp_op (fun routine heq => ?_) hawaits (fun s' _ _ => hcheck s') ?_
  · subst heq
    cases hquiet
  · exact fun s' q c s'' r hl _ _ hexec => hD.quiet (exec_quiet hquiet hexec) (hD.rely hl h)

/-- The revision that a party reads is behind the committed one from then on. -/
theorem wp_recheckRevision {p : Party} {D : InertiaSlot → Prop} {s : InertiaSlot}
    (hD : Steady p D) (h : D s) : rechecking.wp p (perform .recheckRevision)
      (fun revision s' => D s' ∧ revision ≤ s'.recheckCommitted) s := by
  refine wp_op nofun rfl (fun _ _ _ => trivial) fun s' q c s'' r hl _ _ hexec => ?_
  have hkeep := hD.quiet (exec_quiet rfl hexec) (hD.rely hl h)
  cases hexec
  exact ⟨hkeep, Nat.le_refl _⟩

/-- Who waits does not hold the slot, and nothing is lost when it is dropped. -/
theorem wp_await {p : Party} {cell : Cell} {s : InertiaSlot} (h : ¬ Holds p s) :
    rechecking.wp p (perform (.awaitNotified cell)) (fun _ s' => ¬ Holds p s') s := by
  have hD := steady_not_holds p
  refine rechecking.wp_perform fun s' hl hs' => ⟨trivial, ?_, fun _ _ s'' next hdrop => ?_⟩
  · refine Logic.Performs.of_step rfl fun q c s'' r _ _ hexec => ?_
    have hexec : exec p q c (.awaitNotified cell) s' = some (s'', r) := hexec
    have hq := exec_quiet rfl hexec
    exact ⟨hq.sound hs', fun t ht => hq.leaves ht, hD.quiet hq (hD.rely hl h)⟩
  · cases hdrop
    have hq : Quiet p s' (s'.forget p) :=
      ⟨rfl, rfl, rfl, rfl, Nat.le_refl _, rfl, fun _ _ => rfl⟩
    exact ⟨hq.sound hs', fun t ht => hq.leaves ht, hD.quiet hq (hD.rely hl h)⟩

/-! ## One iteration -/

/-- Before an iteration: the earlier ones are paid for. -/
def Round (p : Party) (settled : SemanticTarget) (revision : Nat) (s : InertiaSlot) : Prop :=
  Holds p s ∧ revision ≤ s.recheckCommitted ∧ ∃ c, s.trace.call p = some c ∧ c.settled = settled ∧
    c.iterations + c.base + c.kicks ≤ revision + s.trace.reclaims ∧
    (0 < c.iterations → c.compared < revision ∨ c.reclaimed < s.trace.reclaims)

/-- During an iteration: the word is RELEASING until a kick takes it back. -/
def Probing (p : Party) (settled : SemanticTarget) (revision : Nat) (F : Call → Prop)
    (s : InertiaSlot) : Prop :=
  Holds p s ∧ revision ≤ s.recheckCommitted ∧ ∃ c, s.trace.call p = some c ∧ c.settled = settled ∧
    c.compared = revision ∧ c.iterations + c.base + c.kicks ≤ revision + c.reclaimed + 1 ∧
    (s.inertia = INERTIA_RELEASING ∧ s.trace.reclaims = c.reclaimed ∨
      s.inertia = INERTIA_ACTIVE ∧ c.reclaimed < s.trace.reclaims) ∧ F c

theorem Round.rely {p : Party} {settled : SemanticTarget} {revision : Nat} {s s' : InertiaSlot}
    (h : Round p settled revision s) (hl : Leaves p s s') : Round p settled revision s' := by
  rcases h with ⟨hp, hrev, c, hc, hsettled, hpaid, hlast⟩
  have hreclaims := hl.reclaims
  refine ⟨hl.holder.mpr hp, Nat.le_trans hrev hl.committed, c, hl.call.trans hc, hsettled,
    by omega, fun hpos => ?_⟩
  rcases hlast hpos with hcommit | hkick
  · exact .inl hcommit
  · exact .inr (by omega)

theorem Probing.rely {p : Party} {settled : SemanticTarget} {revision : Nat} {F : Call → Prop}
    {s s' : InertiaSlot} (h : Probing p settled revision F s) (hl : Leaves p s s') :
    Probing p settled revision F s' := by
  rcases h with ⟨hp, hrev, c, hc, hsettled, hcompared, hpaid, hword, hF⟩
  have hreclaims := hl.reclaims
  refine ⟨hl.holder.mpr hp, Nat.le_trans hrev hl.committed, c, hl.call.trans hc, hsettled,
    hcompared, hpaid, ?_, hF⟩
  rcases hword with ⟨hword, hcount⟩ | ⟨hword, hcount⟩
  · rcases hl.releasing hp hword with ⟨hsame, hsame'⟩ | ⟨hback, hmore⟩
    · exact .inl ⟨hsame, hsame'.trans hcount⟩
    · exact .inr ⟨hback, by omega⟩
  · exact .inr ⟨hl.active hp hword, by omega⟩

theorem Round.charged {p : Party} {settled : SemanticTarget} {revision : Nat} {s : InertiaSlot}
    (h : Round p settled revision s) : Charged p s := by
  rcases h with ⟨-, hrev, c, hc, -, hpaid, hlast⟩
  refine ⟨c, hc, by omega, fun hpos => ?_⟩
  rcases hlast hpos with hcommit | hkick
  · exact .inl (by omega)
  · exact .inr hkick

theorem wp_enterRecheck {p : Party} {settled : SemanticTarget} {revision : Nat} {s : InertiaSlot}
    (h : Holds p s) (hrev : revision ≤ s.recheckCommitted) :
    rechecking.wp p (perform (.enterRecheck settled revision))
      (fun _ s' => Round p settled revision s') s := by
  refine wp_op nofun rfl (fun _ _ _ => trivial) fun s' q c s'' r hl _ _ hexec => ?_
  have hp' := hl.holder.mpr h
  have hrev' := Nat.le_trans hrev hl.committed
  cases hexec
  refine ⟨hp', hrev', { settled := settled, base := revision, kicks := s'.trace.reclaims }, ?_, rfl,
    ?_, nofun⟩
  · simp [InertiaSlot.enterCall, InertiaSlot.track]
  · simp [InertiaSlot.enterCall, InertiaSlot.track]

theorem wp_storeReleasing {p : Party} {settled : SemanticTarget} {revision : Nat} {s : InertiaSlot}
    (h : Round p settled revision s) : rechecking.wp p (perform (.storeReleasing revision))
      (fun _ s' => Probing p settled revision (fun _ => True) s') s := by
  refine wp_op nofun rfl (fun s' hl _ => ⟨(h.rely hl).1, (h.rely hl).charged⟩) ?_
  intro s' q c s'' r hl _ _ hexec
  rcases h.rely hl with ⟨hp, hrev, call, hc, hsettled, hpaid, -⟩
  cases hexec
  refine ⟨hp, hrev, { call with
    iterations := call.iterations + 1
    compared := revision
    reclaimed := s'.trace.reclaims }, ?_, hsettled, rfl, ?_, .inl ⟨rfl, rfl⟩, trivial⟩
  · simp only [InertiaSlot.probe, InertiaSlot.call_trackCall_self]
    simp [hc]
  · simp only
    omega

/-- A party writes what its latest probe saw. -/
theorem Probing.see {p : Party} {settled : SemanticTarget} {revision : Nat} {F G : Call → Prop}
    {s : InertiaSlot} (h : Probing p settled revision F s) {change : Call → Call}
    (hsettled : ∀ c, (change c).settled = c.settled)
    (hcompared : ∀ c, (change c).compared = c.compared)
    (hpaid : ∀ c, (change c).iterations + (change c).base + (change c).kicks =
      c.iterations + c.base + c.kicks)
    (hreclaimed : ∀ c, (change c).reclaimed = c.reclaimed) (hG : ∀ c, F c → G (change c)) :
    Probing p settled revision G (s.trackCall p change) := by
  rcases h with ⟨hp, hrev, c, hc, hset, hcomp, hpay, hword, hF⟩
  refine ⟨hp, hrev, change c, ?_, (hsettled c).trans hset, (hcompared c).trans hcomp, ?_, ?_, hG c hF⟩
  · rw [InertiaSlot.call_trackCall_self, hc]
    rfl
  · rw [hpaid, hreclaimed]
    exact hpay
  · rw [hreclaimed]
    exact hword

theorem wp_computeTarget {p : Party} {settled : SemanticTarget} {revision : Nat} {s : InertiaSlot}
    (h : Probing p settled revision (fun _ => True) s) :
    rechecking.wp p (perform .computeTarget)
      (fun live s' => Probing p settled revision (fun c => c.live = some live) s') s := by
  refine wp_op nofun rfl (fun _ _ _ => trivial) fun s' q c s'' r hl _ _ hexec => ?_
  have h' := h.rely hl
  cases hexec
  exact h'.see (fun _ => rfl) (fun _ => rfl) (fun _ => rfl) (fun _ => rfl) fun _ _ => rfl

/-- The probe's second read is at least as new as the revision in hand and as what is settled. -/
theorem wp_observe {p : Party} {settled live : SemanticTarget} {revision : Nat} {s : InertiaSlot}
    (h : Probing p settled revision (fun c => c.live = some live) s) :
    rechecking.wp p (perform .recheckRevision) (fun observed s' =>
      Probing p settled revision (fun c => c.live = some live ∧ c.observed = some observed) s' ∧
        revision ≤ observed ∧ observed ≤ s'.recheckCommitted ∧ s'.recheckSettled ≤ observed) s := by
  refine wp_op nofun rfl (fun _ _ _ => trivial) fun s' q c s'' r hl hs' _ hexec => ?_
  have h' := h.rely hl
  cases hexec
  exact ⟨h'.see (fun _ => rfl) (fun _ => rfl) (fun _ => rfl) (fun _ => rfl)
    fun _ hlive => ⟨hlive, rfl⟩, h'.2.1, Nat.le_refl _, hs'.settled⟩

/-! ## The arms of an iteration -/

/-- The drift arm, up to its store of ACTIVE. -/
def Drifted (p : Party) (settled live : SemanticTarget) (s : InertiaSlot) : Prop :=
  Holds p s ∧ s.target = some live ∧
    ∃ c, s.trace.call p = some c ∧ c.settled = settled ∧ c.live = some live

theorem Drifted.rely {p : Party} {settled live : SemanticTarget} {s s' : InertiaSlot}
    (h : Drifted p settled live s) (hl : Leaves p s s') : Drifted p settled live s' := by
  rcases h with ⟨hp, htarget, c, hc, hrest⟩
  exact ⟨hl.holder.mpr hp, (hl.target hp).trans htarget, c, hl.call.trans hc, hrest⟩

/-- A kept slot: the live target is recorded and the word is ACTIVE again. -/
theorem wp_drift {p : Party} {settled live : SemanticTarget} {revision : Nat} {F : Call → Prop}
    {s : InertiaSlot} (hs : Sound s) (h : Probing p settled revision F s)
    (hF : ∀ c, F c → c.live = some live) (hne : live ≠ settled) {α : Type} (a : α)
    {Q : α → InertiaSlot → Prop} (hQ : ∀ s', Aims p s' → Q a s') :
    rechecking.wp p (do
      perform (.recordTarget live)
      perform .storeActive
      perform (.verdict settled true)
      pure a) Q s := by
  have hrecord : rechecking.wp p (perform (.recordTarget live))
      (fun _ s' => Drifted p settled live s') s := by
    refine wp_op nofun rfl (fun s' hl _ => (h.rely hl).1) fun s' q c s'' r hl _ _ hexec => ?_
    rcases h.rely hl with ⟨hp, -, call, hc, hsettled, -, -, -, hfacts⟩
    cases hexec
    exact ⟨hp, rfl, call, hc, hsettled, hF call hfacts⟩
  refine rechecking.wp_seq hs hrecord fun _ s₁ hs₁ h₁ => ?_
  have hstore : rechecking.wp p (perform .storeActive)
      (fun _ s' => Drifted p settled live s' ∧ s'.inertia = INERTIA_ACTIVE) s₁ := by
    refine wp_op nofun rfl (fun s' hl _ => (h₁.rely hl).1) fun s' q c s'' r hl _ _ hexec => ?_
    have h' := h₁.rely hl
    cases hexec
    exact ⟨h', rfl⟩
  refine rechecking.wp_seq hs₁ hstore fun _ s₂ hs₂ h₂ => ?_
  have hverdict : rechecking.wp p (perform (.verdict settled true)) (fun _ s' => Aims p s') s₂ := by
    refine wp_op nofun rfl (fun s' hl _ => ?_) fun s' q c s'' r hl _ _ hexec => ?_
    · rcases h₂.1.rely hl with ⟨hp, htarget, call, hc, hsettled, hlive⟩
      exact ⟨hp, hl.active h₂.1.1 h₂.2, call, live, hc, hsettled, hlive, hne, htarget⟩
    · have h' := h₂.1.rely hl
      have hactive := hl.active h₂.1.1 h₂.2
      cases hexec
      refine ⟨h'.1, hactive, ?_⟩
      rw [h'.2.1]
      nofun
  exact rechecking.wp_seq hs₂ hverdict fun _ s₃ _ h₃ => hQ s₃ h₃

/-- A clean exit, once IDLE is published. -/
def Released (p : Party) (settled : SemanticTarget) (announced : Bool) (s : InertiaSlot) : Prop :=
  ¬ Holds p s ∧ ∃ c revision, s.trace.call p = some c ∧ c.settled = settled ∧
    c.live = some settled ∧ c.observed = some revision ∧ c.acknowledged = some revision ∧
      (announced = true → c.announced = true)

theorem Released.rely {p : Party} {settled : SemanticTarget} {announced : Bool}
    {s s' : InertiaSlot} (h : Released p settled announced s) (hl : Leaves p s s') :
    Released p settled announced s' := by
  rcases h with ⟨hp, c, revision, hc, hrest⟩
  exact ⟨fun hp' => hp (hl.holder.mp hp'), c, revision, hl.call.trans hc, hrest⟩

/-- A clean probe on the way out: the counter is settled and the final exchange is next. -/
def Clean (p : Party) (settled : SemanticTarget) (revision : Nat) (s : InertiaSlot) : Prop :=
  Probing p settled revision (fun c => c.live = some settled ∧ c.observed = some revision) s ∧
    s.recheckSettled = revision

theorem Clean.rely {p : Party} {settled : SemanticTarget} {revision : Nat} {s s' : InertiaSlot}
    (h : Clean p settled revision s) (hl : Leaves p s s') : Clean p settled revision s' :=
  ⟨h.1.rely hl, (hl.settled h.1.1).trans h.2⟩

theorem wp_storeSettled {p : Party} {settled : SemanticTarget} {revision : Nat} {s : InertiaSlot}
    (h : Probing p settled revision
      (fun c => c.live = some settled ∧ c.observed = some revision) s)
    (hbehind : s.recheckSettled ≤ revision) :
    rechecking.wp p (perform (.storeSettled revision))
      (fun _ s' => Clean p settled revision s') s := by
  refine wp_op nofun rfl (fun s' hl _ => ?_) fun s' q c s'' r hl _ _ hexec => ?_
  · refine ⟨(h.rely hl).1, ?_, (h.rely hl).2.1⟩
    rw [hl.settled h.1]
    exact hbehind
  · have h' := h.rely hl
    cases hexec
    exact ⟨h', rfl⟩

/-- The final exchange publishes IDLE, or a kick was faster. -/
theorem wp_exchange {p : Party} {settled : SemanticTarget} {revision : Nat} {s : InertiaSlot}
    (h : Clean p settled revision s) :
    rechecking.wp p (perform (.compareExchange INERTIA_RELEASING INERTIA_IDLE)) (fun r s' =>
      match r with
      | .ok _ => Released p settled false s'
      | .error word => word = INERTIA_ACTIVE ∧ Holds p s' ∧ revision ≤ s'.recheckCommitted ∧
          ∃ c, s'.trace.call p = some c ∧ c.settled = settled ∧
            c.iterations + c.base + c.kicks ≤ revision + s'.trace.reclaims ∧
            c.reclaimed < s'.trace.reclaims) s := by
  refine wp_op nofun rfl (fun s' hl _ => .inr (.inr ⟨rfl, rfl, (h.rely hl).1.1⟩)) ?_
  intro s' q c s'' r hl _ _ hexec
  rcases h.rely hl with ⟨⟨hp, hrev, call, hc, hsettled, -, hpaid, hword, hlive, hobserved⟩, heq⟩
  have hout : s'.compareExchange p INERTIA_RELEASING INERTIA_IDLE = (s'', r) :=
    Option.some.inj hexec
  rcases hword with ⟨hword, -⟩ | ⟨hword, hkick⟩
  · rw [InertiaSlot.compareExchange, if_pos hword] at hout
    cases hout
    refine ⟨nofun, { call with acknowledged := some s'.recheckSettled }, revision, ?_, hsettled,
      hlive, hobserved, by rw [heq], nofun⟩
    simp only [if_true, InertiaSlot.releaseClean, InertiaSlot.call_trackCall_self]
    simp [InertiaSlot.release, InertiaSlot.track, hc]
  · have hne : s'.inertia ≠ INERTIA_RELEASING := by
      rw [hword]
      nofun
    rw [InertiaSlot.compareExchange, if_neg hne] at hout
    cases hout
    exact ⟨hword, hp, hrev, call, hc, hsettled, by omega, hkick⟩

/-- IDLE is published: the broadcast, the verdict. -/
theorem wp_released {p : Party} {settled : SemanticTarget} {s : InertiaSlot} (hs : Sound s)
    (h : Released p settled false s) {α : Type} (a : α) {Q : α → InertiaSlot → Prop}
    (hQ : ∀ s', ¬ Holds p s' → Q a s') :
    rechecking.wp p (do
      perform (.notifyWaiters .done)
      perform (.verdict settled false)
      pure a) Q s := by
  have hnotify : rechecking.wp p (perform (.notifyWaiters .done))
      (fun _ s' => Released p settled true s') s := by
    refine wp_op nofun rfl (fun _ _ _ => trivial) fun s' q c s'' r hl _ _ hexec => ?_
    rcases h.rely hl with ⟨hp, call, revision, hc, hsettled, hlive, hobserved, hack, -⟩
    cases hexec
    refine ⟨hp, { call with announced := call.acknowledged.isSome }, revision, ?_, hsettled, hlive,
      hobserved, hack, fun _ => by simp [hack]⟩
    simp only [InertiaSlot.broadcast, InertiaSlot.call_trackCall_self]
    simp [InertiaSlot.track, hc]
  refine rechecking.wp_seq hs hnotify fun _ s₁ hs₁ h₁ => ?_
  have hverdict : rechecking.wp p (perform (.verdict settled false))
      (fun _ s' => ¬ Holds p s') s₁ := by
    refine wp_op nofun rfl (fun s' hl _ => ?_) fun s' q c s'' r hl _ _ hexec => ?_
    · rcases h₁.rely hl with ⟨-, call, revision, hc, hsettled, hlive, hobserved, hack, hann⟩
      exact ⟨call, revision, hc, hsettled, hlive, hobserved, hack, hann rfl⟩
    · have h' := h₁.rely hl
      cases hexec
      exact h'.1
  exact rechecking.wp_seq hs₁ hverdict fun _ s₂ _ h₂ => hQ s₂ h₂

/-- A kick took the releasing slot back: the next round is paid for by it. -/
theorem wp_reclaimed {p : Party} {settled : SemanticTarget} {revision : Nat} {s : InertiaSlot}
    (hp : Holds p s) (hrev : revision ≤ s.recheckCommitted) {c : Call}
    (hc : s.trace.call p = some c) (hsettled : c.settled = settled)
    (hpaid : c.iterations + c.base + c.kicks ≤ revision + s.trace.reclaims)
    (hkick : c.reclaimed < s.trace.reclaims) :
    rechecking.wp p (perform .recheckRevision)
      (fun revision' s' => Round p settled revision' s') s := by
  refine wp_op nofun rfl (fun _ _ _ => trivial) fun s' q _ s'' r hl _ _ hexec => ?_
  have hp' := hl.holder.mpr hp
  have hc' := hl.call.trans hc
  have hreclaims := hl.reclaims
  have hcommitted := hl.committed
  cases hexec
  refine ⟨hp', Nat.le_refl _, { c with observed := some s'.recheckCommitted }, ?_, hsettled, ?_,
    fun _ => .inr ?_⟩
  · rw [InertiaSlot.call_trackCall_self, hc']
    rfl
  · show c.iterations + c.base + c.kicks ≤ s'.recheckCommitted + s'.trace.reclaims
    omega
  · show c.reclaimed < s'.trace.reclaims
    omega

/-- A committed revision was missed: the next round is paid for by its commit. -/
theorem Probing.next {p : Party} {settled : SemanticTarget} {revision observed : Nat}
    {F : Call → Prop} {s : InertiaSlot} (h : Probing p settled revision F s)
    (hnew : revision < observed) (hobserved : observed ≤ s.recheckCommitted) :
    Round p settled observed s := by
  rcases h with ⟨hp, -, c, hc, hsettled, hcompared, hpaid, hword, -⟩
  refine ⟨hp, hobserved, c, hc, hsettled, ?_, fun _ => .inl (by omega)⟩
  rcases hword with ⟨-, hcount⟩ | ⟨-, hcount⟩ <;> omega

theorem wp_exitRecheck {p : Party} {settled : SemanticTarget} {revision : Nat} {s : InertiaSlot}
    (hs : Sound s) (hp : Holds p s) (hrev : revision ≤ s.recheckCommitted) :
    rechecking.wp p (exitRecheck settled revision)
      (fun kept s' => (kept = true → Aims p s') ∧ (kept = false → ¬ Holds p s')) s := by
  refine rechecking.wp_seq hs (wp_enterRecheck hp hrev) fun _ s₀ _ h₀ => ?_
  refine rechecking.wp_iterate (fun revision s' => Round p settled revision s') h₀ ?_
  clear hp hrev h₀
  intro revision s₁ hs₁ h₁
  refine rechecking.wp_seq hs₁ (wp_storeReleasing h₁) fun _ s₂ hs₂ h₂ => ?_
  refine rechecking.wp_seq hs₂ (wp_computeTarget h₂) fun live s₃ hs₃ h₃ => ?_
  refine rechecking.wp_seq hs₃ (wp_observe h₃) fun observed s₄ hs₄ h₄ => ?_
  rcases h₄ with ⟨h₄, hnewer, hcommitted, hbehind⟩
  split
  · rename_i hdrift
    exact wp_drift hs₄ h₄ (fun _ hF => hF.1) hdrift _ fun s' h' => ⟨fun _ => h', nofun⟩
  · rename_i hsame
    obtain rfl : live = settled := not_not.mp hsame
    split
    · rename_i hmoved
      exact h₄.next (Nat.lt_of_le_of_ne hnewer (Ne.symm hmoved)) hcommitted
    · rename_i hstill
      obtain rfl : observed = revision := not_not.mp hstill
      refine rechecking.wp_seq hs₄ (wp_storeSettled h₄ hbehind) fun _ s₅ hs₅ h₅ => ?_
      refine rechecking.wp_seq hs₅ (wp_exchange h₅) fun r s₆ hs₆ h₆ => ?_
      cases r with
      | ok word => exact wp_released hs₆ h₆ _ fun s' h' => ⟨nofun, fun _ => h'⟩
      | error word =>
          rcases h₆ with ⟨rfl, hp, hrev, c, hc, hsettled, hpaid, hkick⟩
          simp only [if_true]
          exact rechecking.wp_seq hs₆ (wp_reclaimed hp hrev hc hsettled hpaid hkick)
            fun _ _ _ h' => h'

end Slot
end CordisCore
