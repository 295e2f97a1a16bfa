import CordisCore.Interleaving.Logic
import CordisCore.Slot.Protocol

/-!
# Waiters — nobody is left parked beside a free slot

A waiter creates its future before it looks, so between its look and its broadcast
there is no gap.  This holds in every run, whoever stores IDLE.
-/

namespace CordisCore
namespace Slot

open Interleaving

/-! ## What a parked waiter may count on -/

/-- There is nothing to wait for any more. -/
def InertiaSlot.free (s : InertiaSlot) : Cell → Bool
  | .done => s.inertia == INERTIA_IDLE
  | .disposeDone => s.disposeComplete

/-- The parties that owe a broadcast of this cell. -/
def InertiaSlot.owing (s : InertiaSlot) : Cell → List Party
  | .done => s.trace.unannounced
  | .disposeDone => s.trace.unpublished

/-- The party has a future of the cell that is woken, or has nothing to be woken for, or is owed
a broadcast. -/
def Parked (p : Party) (cell : Cell) (s : InertiaSlot) : Prop :=
  ∃ awake, (s.notify cell).futures p = some awake ∧
    (awake = false → s.free cell = true → s.owing cell ≠ [])

/-- What the steps of the others leave a party. -/
structure Keeps (p : Party) (s s' : InertiaSlot) : Prop where
  parked : ∀ cell, Parked p cell s → Parked p cell s'
  future : ∀ cell, ((s.notify cell).futures p).isSome → ((s'.notify cell).futures p).isSome
  owing : ∀ cell, p ∈ s'.owing cell ↔ p ∈ s.owing cell
  lost : s'.trace.lost p = s.trace.lost p

namespace Keeps

variable {p : Party} {s s' s'' : InertiaSlot}

theorem refl (p : Party) (s : InertiaSlot) : Keeps p s s :=
  ⟨fun _ h => h, fun _ h => h, fun _ => Iff.rfl, rfl⟩

theorem trans (h : Keeps p s s') (h' : Keeps p s' s'') : Keeps p s s'' where
  parked cell hp := h'.parked cell (h.parked cell hp)
  future cell hp := h'.future cell (h.future cell hp)
  owing cell := (h'.owing cell).trans (h.owing cell)
  lost := h'.lost.trans h.lost

/-- The futures of the party are left alone, and nothing comes free without its broadcast owed. -/
theorem of_notify (hfuture : ∀ cell, (s'.notify cell).futures p = (s.notify cell).futures p)
    (hfree : ∀ cell, s'.free cell = true → s.free cell = true ∧ s'.owing cell = s.owing cell ∨
      s'.owing cell ≠ [])
    (howing : ∀ cell, p ∈ s'.owing cell ↔ p ∈ s.owing cell)
    (hlost : s'.trace.lost p = s.trace.lost p) : Keeps p s s' where
  parked cell := by
    rintro ⟨awake, hawake, hmiss⟩
    refine ⟨awake, (hfuture cell).trans hawake, fun hfalse hfree' => ?_⟩
    rcases hfree cell hfree' with ⟨hold, hsame⟩ | hmore
    · rw [hsame]
      exact hmiss hfalse hold
    · exact hmore
  future cell h := by
    rw [hfuture]
    exact h
  owing := howing
  lost := hlost

end Keeps

theorem InertiaSlot.notify_setNotify {s : InertiaSlot} {n : Notify} {cell : Cell} :
    (s.setNotify n cell).notify cell = n := by
  cases cell <;> rfl

theorem InertiaSlot.notify_setNotify_of_ne {s : InertiaSlot} {n : Notify} {cell other : Cell}
    (h : other ≠ cell) : (s.setNotify n cell).notify other = s.notify other := by
  cases cell <;> cases other <;> first | rfl | exact absurd rfl h

/-- A party changes its own future of a cell only. -/
theorem keeps_setNotify {p t : Party} {s : InertiaSlot} {n : Notify} {cell : Cell} (ht : t ≠ p)
    (h : ∀ q, q ≠ p → n.futures q = (s.notify cell).futures q) :
    Keeps t s (s.setNotify n cell) := by
  refine .of_notify (fun other => ?_) (fun other => ?_) (fun other => ?_) ?_
  · by_cases heq : other = cell
    · subst heq
      rw [InertiaSlot.notify_setNotify]
      exact h t ht
    · rw [InertiaSlot.notify_setNotify_of_ne heq]
  · intro hfree
    refine .inl ⟨?_, ?_⟩
    · cases cell <;> exact hfree
    · cases cell <;> rfl
  · cases cell <;> exact Iff.rfl
  · cases cell <;> rfl

/-- The word is stored, and it is not IDLE. -/
theorem keeps_busy {t : Party} {s s' : InertiaSlot} (hbusy : s'.inertia ≠ INERTIA_IDLE)
    (hnotify : s'.notify = s.notify) (hcomplete : s'.disposeComplete = s.disposeComplete)
    (howing : s'.owing = s.owing) (hlost : s'.trace.lost t = s.trace.lost t) : Keeps t s s' := by
  refine .of_notify (fun cell => by rw [hnotify]) (fun cell hfree => ?_)
    (fun cell => by rw [howing]) hlost
  cases cell with
  | done => exact absurd (beq_iff_eq.mp hfree) hbusy
  | disposeDone => exact .inl ⟨hcomplete.symm.trans hfree, by rw [howing]⟩

/-- Nothing that a waiter looks at was written. -/
theorem keeps_same {t : Party} {s s' : InertiaSlot} (hinertia : s'.inertia = s.inertia)
    (hnotify : s'.notify = s.notify) (hcomplete : s'.disposeComplete = s.disposeComplete)
    (howing : s'.owing = s.owing) (hlost : s'.trace.lost t = s.trace.lost t) : Keeps t s s' := by
  refine .of_notify (fun cell => by rw [hnotify]) (fun cell hfree => .inl ⟨?_, by rw [howing]⟩)
    (fun cell => by rw [howing]) hlost
  cases cell with
  | done =>
      rw [InertiaSlot.free, hinertia] at hfree
      exact hfree
  | disposeDone => exact hcomplete.symm.trans hfree

/-- A store of IDLE owes its broadcast. -/
theorem keeps_release {p t : Party} {s : InertiaSlot} (ht : t ≠ p) : Keeps t s (s.release p) := by
  refine .of_notify (fun cell => by cases cell <;> rfl) (fun cell hfree => ?_) (fun cell => ?_) rfl
  · cases cell with
    | done => exact .inr nofun
    | disposeDone => exact .inl ⟨hfree, rfl⟩
  · cases cell with
    | done => simp [InertiaSlot.release, InertiaSlot.track, InertiaSlot.owing, ht]
    | disposeDone => exact Iff.rfl

/-- A broadcast wakes every future of its cell. -/
theorem keeps_broadcast {p t : Party} {s : InertiaSlot} {cell : Cell} (ht : t ≠ p) :
    Keeps t s (s.broadcast p cell) := by
  have hwoken : ∀ {awake}, (s.notify cell).futures t = some awake →
      ((s.broadcast p cell).notify cell).futures t = some true := by
    intro awake h
    have hmap : ∀ n : Notify, n.futures t = some awake →
        n.notifyWaiters.futures t = some true := by
      intro n hn
      simp [Notify.notifyWaiters, hn]
    cases cell with
    | done => exact hmap s.done h
    | disposeDone => exact hmap s.disposeDone h
  have hother : ∀ {other}, other ≠ cell →
      (s.broadcast p cell).notify other = s.notify other ∧
        (s.broadcast p cell).owing other = s.owing other := by
    intro other h
    cases cell <;> cases other <;> first | exact ⟨rfl, rfl⟩ | exact absurd rfl h
  have hfree : ∀ other, (s.broadcast p cell).free other = s.free other := by
    intro other
    cases cell <;> cases other <;> rfl
  refine ⟨fun other => ?_, fun other h => ?_, fun other => ?_, by cases cell <;> rfl⟩
  · rintro ⟨awake, hawake, hmiss⟩
    by_cases heq : other = cell
    · subst heq
      exact ⟨true, hwoken hawake, by simp⟩
    · refine ⟨awake, by rw [(hother heq).1, hawake], fun hfalse hfree' => ?_⟩
      rw [(hother heq).2]
      exact hmiss hfalse (by rw [← hfree, hfree'])
  · by_cases heq : other = cell
    · subst heq
      rcases Option.isSome_iff_exists.mp h with ⟨awake, hawake⟩
      rw [hwoken hawake]
      rfl
    · rw [(hother heq).1]
      exact h
  · cases cell <;> cases other <;>
      simp [InertiaSlot.broadcast, InertiaSlot.owing, InertiaSlot.trackCall, InertiaSlot.track, ht]

theorem keeps_completeDispose {p t : Party} {s : InertiaSlot} (ht : t ≠ p) :
    Keeps t s ({ s with disposeComplete := true }.track fun trace =>
      { trace with unpublished := p :: trace.unpublished }) := by
  refine .of_notify (fun cell => by cases cell <;> rfl) (fun cell hfree => ?_) (fun cell => ?_) rfl
  · cases cell with
    | done => exact .inl ⟨hfree, rfl⟩
    | disposeDone => exact .inr nofun
  · cases cell with
    | done => exact Iff.rfl
    | disposeDone => simp [InertiaSlot.track, InertiaSlot.owing, ht]

theorem keeps_setLost {p t : Party} {s : InertiaSlot} {lost : Bool} (ht : t ≠ p) :
    Keeps t s (s.setLost p lost) :=
  keeps_same rfl rfl rfl rfl (by simp [InertiaSlot.setLost, InertiaSlot.track, ht])

theorem exec_keeps {p q t : Party} {c : Choice} {op : Op} {s s' : InertiaSlot} {r : op.Ret}
    (hexec : exec p q c op s = some (s', r)) (ht : t ≠ p) : Keeps t s s' := by
  cases op with
  | notified cell =>
      cases hexec
      exact keeps_setNotify ht fun q hq => Notify.notified_of_ne hq
  | discard cell =>
      cases hexec
      exact keeps_setNotify ht fun q hq => Notify.discard_of_ne hq
  | awaitNotified cell =>
      simp only [exec, Option.ite_none_right_eq_some, Option.some.injEq] at hexec
      rcases hexec with ⟨-, hout⟩
      cases hout
      exact (keeps_setNotify ht fun q hq => Notify.discard_of_ne hq).trans (keeps_setLost ht)
  | notifyWaiters cell =>
      cases hexec
      exact keeps_broadcast ht
  | claim =>
      simp only [exec] at hexec
      split at hexec
      · cases hexec
        exact keeps_busy nofun rfl rfl rfl rfl
      · cases hexec
        exact keeps_setLost ht
  | compareExchange expected new =>
      have hout : s.compareExchange p expected new = (s', r) := Option.some.inj hexec
      obtain rfl : (s.compareExchange p expected new).1 = s' := congrArg Prod.fst hout
      -- the exchange may release the slot; otherwise it leaves it busy, or fails
      unfold InertiaSlot.compareExchange
      split
      · split
        · exact (keeps_release ht).trans (keeps_same rfl rfl rfl rfl rfl)
        · split
          · exact keeps_busy nofun rfl rfl rfl rfl
          · exact keeps_busy nofun rfl rfl rfl rfl
      · exact .refl t s
  | abandon =>
      cases hexec
      exact keeps_release ht
  | storeActive =>
      cases hexec
      exact keeps_busy nofun rfl rfl rfl rfl
  | storeReleasing revision =>
      cases hexec
      exact keeps_busy nofun rfl rfl rfl rfl
  | completeDispose =>
      cases hexec
      exact keeps_completeDispose ht
  | panic arm => cases hexec
  | load | probeIdle | commitRecheck | recheckRevision | loadSettled | storeSettled | computeTarget
  | readTarget | recordTarget | markPendingIfUntouched | pinInactive | disposeComplete | isAlive
  | applyFailed | tryCurrent | claimTerminal | refused | enterRecheck | verdict | fork =>
      cases hexec
      exact keeps_same rfl rfl rfl rfl rfl

/-! ## The logic -/

/-- The party owes no broadcast and did not lose a claim it has not waited for. -/
def Clear (p : Party) (s : InertiaSlot) : Prop :=
  (∀ cell, p ∉ s.owing cell) ∧ s.trace.lost p = false

/-- What holds when a party is about to perform an operation. -/
structure Due (p : Party) (op : Op) (s : InertiaSlot) : Prop where
  broadcast : ∀ cell, p ∈ s.owing cell → op = .notifyWaiters cell
  wait : s.trace.lost p = true → op = .awaitNotified .done
  parked : ∀ cell, op = .awaitNotified cell → Parked p cell s

theorem Clear.keeps {p : Party} {s s' : InertiaSlot} (h : Clear p s) (hk : Keeps p s s') :
    Clear p s' :=
  ⟨fun cell hmem => h.1 cell ((hk.owing cell).mp hmem), hk.lost.trans h.2⟩

theorem Clear.due {p : Party} {op : Op} {s : InertiaSlot} (h : Clear p s)
    (hop : ∀ cell, op ≠ .awaitNotified cell) : Due p op s where
  broadcast cell hmem := absurd hmem (h.1 cell)
  wait hlost := by
    rw [h.2] at hlost
    cases hlost
  parked cell heq := absurd heq (hop cell)

def stranding : Logic protocol Machine.anyRun where
  inv _ := True
  rely := Keeps
  blank := Clear
  pre _ := Clear
  post p _ := Clear p
  check := Due
  rely_refl := Keeps.refl
  rely_trans := Keeps.trans
  blank_rely h hk := h.keeps hk
  post_rely h hk := h.keeps hk

theorem wp_step {p : Party} {op : Op} {Q : op.Ret → InertiaSlot → Prop} {s : InertiaSlot}
    (hawaits : protocol.awaits op = false) (hforks : protocol.forks op = none)
    (hdue : ∀ s', Keeps p s s' → Due p op s')
    (h : ∀ s' q c s'' r, Keeps p s s' → exec p q c op s' = some (s'', r) → Q r s'') :
    stranding.wp p (perform op) Q s := by
  refine stranding.wp_perform fun s' hk _ => ⟨hdue s' hk, ?_, fun hwaits => ?_⟩
  · refine Logic.Performs.of_step hforks fun q c s'' r _ _ hexec => ?_
    have hexec : exec p q c op s' = some (s'', r) := hexec
    exact ⟨trivial, fun t ht => exec_keeps hexec ht, h s' q c s'' r hk hexec⟩
  · rw [hawaits] at hwaits
    cases hwaits

/-- Operations after which nothing is due. -/
def Op.plain : Op → Bool
  | awaitNotified _ | claim | abandon | completeDispose | fork _ => false
  | compareExchange _ new => new != INERTIA_IDLE
  | _ => true

theorem clear_exec {p q : Party} {c : Choice} {op : Op} {s s' : InertiaSlot} {r : op.Ret}
    (hplain : op.plain = true) (h : Clear p s) (hexec : exec p q c op s = some (s', r)) :
    Clear p s' := by
  have hsame : ∀ {s' : InertiaSlot}, s'.owing = s.owing → s'.trace.lost = s.trace.lost →
      Clear p s' := by
    intro s' howing hlost
    exact ⟨by rw [howing]; exact h.1, by rw [hlost]; exact h.2⟩
  cases op with
  | notified cell | discard cell =>
      cases hexec
      cases cell <;> exact h
  | notifyWaiters cell =>
      cases hexec
      have hdone : ∀ l : List Party, p ∉ l.filter fun t => t ≠ p := by
        intro l hmem
        exact absurd rfl (of_decide_eq_true (List.mem_filter.mp hmem).2)
      refine ⟨fun other hmem => ?_, by cases cell <;> exact h.2⟩
      cases cell with
      | done =>
          cases other with
          | done => exact hdone _ hmem
          | disposeDone => exact h.1 .disposeDone hmem
      | disposeDone =>
          cases other with
          | done => exact h.1 .done hmem
          | disposeDone => exact hdone _ hmem
  | compareExchange expected new =>
      have hout : s.compareExchange p expected new = (s', r) := Option.some.inj hexec
      obtain rfl : (s.compareExchange p expected new).1 = s' := congrArg Prod.fst hout
      have hnew : new ≠ INERTIA_IDLE := bne_iff_ne.mp hplain
      unfold InertiaSlot.compareExchange
      split
      · dsimp only
        split <;> exact hsame rfl rfl
      · exact h
  | panic arm => cases hexec
  | load | probeIdle | storeActive | storeReleasing | commitRecheck | recheckRevision | loadSettled
  | storeSettled | computeTarget | readTarget | recordTarget | markPendingIfUntouched | pinInactive
  | disposeComplete | isAlive | applyFailed | tryCurrent | claimTerminal | refused | enterRecheck
  | verdict =>
      cases hexec
      exact hsame rfl rfl
  | awaitNotified | claim | abandon | completeDispose | fork => cases hplain

theorem plain_op {p : Party} {op : Op} (hplain : op.plain = true) :
    stranding.Maintains (Clear p) p (perform op) := by
  intro s _ h
  refine wp_step ?_ ?_ (fun s' hk => (h.keeps hk).due ?_) fun s' q c s'' r hk hexec =>
    clear_exec hplain (h.keeps hk) hexec
  · cases op <;> first | rfl | cases hplain
  · cases op <;> first | rfl | cases hplain
  · rintro cell rfl
    cases hplain

/-! ## The waiters -/

/-- The party has a future of the cell. -/
def Ready (p : Party) (cell : Cell) (s : InertiaSlot) : Prop :=
  Clear p s ∧ ((s.notify cell).futures p).isSome

theorem wp_notified {p : Party} {cell : Cell} {s : InertiaSlot} (h : Clear p s) :
    stranding.wp p (perform (.notified cell)) (fun _ s' => Ready p cell s') s := by
  refine wp_step rfl rfl (fun s' hk => (h.keeps hk).due nofun) fun s' q c s'' r hk hexec => ?_
  have hclear := clear_exec rfl (h.keeps hk) hexec
  cases hexec
  refine ⟨hclear, ?_⟩
  rw [InertiaSlot.notify_setNotify, Notify.notified_self]
  rfl

/-- There was something to wait for after the future was created. -/
theorem parked_of_busy {p : Party} {cell : Cell} {s : InertiaSlot}
    (h : ((s.notify cell).futures p).isSome) (hbusy : s.free cell = false) : Parked p cell s := by
  rcases Option.isSome_iff_exists.mp h with ⟨awake, hawake⟩
  refine ⟨awake, hawake, fun _ hfree => ?_⟩
  rw [hbusy] at hfree
  cases hfree

/-- A parked party waits for its wake, or is dropped. -/
theorem wp_park {p : Party} {cell : Cell} {s : InertiaSlot} (howing : ∀ cell, p ∉ s.owing cell)
    (hlost : s.trace.lost p = true → cell = .done) (h : Parked p cell s) :
    stranding.wp p (perform (.awaitNotified cell)) (fun _ s' => Clear p s') s := by
  refine stranding.wp_perform fun s' hk _ => ⟨⟨fun other hmem => ?_, fun hl => ?_, ?_⟩, ?_, ?_⟩
  · exact absurd ((hk.owing other).mp hmem) (howing other)
  · rw [hlost (hk.lost ▸ hl)]
  · rintro other heq
    cases heq
    exact hk.parked cell h
  · refine Logic.Performs.of_step rfl fun q c s'' r _ _ hexec => ?_
    have hexec : exec p q c (.awaitNotified cell) s' = some (s'', r) := hexec
    refine ⟨trivial, fun t ht => exec_keeps hexec ht, ?_⟩
    simp only [exec, Option.ite_none_right_eq_some, Option.some.injEq] at hexec
    rcases hexec with ⟨-, hout⟩
    cases hout
    refine ⟨fun other hmem => ?_, by simp [InertiaSlot.setLost, InertiaSlot.track]⟩
    refine absurd ((hk.owing other).mp ?_) (howing other)
    cases cell <;> exact hmem
  · intro _ _ s'' next hdrop
    cases hdrop
    refine ⟨trivial, fun t ht => ?_, fun other hmem => ?_, ?_⟩
    · have hdone : Keeps t s' (s'.setNotify (s'.done.discard p) .done) :=
        keeps_setNotify ht fun q hq => Notify.discard_of_ne hq
      have hdispose : Keeps t (s'.setNotify (s'.done.discard p) .done)
          ((s'.setNotify (s'.done.discard p) .done).setNotify (s'.disposeDone.discard p)
            .disposeDone) :=
        keeps_setNotify ht fun q hq => Notify.discard_of_ne hq
      exact (hdone.trans hdispose).trans (keeps_setLost ht)
    · exact absurd ((hk.owing other).mp hmem) (howing other)
    · simp [InertiaSlot.forget, InertiaSlot.setLost, InertiaSlot.track]

theorem wp_discard {p : Party} {cell : Cell} {s : InertiaSlot} (h : Clear p s) :
    stranding.wp p (perform (.discard cell)) (fun _ s' => Clear p s') s :=
  plain_op rfl s trivial h

theorem clear_claim {p : Party} : stranding.Maintains (Clear p) p claim := by
  intro s hs h
  refine stranding.wp_iterate (fun _ s' => Clear p s') h fun _ s₁ hs₁ h₁ => ?_
  refine stranding.wp_seq hs₁ (wp_notified h₁) fun _ s₂ hs₂ h₂ => ?_
  have hclaim : stranding.wp p (perform .claim) (fun won s' => (won = true → Clear p s') ∧
      (won = false → (∀ cell, p ∉ s'.owing cell) ∧ Parked p .done s')) s₂ := by
    refine wp_step rfl rfl (fun s' hk => (h₂.1.keeps hk).due nofun) fun s' q c s'' r hk hexec => ?_
    have hclear := h₂.1.keeps hk
    have hfuture := hk.future .done h₂.2
    simp only [exec] at hexec
    split at hexec
    · cases hexec
      exact ⟨fun _ => ⟨fun cell hmem => hclear.1 cell (by cases cell <;> exact hmem), hclear.2⟩,
        nofun⟩
    · rename_i hbusy
      cases hexec
      refine ⟨nofun, fun _ => ⟨fun cell hmem => hclear.1 cell (by cases cell <;> exact hmem), ?_⟩⟩
      exact parked_of_busy (s := s'.setLost p true) hfuture (beq_eq_false_iff_ne.mpr hbusy)
  refine stranding.wp_seq hs₂ hclaim fun won s₃ hs₃ h₃ => ?_
  cases won with
  | true => exact stranding.wp_seq hs₃ (wp_discard (h₃.1 rfl)) fun _ _ _ h => h
  | false =>
      have hpark := h₃.2 rfl
      exact stranding.wp_seq hs₃ (wp_park hpark.1 (fun _ => rfl) hpark.2) fun _ _ _ h => h

theorem clear_waitIdle {p : Party} : stranding.Maintains (Clear p) p waitIdle := by
  intro s hs h
  refine stranding.wp_iterate (fun _ s' => Clear p s') h fun _ s₁ hs₁ h₁ => ?_
  refine stranding.wp_seq hs₁ (wp_notified h₁) fun _ s₂ hs₂ h₂ => ?_
  have hload : stranding.wp p (perform .load) (fun word s' => Clear p s' ∧
      (word ≠ INERTIA_IDLE → Parked p .done s')) s₂ := by
    refine wp_step rfl rfl (fun s' hk => (h₂.1.keeps hk).due nofun) fun s' q c s'' r hk hexec => ?_
    have hclear := h₂.1.keeps hk
    have hfuture := hk.future .done h₂.2
    cases hexec
    exact ⟨hclear, fun hbusy => parked_of_busy hfuture (beq_eq_false_iff_ne.mpr hbusy)⟩
  refine stranding.wp_seq hs₂ hload fun word s₃ hs₃ h₃ => ?_
  split
  · exact stranding.wp_seq hs₃ (wp_discard h₃.1) fun _ _ _ h => h
  · rename_i hbusy
    refine stranding.wp_seq hs₃ (wp_park h₃.1.1 (fun _ => rfl) (h₃.2 hbusy)) fun _ _ _ h => h

theorem clear_waitDisposeComplete {p : Party} :
    stranding.Maintains (Clear p) p waitDisposeComplete := by
  intro s hs h
  refine stranding.wp_iterate (fun _ s' => Clear p s') h fun _ s₁ hs₁ h₁ => ?_
  refine stranding.wp_seq hs₁ (wp_notified h₁) fun _ s₂ hs₂ h₂ => ?_
  have hload : stranding.wp p (perform .disposeComplete) (fun complete s' => Clear p s' ∧
      (complete = false → Parked p .disposeDone s')) s₂ := by
    refine wp_step rfl rfl (fun s' hk => (h₂.1.keeps hk).due nofun) fun s' q c s'' r hk hexec => ?_
    have hclear := h₂.1.keeps hk
    have hfuture := hk.future .disposeDone h₂.2
    cases hexec
    exact ⟨hclear, fun hbusy => parked_of_busy hfuture hbusy⟩
  refine stranding.wp_seq hs₂ hload fun complete s₃ hs₃ h₃ => ?_
  cases complete with
  | true => exact stranding.wp_seq hs₃ (wp_discard h₃.1) fun _ _ _ h => h
  | false =>
      refine stranding.wp_seq hs₃ (wp_park h₃.1.1 (fun hl => ?_) (h₃.2 rfl)) fun _ _ _ h => h
      rw [h₃.1.2] at hl
      cases hl

/-! ## Releases and their broadcasts -/

/-- The party owes the broadcast of this cell, and only that. -/
def Owes (p : Party) (cell : Cell) (s : InertiaSlot) : Prop :=
  (∀ other, other ≠ cell → p ∉ s.owing other) ∧ s.trace.lost p = false

theorem wp_owed {p : Party} {cell : Cell} {s : InertiaSlot} (h : Owes p cell s) :
    stranding.wp p (perform (.notifyWaiters cell)) (fun _ s' => Clear p s') s := by
  refine wp_step rfl rfl (fun s' hk => ⟨fun other hmem => ?_, fun hlost => ?_, nofun⟩) ?_
  · by_cases heq : other = cell
    · rw [heq]
    · exact absurd ((hk.owing other).mp hmem) (h.1 other heq)
  · rw [hk.lost, h.2] at hlost
    cases hlost
  · intro s' q c s'' r hk hexec
    cases hexec
    refine ⟨fun other hmem => ?_, ?_⟩
    · by_cases heq : other = cell
      · subst heq
        cases other <;> exact absurd rfl (of_decide_eq_true (List.mem_filter.mp hmem).2)
      · refine absurd ((hk.owing other).mp ?_) (h.1 other heq)
        cases cell <;> cases other <;> first | exact hmem | exact absurd rfl heq
    · have hlost := hk.lost.trans h.2
      cases cell <;> exact hlost

theorem owes_release {p : Party} {s : InertiaSlot} (h : Clear p s) : Owes p .done (s.release p) := by
  refine ⟨fun other hne => ?_, h.2⟩
  cases other with
  | done => exact absurd rfl hne
  | disposeDone => exact h.1 .disposeDone

theorem clear_abandon {p : Party} : stranding.Maintains (Clear p) p abandon := by
  intro s hs h
  have hstore : stranding.wp p (perform .abandon) (fun _ s' => Owes p .done s') s := by
    refine wp_step rfl rfl (fun s' hk => (h.keeps hk).due nofun) fun s' q c s'' r hk hexec => ?_
    have hclear := h.keeps hk
    cases hexec
    exact owes_release hclear
  exact stranding.wp_seq hs hstore fun _ _ _ h' => wp_owed h'

theorem clear_publishDisposeComplete {p : Party} :
    stranding.Maintains (Clear p) p publishDisposeComplete := by
  intro s hs h
  have hstore : stranding.wp p (perform .completeDispose)
      (fun _ s' => Owes p .disposeDone s') s := by
    refine wp_step rfl rfl (fun s' hk => (h.keeps hk).due nofun) fun s' q c s'' r hk hexec => ?_
    have hclear := h.keeps hk
    cases hexec
    refine ⟨fun other hne => ?_, hclear.2⟩
    cases other with
    | done => exact hclear.1 .done
    | disposeDone => exact absurd rfl hne
  exact stranding.wp_seq hs hstore fun _ _ _ h' => wp_owed h'

/-! ## Programs -/

/-- Waits and releases are verified as a whole, the other operations one by one. -/
abbrev Plain {α : Type} (x : Prog α) : Prop :=
  ∀ p, stranding.Maintains (Clear p) p x

theorem plain {op : Op} (h : op.plain = true) : Plain (perform op) :=
  fun _ => plain_op h

theorem Plain.bind {α β : Type} {x : Prog α} {f : α → Prog β} (hx : Plain x)
    (hf : ∀ a, Plain (f a)) : Plain (x >>= f) :=
  fun p => Logic.Maintains.bind (hx p) fun a => hf a p

theorem Plain.pure {α : Type} (a : α) : Plain (Pure.pure a : Prog α) :=
  fun _ => Logic.Maintains.pure a

theorem Plain.iterate {β γ : Type} {start : γ} {body : γ → Prog (γ ⊕ β)}
    (h : ∀ g, Plain (body g)) : Plain (Program.iterate start body) :=
  fun p => Logic.Maintains.iterate fun g => h g p

theorem plain_panic {α : Type} (arm : PanicArm) : Plain (panic arm : Prog α) :=
  .bind (plain rfl) nofun

/-- The final exchange, with the broadcast of its success. -/
theorem plain_exchange {α : Type} {ok : Prog α} {error : Nat → Prog α}
    (hok : Plain ok) (herror : ∀ word, Plain (error word)) :
    Plain (do
      match ← perform (.compareExchange INERTIA_RELEASING INERTIA_IDLE) with
      | .ok _ => do
          perform (.notifyWaiters .done)
          ok
      | .error word => error word) := by
  intro p s hs h
  have hexchange : stranding.wp p (perform (.compareExchange INERTIA_RELEASING INERTIA_IDLE))
      (fun r s' =>
        match r with
        | .ok _ => Owes p .done s'
        | .error _ => Clear p s') s := by
    refine wp_step rfl rfl (fun s' hk => (h.keeps hk).due nofun) fun s' q c s'' r hk hexec => ?_
    have hclear := h.keeps hk
    have hout : s'.compareExchange p INERTIA_RELEASING INERTIA_IDLE = (s'', r) :=
      Option.some.inj hexec
    unfold InertiaSlot.compareExchange at hout
    split at hout
    · cases hout
      exact owes_release hclear
    · cases hout
      exact hclear
  refine stranding.wp_seq hs hexchange fun r s₁ hs₁ h₁ => ?_
  cases r with
  | ok word =>
      exact stranding.wp_seq hs₁ (wp_owed h₁) fun _ s₂ hs₂ h₂ => hok p s₂ hs₂ h₂
  | error word => exact herror word p s₁ hs₁ h₁

end Slot
end CordisCore
