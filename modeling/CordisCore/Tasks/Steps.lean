import CordisCore.Tasks.Joining

/-!
# Steps — what each operation preserves, and what it leaves to the others
-/

namespace CordisCore
namespace Tasks

open Interleaving
open CordisCore.Runtime (FiberState Token)

variable {p q t : Party} {r : RunId} {s s' : Fiber} {u : Run}

/-! ## Inside one call -/

theorem ne_of_caller (h : (s.run r).caller = some p) : s.run r ≠ {} := by
  intro heq
  rw [heq] at h
  cases h

theorem ne_of_worker (h : (s.run r).worker = some p) : s.run r ≠ {} := by
  intro heq
  rw [heq] at h
  cases h

theorem ne_of_joiner (h : (s.run r).joiner = some p) : s.run r ≠ {} := by
  intro heq
  rw [heq] at h
  cases h

theorem Consistent.slot_of_absent (h : Consistent r u) (ha : u.task = .absent) :
    u.slot = .pending :=
  Decidable.by_contra fun hne => h.parked hne ha

theorem Consistent.unnotified (h : Consistent r u) (hp : u.slot = .pending) :
    u.notified = false :=
  Bool.eq_false_iff.mpr fun hn => h.notified hn hp

/-- An executed join obligation ends what can happen to the slot and the reports. -/
theorem Sound.finished (h : Sound s) {j : Token} (hj : (s.run r).token = some j)
    (ho : (s.occurrence j).outcome ≠ none) : Finished (s.run r) := by
  cases hout : (s.occurrence j).outcome with
  | none => exact absurd hout ho
  | some out => exact (h.executed r j out hj hout).2.1

theorem sound_spawn (h : Sound s) (hc : (s.run r).caller = some p) (ht : (s.run r).token ≠ none)
    (ha : (s.run r).task = .absent) : Sound (s.modify r fun u => u.spawn q) := by
  have hslot := (h.call r).slot_of_absent ha
  refine h.modify (ne_of_caller hc) { h.call r with
    spawned := fun _ => ht
    parked := fun _ => nofun
    unstarted := nofun } rfl (.inl rfl) (fun o ho => ?_) fun j hj ho => ?_
  · cases ha.symm.trans ho
  · have hdone := (h.finished hj ho).1
    cases hslot.symm.trans hdone

theorem keeps_spawn (h : Sound s) (hc : (s.run r).caller = some p)
    (ha : (s.run r).task = .absent) (ht : t ≠ p) (htq : t ≠ q) :
    Keeps t s (s.modify r fun u => u.spawn q) := by
  -- nobody worked for this call before
  have hw := (h.call r).unstarted ha
  refine keeps_modify { CallKeeps.refl t (s.run r) with
    calling := fun hct => ?calling
    ended := fun o ho => ?ended
    worker := ?worker
    working := fun hwt => ?working } rfl
  case calling => exact absurd (Option.some.inj (hct.symm.trans hc)) ht
  case ended =>
    cases ha.symm.trans ho
  case worker =>
    rw [hw]
    exact ⟨fun heq => absurd (Option.some.inj heq).symm htq, nofun⟩
  case working =>
    cases hw.symm.trans hwt

theorem sound_park (h : Sound s) (hc : (s.run r).caller = some p) (ha : (s.run r).task ≠ .absent)
    (hp : (s.run r).slot = .pending) : Sound (s.modify r fun u => u.park r) := by
  refine h.modify (ne_of_caller hc) { h.call r with
    parked := fun _ => ha
    notified := fun _ => nofun
    handle := fun join hj => (RunSlot.running.inj hj).symm
    unjoined := fun hj => ⟨nofun, ((h.call r).unjoined hj).2⟩ } rfl (.inl rfl)
    (fun o ho => ⟨o, ho⟩) fun j hj ho => ?_
  -- as long as nothing is parked the join is not executed
  cases hp.symm.trans (h.finished hj ho).1

theorem keeps_park (hc : (s.run r).caller = some p) (hp : (s.run r).slot = .pending) (ht : t ≠ p) :
    Keeps t s (s.modify r fun u => u.park r) := by
  refine keeps_modify { CallKeeps.refl t (s.run r) with
    calling := fun hct => ?_
    joining := fun _ => ⟨?_, rfl⟩
    parked := fun _ => nofun } rfl
  · exact absurd (Option.some.inj (hct.symm.trans hc)) ht
  · rw [hp]
    exact ⟨nofun, nofun⟩

theorem sound_notifyWaiters (h : Sound s) (hc : (s.run r).caller = some p)
    (hp : (s.run r).slot ≠ .pending) : Sound (s.modify r Run.notifyWaiters) :=
  h.modify (ne_of_caller hc) { h.call r with
    notified := fun _ => hp
    woken := fun _ _ => rfl
    calling := fun _ => nofun
    accepted := fun _ => rfl } rfl (.inl rfl) (fun o ho => ⟨o, ho⟩)
    fun _ hj ho => h.finished hj ho

theorem keeps_notifyWaiters (hc : (s.run r).caller = some p) (ht : t ≠ p) :
    Keeps t s (s.modify r Run.notifyWaiters) := by
  refine keeps_modify { CallKeeps.refl t (s.run r) with
    calling := fun hct => ?_
    future := fun hf => ?_
    wake := fun hf _ _ => ?_ } rfl
  · exact absurd (Option.some.inj (hct.symm.trans hc)) ht
  · exact fun hn => hf (Option.map_eq_none_iff.mp hn)
  · rcases Option.ne_none_iff_exists'.mp hf with ⟨b, hb⟩
    show ((s.run r).parked.futures t).map (fun _ => true) = some true
    rw [hb]
    rfl

theorem sound_answer {result : Except TaskRegistrationError Unit} (h : Sound s)
    (hc : (s.run r).caller = some p) (he : ∀ e, result = .error e → (s.run r).token = none)
    (ho : result = .ok () → (s.run r).notified = true) :
    Sound (s.modify r fun u => u.answer result) := by
  refine h.modify (ne_of_caller hc) { h.call r with
    calling := fun ht hn => ?_
    answered := fun _ => rfl
    refused := fun e hres => he e (Option.some.inj hres)
    accepted := fun hres => ho (Option.some.inj hres) } rfl (.inl rfl) (fun o ho => ⟨o, ho⟩)
    fun _ hj ho => h.finished hj ho
  cases result with
  | error e => exact absurd (he e rfl) ht
  | ok _ => cases (ho rfl).symm.trans hn

theorem keeps_answer {result : Except TaskRegistrationError Unit}
    (hc : (s.run r).caller = some p) (ht : t ≠ p) :
    Keeps t s (s.modify r fun u => u.answer result) := by
  refine keeps_modify { CallKeeps.refl t (s.run r) with
    caller := ⟨nofun, fun hct => ?_⟩
    calling := fun hct => ?_ } rfl
  · exact absurd (Option.some.inj (hct.symm.trans hc)) ht
  · exact absurd (Option.some.inj (hct.symm.trans hc)) ht

theorem sound_ended {o : Outcome} (h : Sound s) (hw : (s.run r).worker = some p)
    (hl : (s.run r).task = .live) : Sound (s.modify r fun u => { u with task := .ended o }) := by
  have hspawned : (s.run r).token ≠ none := (h.call r).spawned (by rw [hl]; nofun)
  refine h.modify (ne_of_worker hw) { h.call r with
    spawned := fun _ => hspawned
    parked := fun _ => nofun
    unstarted := nofun } rfl (.inl rfl) (fun _ _ => ⟨o, rfl⟩) fun j hj hout => ?_
  rcases (h.finished hj hout).2 with ⟨o', ho', -⟩
  cases hl.symm.trans ho'

theorem keeps_ended {o : Outcome} (hw : (s.run r).worker = some p) (hl : (s.run r).task = .live)
    (ht : t ≠ p) : Keeps t s (s.modify r fun u => { u with task := .ended o }) := by
  refine keeps_modify { CallKeeps.refl t (s.run r) with
    calling := fun _ => ⟨rfl, ?_, Iff.rfl, rfl⟩
    ended := fun o' ho' => ?_
    working := fun hwt => ?_ } rfl
  · rw [hl]
    exact ⟨nofun, nofun⟩
  · cases hl.symm.trans ho'
  · exact absurd (Option.some.inj (hwt.symm.trans hw)) ht

theorem sound_notified (h : Sound s) (hj : (s.run r).joiner = some p) :
    Sound (s.modify r fun u => { u with parked := u.parked.notified p }) := by
  refine h.modify (ne_of_joiner hj) { h.call r with woken := fun x hx => ?_ } rfl (.inl rfl)
    (fun o ho => ⟨o, ho⟩) fun _ hj ho => h.finished hj ho
  by_cases heq : x = p
  · subst heq
    have hx : ((s.run r).parked.notified x).futures x = some true := hx
    rw [Notify.notified_self] at hx
    cases hx
  · have hx : ((s.run r).parked.notified p).futures x = some true := hx
    rw [Notify.notified_of_ne heq] at hx
    exact (h.call r).woken x hx

/-- A party leaves the futures of the others alone. -/
theorem keeps_futures {m : Notify → Notify}
    (h : (m (s.run r).parked).futures t = (s.run r).parked.futures t) :
    Keeps t s (s.modify r fun u => { u with parked := m u.parked }) := by
  refine keeps_modify { CallKeeps.refl t (s.run r) with
    future := fun hf => ?_
    wake := fun _ hw hn => ?_ } rfl
  · show (m (s.run r).parked).futures t ≠ none
    rw [h]
    exact hf
  · show (m (s.run r).parked).futures t = some true
    rw [h]
    exact hw hn

theorem sound_takeSlot (h : Sound s) (hj : (s.run r).joiner = some p) :
    Sound (s.modify r fun u => u.takeSlot.1) := by
  have hjoined : (s.run r).joiner ≠ none := by
    rw [hj]
    nofun
  cases hslot : (s.run r).slot with
  | pending | done =>
      have hsame : (s.run r).takeSlot.1 = s.run r := by
        unfold Run.takeSlot
        rw [hslot]
      refine h.modify (ne_of_joiner hj) ?_ ?_ ?_ ?_ ?_ <;> rw [hsame]
      · exact h.call r
      · exact .inl rfl
      · exact fun o ho => ⟨o, ho⟩
      · exact fun _ hj ho => h.finished hj ho
  | running join =>
      have htaken : (s.run r).takeSlot.1 = { s.run r with slot := .done } := by
        unfold Run.takeSlot
        rw [hslot]
      have hlive := (h.call r).parked (by rw [hslot]; nofun)
      refine h.modify (ne_of_joiner hj) ?_ ?_ ?_ ?_ ?_ <;> rw [htaken]
      · exact { h.call r with
          parked := fun _ => hlive
          notified := fun _ => nofun
          handle := nofun
          unjoined := fun hnone => absurd hnone hjoined }
      · exact .inl rfl
      · exact fun o ho => ⟨o, ho⟩
      · intro j hj ho
        cases hslot.symm.trans (h.finished hj ho).1

theorem keeps_takeSlot (hj : (s.run r).joiner = some p) (ht : t ≠ p) :
    Keeps t s (s.modify r fun u => u.takeSlot.1) := by
  cases hslot : (s.run r).slot with
  | pending | done =>
      have hsame : (s.run r).takeSlot.1 = s.run r := by
        unfold Run.takeSlot
        rw [hslot]
      refine keeps_modify ?_ ?_ <;> rw [hsame]
      exact .refl t _
  | running join =>
      have htaken : (s.run r).takeSlot.1 = { s.run r with slot := .done } := by
        unfold Run.takeSlot
        rw [hslot]
      refine keeps_modify ?_ ?_ <;> rw [htaken]
      refine { CallKeeps.refl t (s.run r) with
        calling := fun _ => ⟨rfl, Iff.rfl, ?_, rfl⟩
        joining := fun hjt => ?_
        parked := fun _ => nofun }
      · rw [hslot]
        exact ⟨nofun, nofun⟩
      · exact absurd (Option.some.inj (hjt.symm.trans hj)) ht

theorem sound_awaitParked (h : Sound s) (hj : (s.run r).joiner = some p) :
    Sound (s.modify r fun u => { u with parked := u.parked.discard p }) := by
  refine h.modify (ne_of_joiner hj) { h.call r with woken := fun x hx => ?_ } rfl (.inl rfl)
    (fun o ho => ⟨o, ho⟩) fun _ hj ho => h.finished hj ho
  by_cases heq : x = p
  · subst heq
    have hx : ((s.run r).parked.discard x).futures x = some true := hx
    rw [Notify.discard_self] at hx
    cases hx
  · have hx : ((s.run r).parked.discard p).futures x = some true := hx
    rw [Notify.discard_of_ne heq] at hx
    exact (h.call r).woken x hx

theorem sound_reportPanic (h : Sound s) (hj : (s.run r).joiner = some p)
    (hun : ∀ j, (s.run r).token = some j → (s.occurrence j).outcome = none) :
    Sound (s.modify r fun u => { u with reports := u.reports + 1 }) := by
  have hjoined : (s.run r).joiner ≠ none := by
    rw [hj]
    nofun
  exact h.modify (ne_of_joiner hj)
    { h.call r with unjoined := fun hnone => absurd hnone hjoined } rfl (.inl rfl)
    (fun o ho => ⟨o, ho⟩) fun j hj ho => absurd (hun j hj) ho

theorem keeps_reportPanic (hj : (s.run r).joiner = some p) (ht : t ≠ p) :
    Keeps t s (s.modify r fun u => { u with reports := u.reports + 1 }) :=
  keeps_modify { CallKeeps.refl t (s.run r) with
    joining := fun hjt => absurd (Option.some.inj (hjt.symm.trans hj)) ht } rfl

/-! ## A call begins -/

theorem sound_call (h : Sound s) : Sound (s.call p) := by
  have hblank : s.run s.calls = {} := h.uncalled s.calls (Nat.le_refl _)
  have hold : ∀ x, ((s.call p).run x).token = (s.run x).token ∧
      ((s.call p).run x).task = (s.run x).task ∧ ((s.call p).run x).joiner = (s.run x).joiner ∧
      (Finished ((s.call p).run x) ↔ Finished (s.run x)) :=
    forall_modify (s := { s with calls := s.calls + 1 })
      (P := fun x u => u.token = (s.run x).token ∧ u.task = (s.run x).task ∧
        u.joiner = (s.run x).joiner ∧ (Finished u ↔ Finished (s.run x)))
      (fun _ => ⟨rfl, rfl, rfl, Iff.rfl⟩) ⟨rfl, rfl, rfl, Iff.rfl⟩
  refine {
    call := forall_modify (s := { s with calls := s.calls + 1 }) h.call ?call
    uncalled := fun x hx => ?uncalled
    uncommitted := h.uncommitted
    sorted := h.sorted
    registered := h.registered
    joins := fun t x => (h.joins t x).trans (by rw [(hold x).1])
    author := fun t x ha => ?author
    unclaimed := h.unclaimed
    claimed := h.claimed
    completed := h.completed
    joiner := fun x hx => ?joiner
    executed := fun x j out hj hout => ?executed
    controlled := h.controlled
    shut := fun x j hj hc hn => h.shut x j (by rw [← (hold x).1, hj]) hc fun o ho => ?shut
    drained := fun x j t hj => h.drained x j t (by rw [← (hold x).1, hj])
    free := h.free
    registrations := h.registrations }
  case call =>
    show Consistent s.calls { s.run s.calls with caller := some p }
    rw [hblank]
    exact ⟨nofun, nofun, nofun, nofun, fun _ => rfl, fun _ => ⟨nofun, rfl⟩, nofun,
      fun ht => absurd rfl ht, fun hres => absurd rfl hres, nofun, nofun⟩
  case uncalled =>
    have hlt : s.calls < x := hx
    exact (run_modify_of_ne (Nat.ne_of_gt hlt)).trans (h.uncalled x (Nat.le_of_lt hlt))
  case author =>
    rw [(hold x).1]
    exact h.author t x ha
  case joiner =>
    rw [(hold x).2.2.1] at hx
    rw [(hold x).1]
    exact h.joiner x hx
  case executed =>
    rw [(hold x).1] at hj
    rw [(hold x).2.2.1, (hold x).2.2.2]
    exact h.executed x j out hj hout
  case shut =>
    refine hn o ?_
    rw [(hold x).2.1]
    exact ho

theorem keeps_call (h : Sound s) (ht : t ≠ p) : Keeps t s (s.call p) := by
  have hblank : s.run s.calls = {} := h.uncalled s.calls (Nat.le_refl _)
  have hcall : CallKeeps t (s.run s.calls) { s.run s.calls with caller := some p } := by
    rw [hblank]
    exact { CallKeeps.refl t {} with
      caller := ⟨fun heq => absurd (Option.some.inj heq).symm ht, nofun⟩
      calling := nofun }
  exact { Keeps.refl t s with
    run := forall_modify (s := { s with calls := s.calls + 1 })
      (P := fun x u => CallKeeps t (s.run x) u) (fun _ => .refl t _) hcall
    held := fun _ => { Held.refl s with
      joiner := modify_same (s := { s with calls := s.calls + 1 }) Run.joiner rfl } }

/-! ## Registration -/

section Registration

variable {cleanup : Cleanup} {author : Option RunId} {x : Token}

@[simp] theorem occurrence_mark_self {change : Occurrence → Occurrence} :
    (s.mark x change).occurrence x = change (s.occurrence x) := by
  simp [Fiber.mark]

theorem occurrence_mark_of_ne {change : Occurrence → Occurrence} {y : Token} (h : y ≠ x) :
    (s.mark x change).occurrence y = s.occurrence y := by
  simp [Fiber.mark, h]

/-- A property of every occurrence, when one of them changes. -/
theorem forall_mark {P : Token → Occurrence → Prop} {change : Occurrence → Occurrence}
    (h : ∀ y, P y (s.occurrence y)) (hx : P x (change (s.occurrence x))) (y : Token) :
    P y ((s.mark x change).occurrence y) := by
  by_cases heq : y = x
  · subst heq
    rw [occurrence_mark_self]
    exact hx
  · rw [occurrence_mark_of_ne heq]
    exact h y

theorem Sound.sn_lt (h : Sound s) (hc : (s.occurrence x).cleanup ≠ none) : x ≤ s.sn := by
  by_contra hlt
  rw [h.uncommitted x (Nat.lt_of_not_le hlt)] at hc
  exact hc rfl

theorem Sound.committed (h : Sound s) (hc : (s.occurrence x).claimant ≠ none) : x ≤ s.sn := by
  by_contra hlt
  rw [h.uncommitted x (Nat.lt_of_not_le hlt)] at hc
  exact hc rfl

/-- What was in the journal or out of it stays where it is; a new occurrence is behind all. -/
theorem occurrence_commit (h : Sound s) (y : Token) :
    (y = s.sn + 1 ∧ (s.commit cleanup author).occurrence y =
        { cleanup := some cleanup, author := author }) ∨
      (y ≠ s.sn + 1 ∧ (s.commit cleanup author).occurrence y = s.occurrence y) := by
  by_cases heq : y = s.sn + 1
  · subst heq
    refine .inl ⟨rfl, occurrence_mark_self.trans ?_⟩
    show ({ s.occurrence (s.sn + 1) with cleanup := some cleanup, author := author } : Occurrence) = _
    rw [h.uncommitted (s.sn + 1) (Nat.lt_succ_self _)]
  · exact .inr ⟨heq, occurrence_mark_of_ne heq⟩

/-- What a push that is admitted does. -/
structure Pushed (cleanup : Cleanup) (author : Option RunId) (s s' : Fiber) : Prop where
  sn : s'.sn = s.sn + 1
  disposables : s'.disposables = s.disposables ++ [(s.sn + 1, cleanup)]
  fresh : s'.occurrence (s.sn + 1) = { cleanup := some cleanup, author := author }
  occurrence : ∀ y, y ≠ s.sn + 1 → s'.occurrence y = s.occurrence y
  join : ∀ r, cleanup = .join r → s'.run r = { s.run r with token := some (s.sn + 1) }
  run : ∀ r, cleanup ≠ .join r → s'.run r = s.run r
  registrations : ∀ e ∈ s'.registrations, e ∈ s.registrations ∨
    e.1 = s.sn + 1 ∧ cleanup = .registered e.2
  calls : s'.calls = s.calls
  state : s'.state = s.state
  slot : s'.slot = s.slot
  drainCleanup : s'.drainCleanup = s.drainCleanup
  hand : s'.hand = s.hand
  admits : s'.admits = s.admits

theorem pushed_push (cleanup : Cleanup) (author : Option RunId) {refuses : Bool} (h : Sound s)
    (ha : s.accepts cleanup refuses = true) :
    Pushed cleanup author s (s.push cleanup author refuses).1 ∧
      (s.push cleanup author refuses).2 = some (s.sn + 1) := by
  have hfresh : (s.commit cleanup author).occurrence (s.sn + 1) =
      { cleanup := some cleanup, author := author } := by
    rcases occurrence_commit h (s.sn + 1) with ⟨-, heq⟩ | ⟨hne, -⟩
    · exact heq
    · exact absurd rfl hne
  have hold : ∀ y, y ≠ s.sn + 1 → (s.commit cleanup author).occurrence y = s.occurrence y :=
    fun y hy => occurrence_mark_of_ne hy
  unfold Fiber.push
  rw [if_pos ha]
  cases cleanup with
  | join r =>
      refine ⟨⟨rfl, rfl, hfresh, hold, fun x hx => ?_, fun x hx => ?_, fun y hy => .inl hy, rfl, rfl,
        rfl, rfl, rfl, rfl⟩, rfl⟩
      · cases hx
        show ((s.commit (.join r) author).modify r fun u => { u with token := some (s.sn + 1) }).run r = _
        rw [run_modify_self]
        rfl
      · show ((s.commit (.join r) author).modify r fun u => { u with token := some (s.sn + 1) }).run x = _
        rw [run_modify_of_ne fun heq => hx (congrArg _ heq.symm)]
        rfl
  | registered control =>
      refine ⟨⟨rfl, rfl, hfresh, hold, nofun, fun _ _ => rfl, fun e he => ?_, rfl, rfl, rfl, rfl, rfl,
        rfl⟩, rfl⟩
      rcases List.mem_cons.mp he with rfl | he
      · exact .inr ⟨rfl, rfl⟩
      · exact .inl he

theorem push_refused {refuses : Bool} (ha : s.accepts cleanup refuses = false) :
    s.push cleanup author refuses = (s, none) := by
  unfold Fiber.push
  rw [ha]
  rfl

theorem admits_of_accepts {refuses : Bool} (ha : s.accepts cleanup refuses = true) :
    s.admits = true :=
  (Bool.and_eq_true_iff.mp ha).1

section Pushed

variable {j : Token} (hs : Sound s) (h : Pushed cleanup author s s')
include h

/-- Only what was committed before is claimed or executed. -/
theorem Pushed.old {y : Token} (hy : (s'.occurrence y).claimant ≠ none ∨
    (s'.occurrence y).outcome ≠ none) : y ≠ s.sn + 1 ∧ s'.occurrence y = s.occurrence y := by
  by_cases heq : y = s.sn + 1
  · subst heq
    rw [h.fresh] at hy
    rcases hy with hy | hy <;> exact absurd rfl hy
  · exact ⟨heq, h.occurrence y heq⟩

theorem Pushed.joiner (x : RunId) : (s'.run x).joiner = (s.run x).joiner := by
  by_cases heq : cleanup = .join x
  · rw [h.join x heq]
  · rw [h.run x heq]

theorem Pushed.token_iff {x : RunId} : (s'.run x).token = some j ↔
    j = s.sn + 1 ∧ cleanup = .join x ∨ (s.run x).token = some j ∧ cleanup ≠ .join x := by
  by_cases heq : cleanup = .join x
  · rw [h.join x heq]
    refine ⟨fun hj => .inl ⟨(Option.some.inj hj).symm, heq⟩, fun hj => ?_⟩
    rcases hj with ⟨rfl, -⟩ | ⟨-, hne⟩
    · rfl
    · exact absurd heq hne
  · rw [h.run x heq]
    refine ⟨fun hj => .inr ⟨hj, heq⟩, fun hj => ?_⟩
    rcases hj with ⟨-, heq'⟩ | ⟨hj, -⟩
    · exact absurd heq' heq
    · exact hj

/-- A call whose obligation is claimed or executed was pushed before. -/
theorem Pushed.token_old {x : RunId} (hj : (s'.run x).token = some j)
    (hy : (s'.occurrence j).claimant ≠ none ∨ (s'.occurrence j).outcome ≠ none) :
    (s.run x).token = some j ∧ s'.run x = s.run x ∧ s'.occurrence j = s.occurrence j := by
  have hold := h.old hy
  rcases h.token_iff.mp hj with ⟨heq, -⟩ | ⟨htoken, hne⟩
  · exact absurd heq hold.1
  · exact ⟨htoken, h.run x hne, hold.2⟩

include hs

theorem sound_pushed (hauthor : Author p author s)
    (hjoin : ∀ r, cleanup = .join r → (s.run r).caller = some p ∧ (s.run r).token = none)
    (hadmits : s.admits = true) : Sound s' := by
  have hblank : s.occurrence (s.sn + 1) = {} := hs.uncommitted _ (Nat.lt_succ_self _)
  have hkept : ∀ {x j}, (s.run x).token = some j → (s'.run x).token = some j ∧ j ≤ s.sn := by
    intro x j hj
    refine ⟨h.token_iff.mpr (.inr ⟨hj, fun heq => ?_⟩), hs.sn_lt ?_⟩
    · cases (hjoin x heq).2.symm.trans hj
    · rw [(hs.joins j x).mpr hj]
      nofun
  refine {
    call := fun x => ?call
    uncalled := fun x hx => ?uncalled
    uncommitted := fun y hy => ?uncommitted
    sorted := ?sorted
    registered := fun y c => ?registered
    joins := fun y x => ?joins
    author := fun y x hy => ?author
    unclaimed := fun y hy => ?unclaimed
    claimed := fun y => ?claimed
    completed := fun y hy => ?completed
    joiner := fun x hx => ?joiner
    executed := fun x j out hj hout => ?executed
    controlled := fun y c hc => ?controlled
    shut := fun x j hj hc hn => ?shut
    drained := fun x j y hj hc hy => ?drained
    free := fun hfree => ?free
    registrations := fun y hy => ?registrations }
  case call =>
    by_cases heq : cleanup = .join x
    · have hcaller := (hjoin x heq).1
      rw [h.join x heq]
      refine { hs.call x with spawned := fun _ => nofun, calling := fun _ _ => ?_, refused := fun e he => ?_ }
      · show (s.run x).caller ≠ none
        rw [hcaller]
        nofun
      · have hnone := (hs.call x).answered (by rw [show (s.run x).result = _ from he]; nofun)
        cases hcaller.symm.trans hnone
    · rw [h.run x heq]
      exact hs.call x
  case uncalled =>
    rw [h.calls] at hx
    rw [h.run x fun heq => ?_]
    · exact hs.uncalled x hx
    · exact ne_of_caller (hjoin x heq).1 (hs.uncalled x hx)
  case uncommitted =>
    rw [h.sn] at hy
    rw [h.occurrence y (Nat.ne_of_gt hy)]
    exact hs.uncommitted y (Nat.lt_of_succ_lt hy)
  case sorted =>
    rw [Fiber.tokens, h.disposables, List.map_append, List.pairwise_append]
    refine ⟨hs.sorted, List.pairwise_singleton _ _, fun a ha b hb => ?_⟩
    cases List.mem_singleton.mp hb
    rcases List.mem_map.mp ha with ⟨⟨a', c⟩, hmem, rfl⟩
    refine Nat.lt_succ_of_le (hs.sn_lt ?_)
    rw [((hs.registered a' c).mp hmem).1]
    nofun
  case registered =>
    rw [h.disposables, List.mem_append, List.mem_singleton]
    by_cases heq : y = s.sn + 1
    · subst heq
      rw [h.fresh, hs.registered, hblank]
      refine ⟨fun hmem => ?_, fun hmem => .inr ?_⟩
      · rcases hmem with ⟨hnone, -⟩ | hmem
        · cases hnone
        · cases hmem
          exact ⟨rfl, rfl⟩
      · cases hmem.1
        rfl
    · rw [h.occurrence y heq, hs.registered]
      refine ⟨fun hmem => hmem.resolve_right fun hpair => heq (Prod.mk.inj hpair).1, .inl⟩
  case joins =>
    rw [h.token_iff]
    by_cases heq : y = s.sn + 1
    · subst heq
      rw [h.fresh]
      refine ⟨fun hc => .inl ⟨rfl, Option.some.inj hc⟩, fun hj => ?_⟩
      rcases hj with ⟨-, hc⟩ | ⟨hj, -⟩
      · exact congrArg some hc
      · exact absurd (hkept hj).2 (Nat.not_succ_le_self _)
    · rw [h.occurrence y heq, hs.joins]
      refine ⟨fun hj => .inr ⟨hj, fun hc => ?_⟩, fun hj => ?_⟩
      · cases (hjoin x hc).2.symm.trans hj
      · rcases hj with ⟨hy, -⟩ | ⟨hj, -⟩
        · exact absurd hy heq
        · exact hj
  case author =>
    by_cases heq : y = s.sn + 1
    · subst heq
      rw [h.fresh] at hy
      -- the author is a live task, so its join obligation is there and older
      have hlive := (hauthor x hy).2
      rcases Option.ne_none_iff_exists'.mp ((hs.call x).spawned (by rw [hlive]; nofun)) with ⟨j, hj⟩
      rw [h.fresh]
      exact ⟨nofun, j, (hkept hj).1, Nat.lt_succ_of_le (hkept hj).2⟩
    · rw [h.occurrence y heq] at hy ⊢
      rcases hs.author y x hy with ⟨hc, j, hj, hlt⟩
      exact ⟨hc, j, (hkept hj).1, hlt⟩
  case unclaimed =>
    by_cases heq : y = s.sn + 1
    · subst heq
      rw [h.fresh]
    · rw [h.occurrence y heq] at hy ⊢
      exact hs.unclaimed y hy
  case claimed =>
    rw [h.drainCleanup, h.hand]
    by_cases heq : y = s.sn + 1
    · subst heq
      rw [h.fresh]
      exact .inl nofun
    · rw [h.occurrence y heq]
      exact hs.claimed y
  case completed =>
    by_cases heq : y = s.sn + 1
    · subst heq
      rw [h.fresh] at hy
      cases hy
    · rw [h.occurrence y heq] at hy ⊢
      exact hs.completed y hy
  case joiner =>
    rw [h.joiner x] at hx
    rcases hs.joiner x hx with ⟨j, hj, hc⟩
    have hle := (hkept hj).2
    refine ⟨j, (hkept hj).1, ?_⟩
    rw [h.occurrence j (Nat.ne_of_lt (Nat.lt_succ_of_le hle))]
    exact hc
  case executed =>
    rcases h.token_old hj (.inr (by rw [hout]; nofun)) with ⟨htoken, hrun, hocc⟩
    rw [hrun]
    exact hs.executed x j out htoken (hocc ▸ hout)
  case controlled =>
    have hold := (h.old (y := y) (.inl (by rw [hc]; nofun))).2
    rw [hold] at hc ⊢
    exact hs.controlled y c hc
  case shut =>
    rcases h.token_old hj (.inl hc) with ⟨htoken, hrun, hocc⟩
    rw [hocc] at hc
    rw [hrun] at hn
    rw [h.admits]
    exact hs.shut x j htoken hc hn
  case drained =>
    rcases h.token_old hj (.inl hc) with ⟨htoken, -, hocc⟩
    rw [hocc] at hc
    by_cases heq : y = s.sn + 1
    · -- a task whose join obligation is claimed is refused
      subst heq
      rw [h.fresh] at hy
      have hlive := (hauthor x hy).2
      have hshut := hs.shut x j htoken hc (by rw [hlive]; exact fun o => nofun)
      cases hadmits.symm.trans hshut
    · rw [h.occurrence y heq] at hy ⊢
      exact hs.drained x j y htoken hc hy
  case free =>
    rw [h.slot] at hfree
    rw [h.hand]
    refine ⟨(hs.free hfree).1, fun y hc => ?_⟩
    have hold := (h.old (.inl (by rw [hc]; nofun))).2
    rw [hold] at hc ⊢
    exact (hs.free hfree).2 y hc
  case registrations =>
    rcases h.registrations y hy with hy | ⟨heq, hcleanup⟩
    · have hc := hs.registrations y hy
      have hle := hs.sn_lt (x := y.1) (by rw [hc]; nofun)
      rw [h.occurrence y.1 (Nat.ne_of_lt (Nat.lt_succ_of_le hle))]
      exact hc
    · rw [heq, h.fresh]
      exact congrArg some hcleanup

theorem keeps_pushed (hjoin : ∀ r, cleanup = .join r → (s.run r).caller = some p ∧
    (s.run r).token = none) (hadmits : s.admits = true) (ht : t ≠ p) : Keeps t s s' where
  run x := by
    by_cases heq : cleanup = .join x
    · have hcall := hjoin x heq
      rw [h.join x heq]
      refine { CallKeeps.refl t (s.run x) with token := fun j hj => ?_, calling := fun hct => ?_ }
      · cases hcall.2.symm.trans hj
      · exact absurd (Option.some.inj (hct.symm.trans hcall.1)) ht
    · rw [h.run x heq]
      exact .refl t _
  cleanup y c hc := by
    have hle := hs.sn_lt (x := y) (by rw [hc]; nofun)
    rw [h.occurrence y (Nat.ne_of_lt (Nat.lt_succ_of_le hle))]
    exact hc
  claimant y c hc := by
    have hle := hs.committed (x := y) (by rw [hc]; nofun)
    rw [h.occurrence y (Nat.ne_of_lt (Nat.lt_succ_of_le hle))]
    exact hc
  outcome y ho := by
    have hle := hs.committed (x := y) fun hnone => ho (hs.unclaimed y hnone)
    rw [h.occurrence y (Nat.ne_of_lt (Nat.lt_succ_of_le hle))]
    exact ho
  unsent x j _ hj := by
    have hle := hs.sn_lt (x := j) (by rw [(hs.joins j x).mpr hj]; nofun)
    rw [h.occurrence j (Nat.ne_of_lt (Nat.lt_succ_of_le hle))]
  slot := by rw [h.slot]
  held _ := {
    state := h.state
    drainCleanup := h.drainCleanup
    hand := h.hand
    claims := fun y => by
      by_cases heq : y = s.sn + 1
      · subst heq
        rw [h.fresh, hs.uncommitted _ (Nat.lt_succ_self _)]
      · rw [h.occurrence y heq]
    joiner := h.joiner
    gate := fun hg => absurd (hadmits.symm.trans hg) nofun
    closed := fun hg => absurd (hadmits.symm.trans hg) nofun }

end Pushed

end Registration

end Tasks
end CordisCore
