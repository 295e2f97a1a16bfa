import CordisCore.Interleaving.Logic
import CordisCore.Timer.Shapes

/-!
# Arbitration — who claims the cleanup decides what the operation returns
-/

namespace CordisCore
namespace Timer

open Interleaving

/-! ## Invariants of one operation -/

/-- What a poll returns while the operation goes on. -/
def Ongoing (kind : Kind) (o : Outcome) : Prop :=
  o = .pending ∨ kind = .interval ∧ o = .tick

/-- The first terminal result, against where the cleanup is. -/
def Verdict (t : Shape) (o : Outcome) : Prop :=
  t.kind ≠ .interval ∧ o.natural = true ∧ t.cleanup = .disarmed ∧
      (o = .completed → t.trace.repolled = some false) ∨
    o = .cancelled ∧ t.cleanup ≠ .disarmed

/-- No terminal result was returned. -/
def Undecided (t : Shape) : Prop :=
  ∀ r ∈ t.trace.results, Ongoing t.kind r.2

/-- One terminal result was returned; an Interval has answered `None` since. -/
def Decided (t : Shape) : Prop :=
  ∃ later r earlier, t.trace.results = later ++ r :: earlier ∧
    (∀ x ∈ later, t.kind = .interval ∧ x.2 = .finished) ∧ Verdict t r.2 ∧
    ∀ x ∈ earlier, Ongoing t.kind x.2

structure Sound (t : Shape) : Prop where
  signal : t.cancelled = true → t.cleanup = .claimed
  waking : ∀ d, t.trace.waking = some d → t.trace.claimant = some d ∧ t.cancelled = true
  claimant : t.trace.claimant ≠ none → t.cleanup = .claimed
  recorded : Undecided t ∨ t.entry = false ∧ Decided t

/-- The waker will be woken by a cancel that is still to come or under way, or was woken. -/
def Parked (waker : Waker) (t : Shape) : Prop :=
  t.waker = some waker ∧ (t.cancelled = true → t.trace.waking ≠ none) ∨ waker ∈ t.trace.woken

/-! ## What the others leave a party -/

/-- What the drains do to an operation. -/
structure Moves (t t' : Shape) : Prop where
  kind : t'.kind = t.kind
  entry : t'.entry = t.entry
  live : t'.live = t.live
  terminated : t'.terminated = t.terminated
  results : t'.trace.results = t.trace.results
  workReady : t'.trace.workReady = t.trace.workReady
  repolled : t'.trace.repolled = t.trace.repolled
  disarmed : t'.cleanup = .disarmed ↔ t.cleanup = .disarmed
  absent : t.cleanup = .absent → t'.cleanup = .absent
  cancelled : t.cancelled = true → t'.cancelled = true
  parked : ∀ waker, Parked waker t → Parked waker t'

/-- What is left to a drain that claimed the cleanup of an operation. -/
structure Spares (d : Party) (t t' : Shape) : Prop where
  claimant : t'.trace.claimant = some d ↔ t.trace.claimant = some d
  cancelled : t.trace.claimant = some d → t'.cancelled = t.cancelled
  waking : t'.trace.waking = some d ↔ t.trace.waking = some d

structure Keeps (p : Party) (s s' : Timers) : Prop where
  own : Moves (s.shape p) (s'.shape p)
  others : ∀ q, Spares p (s.shape q) (s'.shape q)

theorem Moves.refl (t : Shape) : Moves t t :=
  ⟨rfl, rfl, rfl, rfl, rfl, rfl, rfl, Iff.rfl, id, id, fun _ h => h⟩

theorem Moves.trans {t t' t'' : Shape} (h : Moves t t') (h' : Moves t' t'') : Moves t t'' where
  kind := h'.kind.trans h.kind
  entry := h'.entry.trans h.entry
  live := h'.live.trans h.live
  terminated := h'.terminated.trans h.terminated
  results := h'.results.trans h.results
  workReady := h'.workReady.trans h.workReady
  repolled := h'.repolled.trans h.repolled
  disarmed := h'.disarmed.trans h.disarmed
  absent ha := h'.absent (h.absent ha)
  cancelled hc := h'.cancelled (h.cancelled hc)
  parked waker hp := h'.parked waker (h.parked waker hp)

theorem Spares.refl (d : Party) (t : Shape) : Spares d t t :=
  ⟨Iff.rfl, fun _ => rfl, Iff.rfl⟩

theorem Spares.trans {d : Party} {t t' t'' : Shape} (h : Spares d t t') (h' : Spares d t' t'') :
    Spares d t t'' where
  claimant := h'.claimant.trans h.claimant
  cancelled hc := (h'.cancelled (h.claimant.mpr hc)).trans (h.cancelled hc)
  waking := h'.waking.trans h.waking

theorem Keeps.refl (p : Party) (s : Timers) : Keeps p s s :=
  ⟨.refl _, fun _ => .refl p _⟩

theorem Keeps.trans {p : Party} {s s' s'' : Timers} (h : Keeps p s s') (h' : Keeps p s' s'') :
    Keeps p s s'' :=
  ⟨h.own.trans h'.own, fun q => (h.others q).trans (h'.others q)⟩

/-! ## What a party is entitled to -/

/-- What must hold when a party performs an operation on its own shape. -/
def Entitled (p : Party) (s : Timers) : Op → Prop
  | .next => ∀ waker rest, (s.shape p).trace.results = (waker, .pending) :: rest →
      Parked waker (s.shape p)
  | .returned _ o => Undecided (s.shape p) ∧ (Ongoing (s.shape p).kind o ∨
        (s.shape p).entry = false ∧ Verdict (s.shape p) o) ∨
      (s.shape p).kind = .interval ∧ o = .finished ∧ (s.shape p).entry = false ∧
        Decided (s.shape p)
  | .disarm | .pollDeadline => Undecided (s.shape p)
  | .swapCancelled timer => (s.shape timer).trace.claimant = some p ∧
      (s.shape timer).cancelled = false
  | .wake timer => (s.shape timer).trace.waking = some p
  | .panic arm => arm = .polledAfterCompletion ∧ (s.shape p).terminated = true
  | _ => True

/-- Whoever stored the flag wakes next. -/
structure Due (p : Party) (op : Op) (s : Timers) : Prop where
  entitled : Entitled p s op
  wakes : ∀ timer, (s.shape timer).trace.waking = some p → op = .wake timer

/-! ## The operations on one shape -/

section Shapes

variable {p d : Party} {t t' : Shape}

/-- Neither the verdict nor the signal is touched. -/
theorem Sound.of_same (h : Sound t) (hcleanup : t'.cleanup = t.cleanup)
    (hcancelled : t'.cancelled = t.cancelled) (hwaking : t'.trace.waking = t.trace.waking)
    (hclaimant : t'.trace.claimant = t.trace.claimant)
    (hrecorded : Undecided t' ∨ t'.entry = false ∧ Decided t') : Sound t' where
  signal := by
    rw [hcleanup, hcancelled]
    exact h.signal
  waking := by
    rw [hwaking, hclaimant, hcancelled]
    exact h.waking
  claimant := by
    rw [hclaimant, hcleanup]
    exact h.claimant
  recorded := hrecorded

theorem Decided.of_same (h : Decided t) (hkind : t'.kind = t.kind)
    (hresults : t'.trace.results = t.trace.results)
    (hrepolled : t'.trace.repolled = t.trace.repolled)
    (hdisarmed : t'.cleanup = .disarmed ↔ t.cleanup = .disarmed) : Decided t' := by
  rcases h with ⟨later, r, earlier, heq, hlater, hverdict, hearlier⟩
  refine ⟨later, r, earlier, hresults.trans heq, by rw [hkind]; exact hlater, ?_,
    by rw [hkind]; exact hearlier⟩
  simp only [Verdict, ne_eq, hkind, hrepolled, hdisarmed]
  exact hverdict

theorem Undecided.of_same (h : Undecided t) (hkind : t'.kind = t.kind)
    (hresults : t'.trace.results = t.trace.results) : Undecided t' := by
  unfold Undecided
  rw [hkind, hresults]
  exact h

theorem Moves.recorded (hm : Moves t t')
    (h : Undecided t ∨ t.entry = false ∧ Decided t) : Undecided t' ∨ t'.entry = false ∧ Decided t' :=
  h.imp (fun hu => hu.of_same hm.kind hm.results) fun hd =>
    ⟨hm.entry.trans hd.1, hd.2.of_same hm.kind hm.results hm.repolled hm.disarmed⟩

theorem moves_claim : Moves t (t.claim d).1 := by
  unfold Shape.claim
  split
  · rename_i hregistered
    have habsent : t.cleanup ≠ .absent := by
      rw [hregistered]
      nofun
    refine { Moves.refl t with disarmed := ?_, absent := fun ha => absurd ha habsent }
    rw [hregistered]
    exact ⟨nofun, nofun⟩
  · exact .refl t

theorem sound_claim (h : Sound t) : Sound (t.claim d).1 := by
  have hrecorded := (moves_claim (d := d)).recorded h.recorded
  unfold Shape.claim at hrecorded ⊢
  split
  · rename_i hregistered
    rw [if_pos hregistered] at hrecorded
    have hcancelled : t.cancelled ≠ true := fun hc => by
      rw [h.signal hc] at hregistered
      cases hregistered
    exact ⟨fun hc => absurd hc hcancelled, fun w hw => absurd (h.waking w hw).2 hcancelled,
      fun _ => rfl, hrecorded⟩
  · exact h

theorem spares_claim (hp : p ≠ d) (h : Sound t) : Spares p t (t.claim d).1 := by
  unfold Shape.claim
  split
  · rename_i hregistered
    have hnone : t.trace.claimant = none := by
      by_contra hne
      rw [h.claimant hne] at hregistered
      cases hregistered
    refine { Spares.refl p t with claimant := ?_, cancelled := fun _ => rfl }
    rw [hnone]
    exact ⟨fun heq => absurd (Option.some.inj heq).symm hp, nofun⟩
  · exact .refl p t

theorem moves_swapCancelled : Moves t (t.swapCancelled d).1 := by
  unfold Shape.swapCancelled
  split
  · exact .refl t
  · refine { Moves.refl t with cancelled := fun _ => rfl, parked := fun waker hparked => ?_ }
    exact hparked.imp_left fun hwaker => ⟨hwaker.1, fun _ => nofun⟩

theorem sound_swapCancelled (h : Sound t) (hclaimant : t.trace.claimant = some d) :
    Sound (t.swapCancelled d).1 := by
  have hrecorded := (moves_swapCancelled (d := d)).recorded h.recorded
  have hclaimed : t.cleanup = .claimed := h.claimant (by rw [hclaimant]; nofun)
  unfold Shape.swapCancelled at hrecorded ⊢
  split
  · exact h
  · rename_i hnot
    rw [if_neg hnot] at hrecorded
    exact ⟨fun _ => hclaimed, fun w hw => ⟨hclaimant.trans hw, rfl⟩, fun _ => hclaimed, hrecorded⟩

theorem spares_swapCancelled (hp : p ≠ d) (h : Sound t) (hclaimant : t.trace.claimant = some d) :
    Spares p t (t.swapCancelled d).1 := by
  have hne : t.trace.claimant ≠ some p := by
    rw [hclaimant]
    exact fun heq => hp (Option.some.inj heq).symm
  unfold Shape.swapCancelled
  split
  · exact .refl p t
  · refine { Spares.refl p t with cancelled := fun hp => absurd hp hne, waking := ?_ }
    exact ⟨fun heq => absurd (Option.some.inj heq).symm hp, fun heq => absurd (h.waking p heq).1 hne⟩

theorem moves_wake : Moves t t.wake := by
  refine { Moves.refl t with parked := fun waker hparked => .inr ?_ }
  rcases hparked with ⟨hwaker, -⟩ | hmem
  · refine List.mem_append_left _ ?_
    rw [hwaker]
    exact List.mem_singleton_self waker
  · exact List.mem_append_right _ hmem

theorem sound_wake (h : Sound t) : Sound t.wake :=
  ⟨h.signal, nofun, h.claimant, moves_wake.recorded h.recorded⟩

theorem spares_wake (hp : p ≠ d) (hwaking : t.trace.waking = some d) : Spares p t t.wake := by
  refine { Spares.refl p t with waking := ⟨nofun, fun heq => ?_⟩ }
  rw [hwaking] at heq
  exact absurd (Option.some.inj heq).symm hp

theorem sound_disarm {alive : Bool} (h : Sound t) (hundecided : Undecided t) :
    Sound (t.disarm alive).1 := by
  unfold Shape.disarm
  split
  · rename_i hregistered
    refine ⟨fun hc => ?_, h.waking, fun hc => ?_, .inl hundecided⟩
    · have hclaimed := h.signal hc
      rw [hregistered.2] at hclaimed
      cases hclaimed
    · have hclaimed := h.claimant hc
      rw [hregistered.2] at hclaimed
      cases hclaimed
  · exact h

theorem sound_returned {waker : Waker} {o : Outcome} (h : Sound t)
    (hentitled : Undecided t ∧ (Ongoing t.kind o ∨ t.entry = false ∧ Verdict t o) ∨
      t.kind = .interval ∧ o = .finished ∧ t.entry = false ∧ Decided t) :
    Sound (t.returned waker o) := by
  refine h.of_same rfl rfl rfl rfl ?_
  rcases hentitled with ⟨hundecided, hongoing | ⟨hentry, hverdict⟩⟩ | ⟨hkind, rfl, hentry, hdecided⟩
  · exact .inl (List.forall_mem_cons.mpr ⟨hongoing, hundecided⟩)
  · exact .inr ⟨hentry, [], (waker, o), t.trace.results, rfl, nofun, hverdict, hundecided⟩
  · refine .inr ⟨hentry, ?_⟩
    rcases hdecided with ⟨later, r, earlier, heq, hlater, hverdict, hearlier⟩
    exact ⟨(waker, .finished) :: later, r, earlier, congrArg (List.cons _) heq,
      List.forall_mem_cons.mpr ⟨⟨hkind, rfl⟩, hlater⟩, hverdict, hearlier⟩

end Shapes

/-! ## What every operation preserves -/

section Preserved

variable {p q u : Party} {c : Choice} {s s' : Timers}

@[simp] theorem shape_modify_self {change : Shape → Shape} :
    (s.modify p change).shape p = change (s.shape p) := by
  simp [Timers.modify]

theorem shape_modify_of_ne {change : Shape → Shape} (h : q ≠ p) :
    (s.modify p change).shape q = s.shape q := by
  simp [Timers.modify, h]

/-- A property of every shape, when one of them changes. -/
theorem forall_modify {P : Party → Shape → Prop} {change : Shape → Shape}
    (h : ∀ q, P q (s.shape q)) (hp : P p (change (s.shape p))) (q : Party) :
    P q ((s.modify p change).shape q) := by
  by_cases heq : q = p
  · subst heq
    rw [shape_modify_self]
    exact hp
  · rw [shape_modify_of_ne heq]
    exact h q

theorem sound_exec {op : Op} {r : op.Ret} (hs : ∀ q, Sound (s.shape q)) (hdue : Due p op s)
    (hexec : exec p u c op s = some (s', r)) : ∀ q, Sound (s'.shape q) := by
  have hrecorded := (hs p).recorded
  cases op with
  | returned waker o =>
      cases hexec
      exact forall_modify (P := fun _ => Sound) hs (sound_returned (hs p) hdue.entitled)
  | register waker =>
      cases hexec
      exact forall_modify (P := fun _ => Sound) hs
        ((hs p).of_same rfl rfl rfl rfl hrecorded)
  | swapCancelled timer =>
      cases hexec
      exact forall_modify (P := fun _ => Sound) hs (sound_swapCancelled (hs timer) hdue.entitled.1)
  | wake timer =>
      cases hexec
      exact forall_modify (P := fun _ => Sound) hs (sound_wake (hs timer))
  | takeEntry =>
      cases hexec
      exact forall_modify (P := fun _ => Sound) hs
        ((hs p).of_same rfl rfl rfl rfl (hrecorded.imp_right fun hd => ⟨rfl, hd.2⟩))
  | disarm =>
      cases hexec
      exact forall_modify (P := fun _ => Sound) hs (sound_disarm (hs p) hdue.entitled)
  | claim timer =>
      cases hexec
      exact forall_modify (P := fun _ => Sound) hs (sound_claim (hs timer))
  | pollDeadline =>
      cases hexec
      exact forall_modify (P := fun _ => Sound) hs
        ((hs p).of_same rfl rfl rfl rfl (.inl hdue.entitled))
  | terminate | takeParts | pollWork =>
      cases hexec
      exact forall_modify (P := fun _ => Sound) hs
        ((hs p).of_same rfl rfl rfl rfl hrecorded)
  | panic arm => cases hexec
  | next | loadCancelled | terminated | live | pollTick =>
      cases hexec
      exact hs

/-- A party leaves the signal of its own operation alone. -/
theorem keeps_own {change : Shape → Shape} (hq : q ≠ p)
    (hspares : Spares q (s.shape p) (change (s.shape p))) : Keeps q s (s.modify p change) := by
  refine ⟨?_, forall_modify (P := fun u t => Spares q (s.shape u) t) (fun _ => .refl q _) hspares⟩
  rw [shape_modify_of_ne hq]
  exact .refl _

/-- A drain moves the operation of another party. -/
theorem keeps_drain {timer : Party} {change : Shape → Shape}
    (hmoves : Moves (s.shape timer) (change (s.shape timer)))
    (hspares : Spares q (s.shape timer) (change (s.shape timer))) :
    Keeps q s (s.modify timer change) :=
  ⟨forall_modify (P := fun u t => Moves (s.shape u) t) (fun _ => .refl _) hmoves q,
    forall_modify (P := fun u t => Spares q (s.shape u) t) (fun _ => .refl q _) hspares⟩

theorem exec_keeps {op : Op} {r : op.Ret} (hs : ∀ q, Sound (s.shape q)) (hdue : Due p op s)
    (hexec : exec p u c op s = some (s', r)) (hq : q ≠ p) : Keeps q s s' := by
  cases op with
  | swapCancelled timer =>
      cases hexec
      exact keeps_drain moves_swapCancelled
        (spares_swapCancelled hq (hs timer) hdue.entitled.1)
  | wake timer =>
      cases hexec
      exact keeps_drain moves_wake (spares_wake hq hdue.entitled)
  | claim timer =>
      cases hexec
      exact keeps_drain moves_claim (spares_claim hq (hs timer))
  | disarm =>
      cases hexec
      refine keeps_own hq ?_
      unfold Shape.disarm
      split <;> exact { Spares.refl q (s.shape p) with }
  | returned | register | takeEntry | terminate | takeParts | pollDeadline | pollWork =>
      cases hexec
      exact keeps_own hq { Spares.refl q (s.shape p) with }
  | panic arm => cases hexec
  | next | loadCancelled | terminated | live | pollTick =>
      cases hexec
      exact .refl q s

end Preserved

end Timer
end CordisCore
