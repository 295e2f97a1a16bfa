import CordisCore.Timer.Polls
import Mathlib.Data.List.Basic

/-!
# Exclusive results — owners and drains, and what holds in every run
-/

namespace CordisCore
namespace Timer

open Interleaving

variable {p : Party} {s s' : Timers} {kind : Kind} {waker : Waker}

/-! ## Owners and drains -/

theorem Parked.moves {t t' : Shape} (h : Parked waker t) (hm : Moves t t') : Parked waker t' :=
  hm.parked waker h

theorem Returns.keeps {o : Outcome} (h : Returns kind waker p o s) (hk : Keeps p s s') :
    Returns kind waker p o s' := by
  rcases h with ⟨⟨note, ho⟩, hongoing, hparked⟩ | ⟨hsealed, hterminated⟩ | ⟨hkind, ho, hclosed⟩
  · exact .inl ⟨⟨note, ho.keeps hk⟩, hongoing, fun hpending => (hparked hpending).moves hk.own⟩
  · exact .inr (.inl ⟨hsealed.keeps hk, hk.own.terminated.trans hterminated⟩)
  · exact .inr (.inr ⟨hkind, ho, hclosed.keeps hk⟩)

theorem wp_returned {o : Outcome} (h : Returns kind waker p o s) :
    arbitration.wp p (perform (.returned waker o)) (fun _ s' => Idle kind p s') s := by
  refine wp_op (fun s' hk _ => ?_) fun s' u c s'' r hk hs' hexec => ?_
  · rcases h.keeps hk with ⟨⟨note, ho⟩, hongoing, -⟩ | ⟨hsealed, -⟩ | ⟨rfl, rfl, hclosed⟩
    · exact due_of_silent (.inl ⟨ho.undecided, .inl (ho.kind ▸ hongoing)⟩) ho.silent
    · exact due_of_silent (.inl ⟨hsealed.undecided, .inr ⟨hsealed.entry, hsealed.verdict⟩⟩)
        hsealed.silent
    · exact due_of_silent (.inr ⟨hclosed.kind, rfl, hclosed.entry, hclosed.decided⟩) hclosed.silent
  · have h' := h.keeps hk
    cases hexec
    rcases h' with ⟨⟨note, ho⟩, hongoing, hparked⟩ | ⟨hsealed, hterminated⟩ | ⟨rfl, rfl, hclosed⟩
    · refine .inl ⟨⟨note, ⟨silent_modify ho.silent rfl, ?_, ?_, ?_, ?_, ?_⟩, ?_, ?_⟩, ?_⟩ <;>
        rw [shape_modify_self]
      · exact ho.kind
      · exact List.forall_mem_cons.mpr ⟨ho.kind ▸ hongoing, ho.undecided⟩
      · exact ho.entry
      · exact ho.disarmed
      · exact ho.note
      · exact ho.live
      · exact ho.terminated
      · intro waker' rest heq
        cases heq
        exact hparked rfl
    · refine .inr ⟨silent_modify hsealed.silent rfl, ?_, ?_, ?_, ?_⟩ <;> rw [shape_modify_self]
      · exact hsealed.kind
      · exact hsealed.entry
      · exact hterminated
      · exact ⟨[], (waker, o), _, rfl, nofun, hsealed.verdict, hsealed.undecided⟩
    · refine .inr ⟨silent_modify hclosed.silent rfl, ?_, ?_, ?_, ?_⟩ <;> rw [shape_modify_self]
      · exact hclosed.kind
      · exact hclosed.entry
      · exact hclosed.terminated
      · rcases hclosed.decided with ⟨later, r, earlier, heq, hlater, hverdict, hearlier⟩
        exact ⟨(waker, .finished) :: later, r, earlier, congrArg (List.cons _) heq,
          List.forall_mem_cons.mpr ⟨⟨hclosed.kind, rfl⟩, hlater⟩, hverdict, hearlier⟩

/-- The latest result after a terminal one is not Pending. -/
theorem Decided.not_pending {t : Shape} (h : Decided t) (waker : Waker)
    (rest : List (Waker × Outcome)) : t.trace.results ≠ (waker, .pending) :: rest := by
  rcases h with ⟨later, r, earlier, heq, hlater, hverdict, -⟩
  intro hresults
  rw [heq] at hresults
  cases later with
  | nil =>
      cases hresults
      rcases hverdict with ⟨-, hnatural, -⟩ | ⟨hcancelled, -⟩
      · cases hnatural
      · cases hcancelled
  | cons x later =>
      cases hresults
      cases (hlater _ List.mem_cons_self).2

theorem wp_next (h : Idle kind p s) :
    arbitration.wp p (perform .next) (fun _ s' => Idle kind p s') s := by
  have hkeeps : ∀ s', Keeps p s s' → Idle kind p s' := by
    intro s' hk
    rcases h with ⟨⟨note, ho⟩, hparked⟩ | hclosed
    · refine .inl ⟨⟨note, ho.keeps hk⟩, fun waker rest hresults => ?_⟩
      exact (hparked waker rest (hk.own.results ▸ hresults)).moves hk.own
    · exact .inr (hclosed.keeps hk)
  refine wp_op (fun s' hk _ => ?_) fun s' u c s'' r hk _ hexec => ?_
  · rcases hkeeps s' hk with ⟨⟨note, ho⟩, hparked⟩ | hclosed
    · exact due_of_silent hparked ho.silent
    · exact due_of_silent (fun waker rest hresults =>
        absurd hresults (hclosed.decided.not_pending waker rest)) hclosed.silent
  · have h' := hkeeps s' hk
    cases hexec
    exact h'

/-- Dropping the operation disarms what is left in its entry. -/
theorem wp_drop (hs : ∀ q, Sound (s.shape q)) (h : Idle kind p s) :
    arbitration.wp p abandon (fun _ s' => Silent p s') s := by
  rcases h with ⟨⟨note, ho⟩, -⟩ | hclosed
  · exact arbitration.wp_seq hs (wp_disarm hs ho.toArmed) fun _ _ _ h₁ => h₁.1
  · have htake : arbitration.wp p (perform .takeEntry)
        (fun taken s' => taken = false ∧ Silent p s') s := by
      refine wp_op (fun s' hk _ => due_of_silent trivial (hclosed.keeps hk).silent)
        fun s' u c s'' r hk _ hexec => ?_
      have h' := hclosed.keeps hk
      cases hexec
      exact ⟨h'.entry, silent_modify h'.silent rfl⟩
    have hdisarm : arbitration.wp p disarm (fun _ s' => Silent p s') s := by
      refine arbitration.wp_seq hs htake fun taken s₁ _ h₁ => ?_
      rcases h₁ with ⟨rfl, h₁⟩
      exact h₁
    exact arbitration.wp_seq hs hdisarm fun _ _ _ h => h

theorem wp_own (h : Idle kind p s) :
    arbitration.wp p (own kind) (fun _ s' => Silent p s') s := by
  refine arbitration.wp_iterate (fun _ s' => Idle kind p s') h fun _ s₁ hs₁ h₁ => ?_
  refine arbitration.wp_seq hs₁ (wp_next h₁) fun poll s₂ hs₂ h₂ => ?_
  cases poll with
  | some waker =>
      refine arbitration.wp_seq hs₂ (wp_poll hs₂ h₂) fun o s₃ hs₃ h₃ => ?_
      exact arbitration.wp_seq hs₃ (wp_returned h₃) fun _ _ _ h => h
  | none => exact arbitration.wp_seq hs₂ (wp_drop hs₂ h₂) fun _ _ _ h => h

theorem wp_claim {timer : Party} (h : Silent p s) : arbitration.wp p (perform (.claim timer))
    (fun won s' => Silent p s' ∧ (won = true → (s'.shape timer).trace.claimant = some p ∧
      (s'.shape timer).cancelled = false)) s := by
  refine wp_op (fun s' hk _ => due_of_silent trivial (h.keeps hk))
    fun s' u c s'' r hk hs' hexec => ?_
  have h' := h.keeps hk
  cases hexec
  have hwaking : ((s'.shape timer).claim p).1.trace.waking = (s'.shape timer).trace.waking := by
    unfold Shape.claim
    split <;> rfl
  refine ⟨forall_modify (P := fun _ t => t.trace.waking ≠ some p) h' (hwaking ▸ h' timer), ?_⟩
  rw [shape_modify_self]
  unfold Shape.claim
  split
  · rename_i hregistered
    have hclear : (s'.shape timer).cancelled ≠ true := fun hcancelled => by
      have hclaimed := (hs' timer).signal hcancelled
      rw [hregistered] at hclaimed
      cases hclaimed
    exact fun _ => ⟨rfl, Bool.eq_false_iff.mpr hclear⟩
  · nofun

/-- The cleanup stores the flag, then wakes the registered waker. -/
theorem wp_cancel {timer : Party} (hs : ∀ q, Sound (s.shape q)) (h : Silent p s)
    (hclaimant : (s.shape timer).trace.claimant = some p)
    (hcancelled : (s.shape timer).cancelled = false) :
    arbitration.wp p (cancel timer) (fun _ s' => Silent p s') s := by
  have hswap : arbitration.wp p (perform (.swapCancelled timer)) (fun already s' =>
      already = false ∧ (s'.shape timer).trace.waking = some p ∧
        ∀ other, other ≠ timer → (s'.shape other).trace.waking ≠ some p) s := by
    have hclear : ∀ s', Keeps p s s' → (s'.shape timer).cancelled = false := fun s' hk =>
      ((hk.others timer).cancelled hclaimant).trans hcancelled
    refine wp_op (fun s' hk _ => due_of_silent
      ⟨(hk.others timer).claimant.mpr hclaimant, hclear s' hk⟩ (h.keeps hk))
      fun s' u c s'' r hk _ hexec => ?_
    have h' := h.keeps hk
    have hclear' := hclear s' hk
    have hout : (s'.shape timer).swapCancelled p = ({ s'.shape timer with cancelled := true }.track
        fun trace => { trace with waking := some p }, false) := by
      rw [Shape.swapCancelled, hclear']
      rfl
    cases hexec
    rw [hout, shape_modify_self, hout]
    refine ⟨rfl, rfl, fun other hother => ?_⟩
    rw [shape_modify_of_ne hother]
    exact h' other
  refine arbitration.wp_seq hs hswap fun already s₁ hs₁ h₁ => ?_
  rcases h₁ with ⟨rfl, hwaking, hothers⟩
  refine wp_op (fun s' hk _ => ⟨(hk.others timer).waking.mpr hwaking, fun other hother => ?_⟩)
    fun s' u c s'' r hk _ hexec => ?_
  · by_cases heq : other = timer
    · rw [heq]
    · exact absurd ((hk.others other).waking.mp hother) (hothers other heq)
  · have hothers' : ∀ other, other ≠ timer → (s'.shape other).trace.waking ≠ some p :=
      fun other hne hw => hothers other hne ((hk.others other).waking.mp hw)
    cases hexec
    intro other
    by_cases heq : other = timer
    · subst heq
      rw [shape_modify_self]
      nofun
    · rw [shape_modify_of_ne heq]
      exact hothers' other heq

theorem wp_drain {timer : Party} (hs : ∀ q, Sound (s.shape q)) (h : Silent p s) :
    arbitration.wp p (drain timer) (fun _ s' => Silent p s') s := by
  refine arbitration.wp_seq hs (wp_claim h) fun won s₁ hs₁ h₁ => ?_
  cases won with
  | true =>
      have hclaim := h₁.2 rfl
      exact wp_cancel hs₁ h₁.1 hclaim.1 hclaim.2
  | false => exact h₁.1

theorem arbitration_verified : arbitration.Verified where
  grounded _ _ _ _ _ := trivial
  init _ := ⟨nofun, nofun, fun h => absurd rfl h, .inl nofun⟩
  vacant _ := ⟨nofun, rfl⟩
  body routine p s hs h := by
    cases routine with
    | own kind => exact arbitration.wp_seq hs (wp_own h) fun _ _ _ h => h
    | drain timer => exact arbitration.wp_seq hs (wp_drain hs h) fun _ _ _ h => h
  enter p routine s s' hs hblank henter := by
    cases routine with
    | drain timer =>
        cases henter
        exact ⟨hs, fun t _ => .refl t s, hblank.1⟩
    | own kind =>
        have hclaimant : (s.shape p).trace.claimant = none := by
          by_contra hne
          cases hblank.2.symm.trans ((hs p).claimant hne)
        have hwaking : (s.shape p).trace.waking = none := by
          refine Option.eq_none_iff_forall_ne_some.mpr fun d hd => ?_
          cases hclaimant.symm.trans ((hs p).waking d hd).1
        cases henter
        refine ⟨forall_modify (P := fun _ => Sound) hs ⟨nofun, nofun, fun h => absurd rfl h, .inl nofun⟩,
          fun t ht => keeps_own ht ⟨?_, ?_, ?_⟩, .inl ⟨⟨(false, none), ?_⟩, ?_⟩⟩
        · rw [hclaimant]
          exact Iff.rfl
        · intro hc
          rw [hclaimant] at hc
          cases hc
        · rw [hwaking]
          exact Iff.rfl
        · refine ⟨⟨silent_modify hblank.1 hwaking.symm, ?_, ?_, ?_, ?_, ?_⟩, ?_, ?_⟩ <;>
            rw [shape_modify_self]
          · rfl
          · nofun
          · rfl
          · nofun
          · rfl
          · rfl
          · rfl
        · intro waker rest hresults
          rw [shape_modify_self] at hresults
          cases hresults

/-! ## What holds in every run -/

/-- The results after which a one-shot operation is over, and the last item of an Interval. -/
def Outcome.terminal (o : Outcome) : Bool :=
  o.natural || o == .cancelled

/-- What the arbitration promises about one operation in every state. -/
structure Arbitrated (cfg : State) (p : Party) : Prop where
  /-- A terminal result is natural exactly if the operation disarmed its own cleanup, and
  `TimerCancelled` otherwise. -/
  exclusive : ∀ r ∈ (cfg.shared.shape p).trace.results, r.2.terminal = true →
    (r.2.natural = true ↔ (cfg.shared.shape p).cleanup = .disarmed) ∧
      (r.2.natural = false → r.2 = .cancelled)
  /-- A disarmed cleanup was claimed by no drain and signalled nothing. -/
  undrained : (cfg.shared.shape p).cleanup = .disarmed →
    (cfg.shared.shape p).trace.claimant = none ∧ (cfg.shared.shape p).cancelled = false
  /-- Whoever claimed the cleanup keeps the claim for good. -/
  final : ∀ label cfg', protocol.step cfg label = some cfg' →
    (cfg.shared.shape p).cleanup = .claimed ∨ (cfg.shared.shape p).cleanup = .disarmed →
      (cfg'.shared.shape p).cleanup = (cfg.shared.shape p).cleanup
  /-- Completed work was ready before a deadline that had not elapsed when it was polled again. -/
  completed : ∀ r ∈ (cfg.shared.shape p).trace.results, r.2 = .completed →
    (cfg.shared.shape p).trace.repolled = some false
  /-- After a Pending poll the waker is registered until a cancel wakes it. -/
  parked : ∀ next waker rest, cfg.pool p = some (.act .next next) →
    (cfg.shared.shape p).trace.results = (waker, .pending) :: rest →
      Parked waker (cfg.shared.shape p)
  /-- Whoever stored the flag wakes the waker next. -/
  wakes : ∀ d, (cfg.shared.shape p).trace.waking = some d →
    (∀ op next, cfg.pool d = some (.act op next) → op = .wake p) ∧ ∀ a, cfg.pool d ≠ some (.pure a)
  /-- There is one terminal result at most; an Interval answers `None` afterwards. -/
  once : ∀ later r earlier, (cfg.shared.shape p).trace.results = later ++ r :: earlier →
    r.2.terminal = true →
      (∀ x ∈ earlier, Ongoing (cfg.shared.shape p).kind x.2) ∧
        ∀ x ∈ later, (cfg.shared.shape p).kind = .interval ∧ x.2 = .finished
  /-- The only panic is that of a one-shot operation polled after its terminal result. -/
  panics : ∀ arm next, cfg.pool p = some (.act (.panic arm) next) →
    arm = .polledAfterCompletion ∧ (cfg.shared.shape p).terminated = true

theorem Ongoing.not_terminal {o : Outcome} (h : Ongoing kind o) : o.terminal = false := by
  rcases h with rfl | ⟨-, rfl⟩ <;> rfl

theorem Verdict.exclusive {t : Shape} {o : Outcome} (h : Verdict t o) :
    (o.natural = true ↔ t.cleanup = .disarmed) ∧ (o.natural = false → o = .cancelled) := by
  rcases h with ⟨-, hnatural, hdisarmed, -⟩ | ⟨rfl, hnot⟩
  · refine ⟨⟨fun _ => hdisarmed, fun _ => hnatural⟩, fun hfalse => ?_⟩
    cases hnatural.symm.trans hfalse
  · exact ⟨⟨nofun, fun hd => absurd hd hnot⟩, fun _ => rfl⟩

theorem Verdict.completed {t : Shape} {o : Outcome} (h : Verdict t o) (ho : o = .completed) :
    t.trace.repolled = some false := by
  rcases h with ⟨-, -, -, hrepolled⟩ | ⟨hcancelled, -⟩
  · exact hrepolled ho
  · cases ho.symm.trans hcancelled

/-- Where a terminal result stands among the results. -/
theorem Sound.of_terminal {t : Shape} (h : Sound t) {later earlier : List (Waker × Outcome)}
    {r : Waker × Outcome} (hresults : t.trace.results = later ++ r :: earlier)
    (hterminal : r.2.terminal = true) :
    Verdict t r.2 ∧ (∀ x ∈ later, t.kind = .interval ∧ x.2 = .finished) ∧
      ∀ x ∈ earlier, Ongoing t.kind x.2 := by
  have hongoing : ∀ {o}, Ongoing t.kind o → o ≠ r.2 := by
    rintro o ho rfl
    cases ho.not_terminal.symm.trans hterminal
  rcases h.recorded with hundecided | ⟨-, later', r', earlier', heq, hlater, hverdict, hearlier⟩
  · have hmem : r ∈ t.trace.results := by
      rw [hresults]
      exact List.mem_append_right _ List.mem_cons_self
    exact absurd rfl (hongoing (hundecided r hmem))
  · have hnotlater : r ∉ later' := by
      intro hmem
      rw [(hlater r hmem).2] at hterminal
      cases hterminal
    have hnotearlier : r ∉ earlier' := fun hmem => absurd rfl (hongoing (hearlier r hmem))
    rcases (List.append_cons_inj_of_notMem hnotlater hnotearlier).mp (heq.symm.trans hresults) with
      ⟨rfl, rfl, rfl⟩
    exact ⟨hverdict, hlater, hearlier⟩

theorem exec_final {q u : Party} {c : Choice} {op : Op} {r : op.Ret}
    (hexec : exec q u c op s = some (s', r))
    (h : (s.shape p).cleanup = .claimed ∨ (s.shape p).cleanup = .disarmed) :
    (s'.shape p).cleanup = (s.shape p).cleanup := by
  have hne : (s.shape p).cleanup ≠ .registered := by
    rcases h with h | h <;> rw [h] <;> nofun
  have hkeep : ∀ {timer : Party} {change : Shape → Shape},
      (timer = p → (change (s.shape timer)).cleanup = (s.shape timer).cleanup) →
      ((s.modify timer change).shape p).cleanup = (s.shape p).cleanup := by
    intro timer change hchange
    by_cases heq : p = timer
    · subst heq
      rw [shape_modify_self]
      exact hchange rfl
    · rw [shape_modify_of_ne heq]
  cases op with
  | claim timer =>
      cases hexec
      refine hkeep fun heq => ?_
      subst heq
      rw [Shape.claim, if_neg hne]
  | disarm =>
      cases hexec
      refine hkeep fun heq => ?_
      subst heq
      rw [Shape.disarm, if_neg fun hregistered => hne hregistered.2]
  | swapCancelled timer =>
      cases hexec
      refine hkeep fun _ => ?_
      unfold Shape.swapCancelled
      split <;> rfl
  | returned | register | wake | takeEntry | terminate | takeParts | pollDeadline | pollWork =>
      cases hexec
      exact hkeep fun _ => rfl
  | panic arm => cases hexec
  | next | loadCancelled | terminated | live | pollTick =>
      cases hexec
      rfl

theorem step_final {cfg cfg' : State} (hr : protocol.Reachable Machine.anyRun cfg)
    {label : Label Routine Choice} (hstep : protocol.step cfg label = some cfg')
    (h : (cfg.shared.shape p).cleanup = .claimed ∨ (cfg.shared.shape p).cleanup = .disarmed) :
    (cfg'.shared.shape p).cleanup = (cfg.shared.shape p).cleanup := by
  cases Machine.transition_of_step protocol hstep with
  | @performed _ fresh _ _ _ _ _ _ _ hexec => exact exec_final (u := fresh) hexec h
  | forked _ hforks => cases hforks
  | unfolded => rfl
  | @entered self routine s' hunborn henter =>
      cases routine with
      | drain timer =>
          cases henter
          rfl
      | own kind =>
          have hblank : arbitration.blank self cfg.shared :=
            (Logic.sound arbitration_verified hr).vacant self hunborn
          have hne : p ≠ self := by
            rintro rfl
            rcases h with h | h <;> cases hblank.2.symm.trans h
          cases henter
          rw [shape_modify_of_ne hne]
  | dropped _ _ hdropped => cases hdropped

theorem arbitrated_of_reachable {cfg : State} (h : protocol.Reachable Machine.anyRun cfg)
    (p : Party) : Arbitrated cfg p := by
  have hs : Sound (cfg.shared.shape p) := Logic.inv_of_reachable arbitration_verified h p
  have hcheck : ∀ {q op next}, cfg.pool q = some (.act op next) → Due q op cfg.shared :=
    fun hpool => Logic.check_of_reachable arbitration_verified h hpool
  refine {
    exclusive := fun r hr hterminal => ?exclusive
    undrained := fun hdisarmed => ⟨?_, ?_⟩
    final := fun label cfg' hstep hclaimed => step_final h hstep hclaimed
    completed := fun r hr hcompleted => ?completed
    parked := fun next waker rest hpool => (hcheck hpool).entitled waker rest
    wakes := fun d hd => ⟨fun op next hpool => (hcheck hpool).wakes p hd, fun a hpool => ?wakes⟩
    once := fun later r earlier hresults hterminal =>
      ⟨(hs.of_terminal hresults hterminal).2.2, (hs.of_terminal hresults hterminal).2.1⟩
    panics := fun arm next hpool => (hcheck hpool).entitled }
  case exclusive =>
    rcases List.append_of_mem hr with ⟨later, earlier, hresults⟩
    exact (hs.of_terminal hresults hterminal).1.exclusive
  · by_contra hne
    cases hdisarmed.symm.trans (hs.claimant hne)
  · refine Bool.eq_false_iff.mpr fun hcancelled => ?_
    cases hdisarmed.symm.trans (hs.signal hcancelled)
  case completed =>
    rcases List.append_of_mem hr with ⟨later, earlier, hresults⟩
    have hterminal : r.2.terminal = true := by
      rw [hcompleted]
      rfl
    exact (hs.of_terminal hresults hterminal).1.completed hcompleted
  case wakes =>
    have hsilent : Silent d cfg.shared := Logic.post_of_reachable arbitration_verified h hpool
    exact hsilent p hd

/-! ## A claim between two reads -/

/-- A party takes some steps with this answer of the world. -/
def turns (p : Party) (n : Nat) (choice : Choice) : List (Label Routine Choice) :=
  List.replicate n (.step p 9 choice)

/-- The deadline elapses in the poll in which the drain claims the cleanup. -/
def claimedInPoll : List (Label Routine Choice) :=
  .enter 1 (.own .timeout) :: turns 1 2 { poll := some 7 } ++ turns 1 11 {} ++
    .enter 2 (.drain 1) :: turns 1 7 { poll := some 8 } ++ turns 2 1 {} ++
    turns 1 9 { answer := true }

def claimed : State :=
  (protocol.run (fun _ _ _ _ => true) claimedInPoll protocol.start).get (by decide +kernel)

theorem reachable_claimed : protocol.Reachable Machine.anyRun claimed :=
  Machine.Reachable.of_run protocol (fun _ _ _ _ _ => trivial) claimedInPoll .start
    (Option.some_get _).symm

theorem arbitrated_claimed :
    (claimed.shared.shape 1).trace.results = [(8, .cancelled), (7, .pending)] ∧
      Arbitrated claimed 1 :=
  ⟨by decide +kernel, arbitrated_of_reachable reachable_claimed 1⟩

end Timer
end CordisCore
