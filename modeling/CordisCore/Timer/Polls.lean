import CordisCore.Timer.Arbitration

/-!
# Polls — a natural result is committed by disarming the cleanup
-/

namespace CordisCore
namespace Timer

open Interleaving

variable {p : Party} {s s' : Timers} {kind : Kind}

/-! ## The logic -/

/-- The party owes no wake. -/
def Silent (p : Party) (s : Timers) : Prop :=
  ∀ timer, (s.shape timer).trace.waking ≠ some p

theorem Silent.keeps (h : Silent p s) (hk : Keeps p s s') : Silent p s' :=
  fun timer hw => h timer ((hk.others timer).waking.mp hw)

theorem due_of_silent {op : Op} (h : Entitled p s op) (hsilent : Silent p s) : Due p op s :=
  ⟨h, fun timer hw => absurd hw (hsilent timer)⟩

/-- Nothing is decided and `entry` says whether the registration is still in its place; `note`
says whether the work is ready and what the deadline said then. -/
structure Armed (kind : Kind) (note : Bool × Option Bool) (entry : Bool) (p : Party)
    (s : Timers) : Prop where
  silent : Silent p s
  kind : (s.shape p).kind = kind
  undecided : Undecided (s.shape p)
  entry : (s.shape p).entry = entry
  disarmed : (s.shape p).cleanup ≠ .disarmed
  note : ((s.shape p).trace.workReady, (s.shape p).trace.repolled) = note

theorem Armed.keeps {note : Bool × Option Bool} {entry : Bool} (h : Armed kind note entry p s)
    (hk : Keeps p s s') : Armed kind note entry p s' where
  silent := h.silent.keeps hk
  kind := hk.own.kind.trans h.kind
  undecided := h.undecided.of_same hk.own.kind hk.own.results
  entry := hk.own.entry.trans h.entry
  disarmed hd := h.disarmed (hk.own.disarmed.mp hd)
  note := by
    rw [hk.own.workReady, hk.own.repolled]
    exact h.note

/-- The operation goes on. -/
structure Open (kind : Kind) (note : Bool × Option Bool) (p : Party) (s : Timers) : Prop
    extends Armed kind note true p s where
  live : (s.shape p).live = true
  terminated : (s.shape p).terminated = false

theorem Open.keeps {note : Bool × Option Bool} (h : Open kind note p s) (hk : Keeps p s s') :
    Open kind note p s' where
  toArmed := h.toArmed.keeps hk
  live := hk.own.live.trans h.live
  terminated := hk.own.terminated.trans h.terminated

/-- The registration was taken out of the entry and the result is known. -/
structure Sealed (kind : Kind) (o : Outcome) (p : Party) (s : Timers) : Prop where
  silent : Silent p s
  kind : (s.shape p).kind = kind
  undecided : Undecided (s.shape p)
  entry : (s.shape p).entry = false
  verdict : Verdict (s.shape p) o

theorem Verdict.moves {t t' : Shape} {o : Outcome} (h : Verdict t o) (hm : Moves t t') :
    Verdict t' o := by
  simp only [Verdict, ne_eq, hm.kind, hm.repolled, hm.disarmed]
  exact h

theorem Sealed.keeps {o : Outcome} (h : Sealed kind o p s) (hk : Keeps p s s') :
    Sealed kind o p s' where
  silent := h.silent.keeps hk
  kind := hk.own.kind.trans h.kind
  undecided := h.undecided.of_same hk.own.kind hk.own.results
  entry := hk.own.entry.trans h.entry
  verdict := h.verdict.moves hk.own

/-- The terminal result was returned. -/
structure Closed (kind : Kind) (p : Party) (s : Timers) : Prop where
  silent : Silent p s
  kind : (s.shape p).kind = kind
  entry : (s.shape p).entry = false
  terminated : (s.shape p).terminated = true
  decided : Decided (s.shape p)

theorem Closed.keeps (h : Closed kind p s) (hk : Keeps p s s') : Closed kind p s' where
  silent := h.silent.keeps hk
  kind := hk.own.kind.trans h.kind
  entry := hk.own.entry.trans h.entry
  terminated := hk.own.terminated.trans h.terminated
  decided := h.decided.of_same hk.own.kind hk.own.results hk.own.repolled hk.own.disarmed

/-- Between two polls. -/
def Idle (kind : Kind) (p : Party) (s : Timers) : Prop :=
  (∃ note, Open kind note p s) ∧ (∀ waker rest,
      (s.shape p).trace.results = (waker, .pending) :: rest → Parked waker (s.shape p)) ∨
    Closed kind p s

def arbitration : Logic protocol Machine.anyRun where
  inv s := ∀ q, Sound (s.shape q)
  rely := Keeps
  blank p s := Silent p s ∧ (s.shape p).cleanup = .absent
  pre routine p s := match routine with
    | .own kind => Idle kind p s
    | .drain _ => Silent p s
  post p _ := Silent p
  check := Due
  rely_refl := Keeps.refl
  rely_trans := Keeps.trans
  blank_rely h hk := ⟨h.1.keeps hk, hk.own.absent h.2⟩
  post_rely h hk := h.keeps hk

theorem wp_op {op : Op} {Q : op.Ret → Timers → Prop}
    (hdue : ∀ s', Keeps p s s' → (∀ q, Sound (s'.shape q)) → Due p op s')
    (h : ∀ s' u c s'' r, Keeps p s s' → (∀ q, Sound (s'.shape q)) →
      exec p u c op s' = some (s'', r) → Q r s'') : arbitration.wp p (perform op) Q s := by
  refine arbitration.wp_perform fun s' hk hs' => ⟨hdue s' hk hs', ?_, nofun⟩
  refine Logic.Performs.of_step rfl fun u c s'' r _ _ hexec => ?_
  have hexec : exec p u c op s' = some (s'', r) := hexec
  exact ⟨sound_exec hs' (hdue s' hk hs') hexec, fun t ht => exec_keeps hs' (hdue s' hk hs') hexec ht,
    h s' u c s'' r hk hs' hexec⟩

/-! ## Looking at the signal -/

variable {note : Bool × Option Bool} {waker : Waker}

theorem silent_modify {change : Shape → Shape} (h : Silent p s)
    (hwaking : (change (s.shape p)).trace.waking = (s.shape p).trace.waking) :
    Silent p (s.modify p change) := by
  refine forall_modify (P := fun _ t => t.trace.waking ≠ some p) h ?_
  rw [hwaking]
  exact h p

/-- The party changes its own shape and keeps what an open operation needs. -/
theorem Open.modify {change : Shape → Shape} {note' : Bool × Option Bool}
    (h : Open kind note p s) (hwaking : (change (s.shape p)).trace.waking = (s.shape p).trace.waking)
    (hkind : (change (s.shape p)).kind = (s.shape p).kind)
    (hresults : (change (s.shape p)).trace.results = (s.shape p).trace.results)
    (hentry : (change (s.shape p)).entry = (s.shape p).entry)
    (hlive : (change (s.shape p)).live = (s.shape p).live)
    (hterminated : (change (s.shape p)).terminated = (s.shape p).terminated)
    (hcleanup : (change (s.shape p)).cleanup = (s.shape p).cleanup)
    (hnote : ((change (s.shape p)).trace.workReady, (change (s.shape p)).trace.repolled) = note') :
    Open kind note' p (s.modify p change) := by
  refine ⟨⟨silent_modify h.silent hwaking, ?_, ?_, ?_, ?_, ?_⟩, ?_, ?_⟩ <;> rw [shape_modify_self]
  · rw [hkind]
    exact h.kind
  · exact h.undecided.of_same hkind hresults
  · rw [hentry]
    exact h.entry
  · rw [hcleanup]
    exact h.disarmed
  · exact hnote
  · rw [hlive]
    exact h.live
  · rw [hterminated]
    exact h.terminated

theorem wp_isCancelled (hs : ∀ q, Sound (s.shape q)) (h : Open kind note p s) :
    arbitration.wp p (isCancelled waker) (fun cancelled s' => Open kind note p s' ∧
      (cancelled = true → (s'.shape p).cancelled = true) ∧
      (cancelled = false → Parked waker (s'.shape p))) s := by
  have hload : ∀ {s : Timers}, Open kind note p s → arbitration.wp p (perform .loadCancelled)
      (fun cancelled s' => Open kind note p s' ∧
        (cancelled = true → (s'.shape p).cancelled = true) ∧
        (cancelled = false → Keeps p s s' ∧ (s'.shape p).cancelled ≠ true)) s := by
    intro s h
    refine wp_op (fun s' hk _ => due_of_silent trivial (h.keeps hk).silent)
      fun s' u c s'' r hk _ hexec => ?_
    cases hexec
    exact ⟨h.keeps hk, id, fun hfalse => ⟨hk, fun htrue => by cases hfalse.symm.trans htrue⟩⟩
  refine arbitration.wp_seq hs (hload h) fun cancelled s₁ hs₁ h₁ => ?_
  cases cancelled with
  | true => exact ⟨h₁.1, h₁.2.1, nofun⟩
  | false =>
      have hregister : arbitration.wp p (perform (.register waker)) (fun _ s' =>
          Open kind note p s' ∧ (Parked waker (s'.shape p) ∨ (s'.shape p).cancelled = true)) s₁ := by
        refine wp_op (fun s' hk _ => due_of_silent trivial (h₁.1.keeps hk).silent)
          fun s' u c s'' r hk _ hexec => ?_
        have h' := h₁.1.keeps hk
        cases hexec
        refine ⟨h'.modify rfl rfl rfl rfl rfl rfl rfl h'.note, ?_⟩
        rw [shape_modify_self]
        by_cases hcancelled : (s'.shape p).cancelled = true
        · exact .inr hcancelled
        · exact .inl (.inl ⟨rfl, fun htrue => absurd htrue hcancelled⟩)
      refine arbitration.wp_seq hs₁ hregister fun _ s₂ hs₂ h₂ => ?_
      refine arbitration.wp_mono hs₂ (hload h₂.1) fun cancelled s₃ _ h₃ => ⟨h₃.1, h₃.2.1, ?_⟩
      intro hfalse
      rcases h₃.2.2 hfalse with ⟨hk, hnot⟩
      rcases h₂.2 with hparked | hcancelled
      · exact hk.own.parked waker hparked
      · exact absurd (hk.own.cancelled hcancelled) hnot

/-! ## Claiming the cleanup -/

theorem wp_takeEntry (h : Armed kind note true p s) : arbitration.wp p (perform .takeEntry)
    (fun taken s' => taken = true ∧ Armed kind note false p s' ∧
      (s'.shape p).terminated = (s.shape p).terminated ∧
      ((s.shape p).cancelled = true → (s'.shape p).cancelled = true)) s := by
  refine wp_op (fun s' hk _ => due_of_silent trivial (h.keeps hk).silent)
    fun s' u c s'' r hk _ hexec => ?_
  have h' := h.keeps hk
  have hterminated := hk.own.terminated
  have hcancelled := hk.own.cancelled
  cases hexec
  refine ⟨h'.entry, ⟨silent_modify h'.silent rfl, ?_, ?_, ?_, ?_, ?_⟩, ?_, ?_⟩ <;>
    rw [shape_modify_self]
  · exact h'.kind
  · exact h'.undecided
  · exact h'.disarmed
  · exact h'.note
  · exact hterminated
  · exact hcancelled

/-- The claim is won exactly if the cleanup is disarmed afterwards; not once it was signalled. -/
theorem wp_disarm (hs : ∀ q, Sound (s.shape q)) (h : Armed kind note true p s) :
    arbitration.wp p disarm (fun won s' => Silent p s' ∧ (s'.shape p).kind = kind ∧
      Undecided (s'.shape p) ∧ (s'.shape p).entry = false ∧
      (s'.shape p).terminated = (s.shape p).terminated ∧
      ((s'.shape p).trace.workReady, (s'.shape p).trace.repolled) = note ∧
      ((s'.shape p).cleanup = .disarmed ↔ won = true) ∧
      ((s.shape p).cancelled = true → won = false)) s := by
  refine arbitration.wp_seq hs (wp_takeEntry h) fun taken s₁ hs₁ h₁ => ?_
  rcases h₁ with ⟨rfl, h₁, hterminated, hcancelled⟩
  refine wp_op (fun s' hk _ => due_of_silent (h₁.keeps hk).undecided (h₁.keeps hk).silent)
    fun s' u c s'' r hk hs' hexec => ?_
  have h' := h₁.keeps hk
  have hterminated := hk.own.terminated.trans hterminated
  have hsignal : (s.shape p).cancelled = true → (s'.shape p).cleanup = .claimed := fun hc =>
    (hs' p).signal (hk.own.cancelled (hcancelled hc))
  cases hexec
  have hsame : ((s'.shape p).disarm c.answer).1.trace = (s'.shape p).trace ∧
      ((s'.shape p).disarm c.answer).1.kind = (s'.shape p).kind ∧
      ((s'.shape p).disarm c.answer).1.entry = (s'.shape p).entry ∧
      ((s'.shape p).disarm c.answer).1.terminated = (s'.shape p).terminated := by
    unfold Shape.disarm
    split <;> exact ⟨rfl, rfl, rfl, rfl⟩
  refine ⟨silent_modify h'.silent (by rw [hsame.1]), ?_, ?_, ?_, ?_, ?_, ?_, ?_⟩ <;>
    try rw [shape_modify_self]
  · rw [hsame.2.1]
    exact h'.kind
  · exact h'.undecided.of_same hsame.2.1 (by rw [hsame.1])
  · rw [hsame.2.2.1]
    exact h'.entry
  · rw [hsame.2.2.2]
    exact hterminated
  · rw [hsame.1]
    exact h'.note
  · unfold Shape.disarm
    split
    · exact ⟨fun _ => rfl, fun _ => rfl⟩
    · exact ⟨fun hd => absurd hd h'.disarmed, nofun⟩
  · intro hc
    have hclaimed := hsignal hc
    unfold Shape.disarm
    split
    · rename_i hregistered
      rw [hclaimed] at hregistered
      cases hregistered.2
    · rfl

/-- Once the signal is there the result is `TimerCancelled`. -/
theorem wp_cancelled (hs : ∀ q, Sound (s.shape q)) (h : Armed kind note true p s)
    (hcancelled : (s.shape p).cancelled = true) :
    arbitration.wp p abandon (fun _ s' => Sealed kind .cancelled p s' ∧
      (s'.shape p).terminated = (s.shape p).terminated) s := by
  refine arbitration.wp_seq hs (wp_disarm hs h) fun won s₁ _ h₁ => ?_
  rcases h₁ with ⟨hsilent, hkind, hundecided, hentry, hterminated, -, hwon, hlost⟩
  refine ⟨⟨hsilent, hkind, hundecided, hentry, .inr ⟨rfl, fun hd => ?_⟩⟩, hterminated⟩
  cases (hlost hcancelled).symm.trans (hwon.mp hd)

/-- A natural result is returned by the winner of the claim only. -/
theorem wp_commit {o : Outcome} (hs : ∀ q, Sound (s.shape q)) (h : Open kind note p s)
    (hkind : kind ≠ .interval) (hnatural : o.natural = true)
    (hcompleted : o = .completed → note.2 = some false) :
    arbitration.wp p (commit o) (fun o s' => Sealed kind o p s') s := by
  refine arbitration.wp_seq hs (wp_disarm hs h.toArmed) fun won s₁ _ h₁ => ?_
  rcases h₁ with ⟨hsilent, hkind₁, hundecided, hentry, -, hnote, hwon, -⟩
  cases won with
  | true =>
      refine ⟨hsilent, hkind₁, hundecided, hentry, .inl ⟨hkind₁ ▸ hkind, hnatural, hwon.mpr rfl, ?_⟩⟩
      intro ho
      rw [← hcompleted ho, ← hnote]
  | false => exact ⟨hsilent, hkind₁, hundecided, hentry, .inr ⟨rfl, fun hd => nomatch hwon.mp hd⟩⟩

theorem wp_unlessCancelled {commit : Prog Outcome} {Q : Outcome → Timers → Prop}
    (hs : ∀ q, Sound (s.shape q)) (h : Open kind note p s)
    (hcancelled : ∀ s', Sealed kind .cancelled p s' → Q .cancelled s')
    (hcommit : ∀ s', (∀ q, Sound (s'.shape q)) → Open kind note p s' → Parked waker (s'.shape p) →
      arbitration.wp p commit Q s') : arbitration.wp p (unlessCancelled waker commit) Q s := by
  refine arbitration.wp_seq hs (wp_isCancelled hs h) fun cancelled s₁ hs₁ h₁ => ?_
  cases cancelled with
  | true =>
      exact arbitration.wp_seq hs₁ (wp_cancelled hs₁ h₁.1.toArmed (h₁.2.1 rfl)) fun _ s₂ _ h₂ =>
        hcancelled s₂ h₂.1
  | false => exact hcommit s₁ hs₁ h₁.1 (h₁.2.2 rfl)

/-! ## The polls -/

/-- What is left after a poll. -/
def Polled (kind : Kind) (waker : Waker) (p : Party) (o : Outcome) (s : Timers) : Prop :=
  (∃ note, Open kind note p s) ∧ Ongoing kind o ∧ (o = .pending → Parked waker (s.shape p)) ∨
    Sealed kind o p s

theorem wp_pollDeadline (h : Open kind note p s) : arbitration.wp p (perform .pollDeadline)
    (fun ready s' => Open kind (note.1, if note.1 then some ready else note.2) p s') s := by
  refine wp_op (fun s' hk _ => due_of_silent (h.keeps hk).undecided (h.keeps hk).silent)
    fun s' u c s'' r hk _ hexec => ?_
  have h' := h.keeps hk
  cases hexec
  refine h'.modify rfl rfl rfl rfl rfl rfl rfl ?_
  rw [← h'.note]
  rfl

theorem wp_pollWork (h : Open kind note p s) : arbitration.wp p (perform .pollWork)
    (fun ready s' => Open kind (ready, note.2) p s') s := by
  refine wp_op (fun s' hk _ => due_of_silent trivial (h.keeps hk).silent)
    fun s' u c s'' r hk _ hexec => ?_
  have h' := h.keeps hk
  cases hexec
  refine h'.modify rfl rfl rfl rfl rfl rfl rfl ?_
  rw [← h'.note]
  rfl

theorem wp_pollTimeout (hs : ∀ q, Sound (s.shape q)) (h : Open .timeout note p s) :
    arbitration.wp p (pollTimeout waker) (Polled .timeout waker p) s := by
  have hcancelled : ∀ s', Sealed .timeout .cancelled p s' → Polled .timeout waker p .cancelled s' :=
    fun _ h => .inr h
  have helapsed : ∀ {note s}, (∀ q, Sound (s.shape q)) → Open .timeout note p s →
      arbitration.wp p (unlessCancelled waker (commit .elapsed)) (Polled .timeout waker p) s := by
    intro note s hs h
    refine wp_unlessCancelled hs h hcancelled fun s' hs' h' _ => ?_
    exact arbitration.wp_mono hs' (wp_commit hs' h' nofun rfl nofun) fun _ _ _ => .inr
  refine wp_unlessCancelled hs h hcancelled fun s₁ hs₁ h₁ _ => ?_
  refine arbitration.wp_seq hs₁ (wp_pollDeadline h₁) fun ready s₂ hs₂ h₂ => ?_
  cases ready with
  | true => exact helapsed hs₂ h₂
  | false =>
      refine arbitration.wp_seq hs₂ (wp_pollWork h₂) fun work s₃ hs₃ h₃ => ?_
      cases work with
      | false =>
          exact wp_unlessCancelled hs₃ h₃ hcancelled fun s₄ _ h₄ hparked =>
            .inl ⟨⟨_, h₄⟩, .inl rfl, fun _ => hparked⟩
      | true =>
          refine wp_unlessCancelled hs₃ h₃ hcancelled fun s₄ hs₄ h₄ _ => ?_
          refine arbitration.wp_seq hs₄ (wp_pollDeadline h₄) fun again s₅ hs₅ h₅ => ?_
          cases again with
          | true => exact helapsed hs₅ h₅
          | false =>
              refine wp_unlessCancelled hs₅ h₅ hcancelled fun s₆ hs₆ h₆ _ => ?_
              exact arbitration.wp_mono hs₆ (wp_commit hs₆ h₆ nofun rfl fun _ => rfl)
                fun _ _ _ => .inr

theorem wp_pollSleep (hs : ∀ q, Sound (s.shape q)) (h : Open .sleep note p s) :
    arbitration.wp p (pollSleep waker) (Polled .sleep waker p) s := by
  have hcancelled : ∀ s', Sealed .sleep .cancelled p s' → Polled .sleep waker p .cancelled s' :=
    fun _ h => .inr h
  refine wp_unlessCancelled hs h hcancelled fun s₁ hs₁ h₁ _ => ?_
  refine arbitration.wp_seq hs₁ (wp_pollDeadline h₁) fun ready s₂ hs₂ h₂ => ?_
  cases ready with
  | true =>
      refine wp_unlessCancelled hs₂ h₂ hcancelled fun s₃ hs₃ h₃ _ => ?_
      exact arbitration.wp_mono hs₃ (wp_commit hs₃ h₃ nofun rfl nofun) fun _ _ _ => .inr
  | false =>
      exact wp_unlessCancelled hs₂ h₂ hcancelled fun s₃ _ h₃ hparked =>
        .inl ⟨⟨_, h₃⟩, .inl rfl, fun _ => hparked⟩

/-- What is left when a poll returns. -/
def Returns (kind : Kind) (waker : Waker) (p : Party) (o : Outcome) (s : Timers) : Prop :=
  (∃ note, Open kind note p s) ∧ Ongoing kind o ∧ (o = .pending → Parked waker (s.shape p)) ∨
    Sealed kind o p s ∧ (s.shape p).terminated = true ∨
    kind = .interval ∧ o = .finished ∧ Closed kind p s

theorem wp_terminate {o : Outcome} (h : Sealed kind o p s) :
    arbitration.wp p (perform .terminate)
      (fun _ s' => Sealed kind o p s' ∧ (s'.shape p).terminated = true) s := by
  refine wp_op (fun s' hk _ => due_of_silent trivial (h.keeps hk).silent)
    fun s' u c s'' r hk _ hexec => ?_
  have h' := h.keeps hk
  cases hexec
  refine ⟨⟨silent_modify h'.silent rfl, ?_, ?_, ?_, ?_⟩, ?_⟩ <;> rw [shape_modify_self]
  · exact h'.kind
  · exact h'.undecided
  · exact h'.entry
  · exact h'.verdict

theorem wp_takeParts {o : Outcome}
    (h : Sealed kind o p s ∧ (s.shape p).terminated = true) :
    arbitration.wp p (perform .takeParts)
      (fun _ s' => Sealed kind o p s' ∧ (s'.shape p).terminated = true) s := by
  refine wp_op (fun s' hk _ => due_of_silent trivial (h.1.keeps hk).silent)
    fun s' u c s'' r hk _ hexec => ?_
  have h' := h.1.keeps hk
  have hterminated := hk.own.terminated.trans h.2
  cases hexec
  refine ⟨⟨silent_modify h'.silent rfl, ?_, ?_, ?_, ?_⟩, ?_⟩ <;> rw [shape_modify_self]
  · exact h'.kind
  · exact h'.undecided
  · exact h'.entry
  · exact h'.verdict
  · exact hterminated

/-- Reading the frame of an operation between two polls. -/
theorem wp_terminated (h : (∃ note, Open kind note p s) ∨ Closed kind p s) :
    arbitration.wp p (perform .terminated) (fun terminated s' =>
      (terminated = true → Closed kind p s') ∧
      (terminated = false → ∃ note, Open kind note p s')) s := by
  have hkeeps : ∀ s', Keeps p s s' → (∃ note, Open kind note p s') ∨ Closed kind p s' :=
    fun s' hk => h.imp (fun ⟨note, ho⟩ => ⟨note, ho.keeps hk⟩) fun hc => hc.keeps hk
  refine wp_op (fun s' hk _ => ?_) fun s' u c s'' r hk _ hexec => ?_
  · rcases hkeeps s' hk with ⟨note, ho⟩ | hc
    · exact due_of_silent trivial ho.silent
    · exact due_of_silent trivial hc.silent
  · have h' := hkeeps s' hk
    cases hexec
    rcases h' with ⟨note, ho⟩ | hc
    · exact ⟨fun htrue => absurd (ho.terminated.symm.trans htrue) nofun, fun _ => ⟨note, ho⟩⟩
    · exact ⟨fun _ => hc, fun hfalse => absurd (hc.terminated.symm.trans hfalse) nofun⟩

theorem wp_live (h : Open kind note p s) : arbitration.wp p (perform .live)
    (fun live s' => live = true ∧ Open kind note p s') s := by
  refine wp_op (fun s' hk _ => due_of_silent trivial (h.keeps hk).silent)
    fun s' u c s'' r hk _ hexec => ?_
  have h' := h.keeps hk
  cases hexec
  exact ⟨h'.live, h'⟩

theorem wp_oneShot {poll : Prog Outcome} (hs : ∀ q, Sound (s.shape q)) (hkind : kind ≠ .interval)
    (h : (∃ note, Open kind note p s) ∨ Closed kind p s)
    (hpoll : ∀ note s', (∀ q, Sound (s'.shape q)) → Open kind note p s' →
      arbitration.wp p poll (Polled kind waker p) s') :
    arbitration.wp p (oneShot poll) (Returns kind waker p) s := by
  refine arbitration.wp_seq hs (wp_terminated h) fun terminated s₁ hs₁ h₁ => ?_
  cases terminated with
  | true =>
      have hclosed := h₁.1 rfl
      refine arbitration.wp_seq hs₁ (R := fun _ _ => False) ?_ fun impossible => nomatch impossible
      refine wp_op (fun s' hk _ => ?_) fun s' u c s'' r _ _ hexec => by cases hexec
      exact due_of_silent ⟨rfl, (hclosed.keeps hk).terminated⟩ (hclosed.keeps hk).silent
  | false =>
      rcases h₁.2 rfl with ⟨note, hopen⟩
      refine arbitration.wp_seq hs₁ (wp_live hopen) fun live s₂ hs₂ h₂ => ?_
      rcases h₂ with ⟨rfl, h₂⟩
      refine arbitration.wp_seq hs₂ (hpoll note s₂ hs₂ h₂) fun result s₃ hs₃ h₃ => ?_
      split
      · rename_i hpending
        rcases h₃ with hongoing | hsealed
        · exact .inl hongoing
        · -- a sealed result is terminal
          rcases hsealed.verdict with ⟨-, hnatural, -⟩ | ⟨hcancelled, -⟩
          · rw [hpending] at hnatural
            cases hnatural
          · cases hpending.symm.trans hcancelled
      · rename_i hterminal
        have hsealed : Sealed kind result p s₃ := by
          rcases h₃ with ⟨-, hongoing, -⟩ | hsealed
          · rcases hongoing with hpending | ⟨hinterval, -⟩
            · exact absurd hpending hterminal
            · exact absurd hinterval hkind
          · exact hsealed
        refine arbitration.wp_seq hs₃ (wp_terminate hsealed) fun _ s₄ hs₄ h₄ => ?_
        exact arbitration.wp_seq hs₄ (wp_takeParts h₄) fun _ _ _ h₅ => .inr (.inl h₅)

theorem wp_cancelInterval {item : Prog Outcome} (hs : ∀ q, Sound (s.shape q))
    (h : Open .interval note p s)
    (hitem : ∀ s', (∀ q, Sound (s'.shape q)) → Open .interval note p s' →
      Parked waker (s'.shape p) → arbitration.wp p item (Returns .interval waker p) s') :
    arbitration.wp p (cancelInterval waker item) (Returns .interval waker p) s := by
  refine arbitration.wp_seq hs (wp_isCancelled hs h) fun cancelled s₁ hs₁ h₁ => ?_
  cases cancelled with
  | false => exact hitem s₁ hs₁ h₁.1 (h₁.2.2 rfl)
  | true =>
      have hterminate : arbitration.wp p (perform .terminate) (fun _ s' =>
          Armed .interval note true p s' ∧ (s'.shape p).cancelled = true ∧
            (s'.shape p).terminated = true) s₁ := by
        refine wp_op (fun s' hk _ => due_of_silent trivial (h₁.1.keeps hk).silent)
          fun s' u c s'' r hk _ hexec => ?_
        have h' := h₁.1.keeps hk
        have hcancelled := hk.own.cancelled (h₁.2.1 rfl)
        cases hexec
        refine ⟨⟨silent_modify h'.silent rfl, ?_, ?_, ?_, ?_, ?_⟩, ?_, ?_⟩ <;> rw [shape_modify_self]
        · exact h'.kind
        · exact h'.undecided
        · exact h'.entry
        · exact h'.disarmed
        · exact h'.note
        · exact hcancelled
      refine arbitration.wp_seq hs₁ hterminate fun _ s₂ hs₂ h₂ => ?_
      refine arbitration.wp_seq hs₂ (wp_cancelled hs₂ h₂.1 h₂.2.1) fun _ s₃ hs₃ h₃ => ?_
      exact arbitration.wp_seq hs₃ (wp_takeParts ⟨h₃.1, h₃.2.trans h₂.2.2⟩) fun _ _ _ h₄ =>
        .inr (.inl h₄)

theorem wp_pollNext (hs : ∀ q, Sound (s.shape q))
    (h : (∃ note, Open .interval note p s) ∨ Closed .interval p s) :
    arbitration.wp p (pollNext waker) (Returns .interval waker p) s := by
  refine arbitration.wp_seq hs (wp_terminated h) fun terminated s₁ hs₁ h₁ => ?_
  cases terminated with
  | true => exact .inr (.inr ⟨rfl, rfl, h₁.1 rfl⟩)
  | false =>
      rcases h₁.2 rfl with ⟨note, hopen⟩
      refine wp_cancelInterval hs₁ hopen fun s₂ hs₂ h₂ _ => ?_
      refine arbitration.wp_seq hs₂ (wp_live h₂) fun live s₃ hs₃ h₃ => ?_
      rcases h₃ with ⟨rfl, h₃⟩
      have htick : arbitration.wp p (perform .pollTick)
          (fun _ s' => Open .interval note p s') s₃ := by
        refine wp_op (fun s' hk _ => due_of_silent trivial (h₃.keeps hk).silent)
          fun s' u c s'' r hk _ hexec => ?_
        have h' := h₃.keeps hk
        cases hexec
        exact h'
      refine arbitration.wp_seq hs₃ htick fun ready s₄ hs₄ h₄ => ?_
      cases ready with
      | true =>
          exact wp_cancelInterval hs₄ h₄ fun s₅ _ h₅ _ =>
            .inl ⟨⟨note, h₅⟩, .inr ⟨rfl, rfl⟩, nofun⟩
      | false =>
          exact wp_cancelInterval hs₄ h₄ fun s₅ _ h₅ hparked =>
            .inl ⟨⟨note, h₅⟩, .inl rfl, fun _ => hparked⟩

theorem wp_poll (hs : ∀ q, Sound (s.shape q)) (h : Idle kind p s) :
    arbitration.wp p (poll kind waker) (Returns kind waker p) s := by
  have h : (∃ note, Open kind note p s) ∨ Closed kind p s := h.imp_left And.left
  cases kind with
  | timeout => exact wp_oneShot hs nofun h fun _ _ hs' h' => wp_pollTimeout hs' h'
  | sleep => exact wp_oneShot hs nofun h fun _ _ hs' h' => wp_pollSleep hs' h'
  | interval => exact wp_pollNext hs h

end Timer
end CordisCore
