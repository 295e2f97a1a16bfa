import CordisCore.Journal.Accounts

/-!
# Exactness — every routine is entitled to what it does

Who executes a cleanup has claimed its row, and who unregisters by a control
holds the only control for the resource; so the accounts hold in every run in
which no tokenless access finds a resource that is still owed.
-/

namespace CordisCore
namespace Journal

open Interleaving
open Interleaving.Program (Straight)
open CordisCore.Runtime (FiberId PluginKey Token)
open Root (Leaves ServiceControlError)

/-! ## What controls and cleanups take out -/

/-- A control takes out its own resource, and nothing unless it says so. -/
theorem leaves_unregister (s : Root) (control : Control) :
    Leaves control.cleanup.resource s (control.unregister s).1 ∧
      ((control.unregister s).2 ≠ .ok true → Leaves none s (control.unregister s).1) := by
  cases control with
  | publication key occurrence owner cleanup =>
      by_cases hremoved : s.holds key occurrence = true ∧ (s.fibers owner).assertCanRegister = true
      · have hout : Control.unregister s (.publication key occurrence owner cleanup) =
            (s.removeSlot key, .ok true) := by
          simp [Control.unregister, Root.removeExact, hremoved]
        rw [hout]
        exact ⟨Root.leaves_removeSlot hremoved.1, fun hnot => absurd rfl hnot⟩
      · have hsame : (Control.unregister s (.publication key occurrence owner cleanup)).1 = s := by
          by_cases hholds : s.holds key occurrence = true
          · have hclosed : ¬ (s.fibers owner).assertCanRegister = true :=
              fun hopen => hremoved ⟨hholds, hopen⟩
            simp [Control.unregister, Root.removeExact, hholds, hclosed]
          · simp [Control.unregister, Root.removeExact, hholds]
        rw [hsame]
        exact ⟨Leaves.refl _ s, fun _ => Leaves.refl _ s⟩
  | listener event id owner cleanup =>
      have hleaves := Root.leaves_removeListener s event id
      cases hremoved : (s.removeListener event id).2 with
      | false =>
          rw [hremoved] at hleaves
          exact ⟨hleaves.mono (by simp), fun _ => hleaves⟩
      | true =>
          rw [hremoved] at hleaves
          exact ⟨hleaves, fun hnot => absurd (congrArg Except.ok hremoved) hnot⟩
  | update contract id owner cleanup =>
      have hleaves := Root.leaves_removeUpdate s contract id
      cases hremoved : (s.removeUpdate contract id).2 with
      | false =>
          rw [hremoved] at hleaves
          exact ⟨hleaves.mono (by simp), fun _ => hleaves⟩
      | true =>
          rw [hremoved] at hleaves
          exact ⟨hleaves, fun hnot => absurd (congrArg Except.ok hremoved) hnot⟩
  | exporter key =>
      have hleaves := Root.leaves_removeExporter s key
      by_cases hmem : key ∈ s.exporters
      · rw [if_pos hmem] at hleaves
        have hremoved : (Control.unregister s (.exporter key)).2 = .ok true := by
          simp [Control.unregister, Root.removeExporter, hmem]
        exact ⟨hleaves, fun hnot => absurd hremoved hnot⟩
      · rw [if_neg hmem] at hleaves
        exact ⟨hleaves.mono (by simp), fun _ => hleaves⟩
  | effect owner token => exact ⟨Leaves.refl _ s, fun _ => Leaves.refl _ s⟩

theorem leaves_execute (s : Root) (cleanup : Cleanup) :
    Leaves cleanup.resource s (cleanup.execute s) := by
  have hsome : ∀ {b : Bool} {id id' : ResourceId},
      (if b then some id else none) = some id' → some id = some id' := by
    intro b id id' h
    cases b with
    | false => cases h
    | true => exact h
  cases cleanup with
  | withdrawExact key occurrence => exact Root.leaves_withdrawExact s key occurrence
  | removeListener event id => exact (Root.leaves_removeListener s event id).mono fun _ => hsome
  | removeUpdate contract id => exact (Root.leaves_removeUpdate s contract id).mono fun _ => hsome
  | removeExporter key =>
      refine (Root.leaves_removeExporter s key).mono fun id h => ?_
      split at h
      · exact h
      · cases h
  | removeObserver id => exact Root.leaves_removeObserver s id
  | effect => exact Leaves.refl _ s

/-! ## One operation -/

section Step

variable {p : Party} {op : Op} {s s' : Root} {r : op.Ret}

/-- Every operation of an entitled party keeps the accounts. -/
theorem exec_keeps (hs : Accounts s) (hentitled : Entitled p op s)
    (hok : remembers p () op s) (h : exec p op s = some (s', r)) : Keeps p s s' := by
  cases op with
  | pushGated f step =>
      simp only [exec, Option.some.injEq] at h
      have hout : (s.pushGated f step).1 = s' := congrArg Prod.fst h
      exact hout ▸ (hs.pushGated hentitled hok).1
  | deliver control =>
      cases h
      refine ⟨⟨hs.known, hs.sole, hs.keyed, hs.below, fun {_ _ cleanup} hrow => ?_,
        fun held hheld => ?_⟩, .same rfl rfl, fun _ _ => rfl⟩
      · have hsame : { s with controls := control :: s.controls }.registered cleanup =
            s.registered cleanup := by
          cases cleanup <;> rfl
        rw [hsame]
        exact hs.covered hrow
      · have hlater : Later s { s with controls := control :: s.controls } := .same rfl rfl
        rcases List.mem_cons.mp hheld with rfl | hheld
        · exact hentitled.2.later hlater
        · exact (hs.bound held hheld).later hlater
  | unregister control =>
      have hleaves := leaves_unregister s control
      simp only [exec] at h
      split at h
      · rename_i hremoved
        cases h
        cases hposition : control.token with
        | some position => exact hposition ▸ hs.unregister hleaves.1 hentitled.2 hposition hentitled.1
        | none =>
            -- only the control of an exporter has no token
            cases control <;> cases hposition
            rename_i key
            have hmem : key ∈ s.exporters := by
              simpa [Control.unregister, Root.removeExporter] using hremoved
            have hkept : Keeps p s (Control.unregister s (.exporter key)).1 :=
              hs.leaves hleaves.1 hentitled.1 fun id hid => by
                cases hid
                exact hok key (if_pos hmem)
            have hidle : (Control.unregister s (.exporter key)).1.owe p none =
                (Control.unregister s (.exporter key)).1 := by
              have hself : s.removing p = none := hentitled.1
              have hsame : (fun q => if q = p then none else s.removing q) = s.removing := by
                funext q
                split
                · rename_i heq
                  rw [heq, hself]
                · rfl
              simp only [Root.owe, Control.unregister, Root.removeExporter, hsame]
            show Keeps p s ((Control.unregister s (.exporter key)).1.owe p none)
            rw [hidle]
            exact hkept
      · rename_i hkeeps
        cases h
        have hnone : (control.unregister s).2 ≠ .ok true := fun heq => hkeeps heq
        exact hs.leaves (hleaves.2 hnone) hentitled.1 (by simp)
  | removeDisposable f token =>
      cases h
      exact hs.removeDisposable hentitled
  | execute cleanup =>
      cases h
      exact hs.leaves (leaves_execute s cleanup) hentitled.1 fun id hid => (hentitled.2 id hid).unowed
  | claimListener event id =>
      cases h
      exact hs.leaves (Root.leaves_claimListener s event id) hentitled hok
  | claimUpdate contract id =>
      cases h
      exact hs.leaves (Root.leaves_claimUpdate s contract id) hentitled hok
  | setGate f isOpen =>
      cases h
      exact hs.flags rfl rfl
  | die f =>
      cases h
      exact hs.flags rfl rfl
  | tokens f | reported | call id =>
      cases h
      exact .refl hs

/-- Only an unregistration by a control leaves a token at hand. -/
theorem exec_idle (hentitled : Entitled p op s) (hop : ∀ control, op ≠ .unregister control)
    (h : exec p op s = some (s', r)) : s'.removing p = none := by
  cases op with
  | unregister control => exact absurd rfl (hop control)
  | removeDisposable f token =>
      cases h
      simp [Root.owe]
  | deliver control =>
      cases h
      exact hentitled.1
  | execute cleanup =>
      cases h
      rw [(leaves_execute s cleanup).removing]
      exact hentitled.1
  | pushGated f step =>
      simp only [exec, Option.some.injEq] at h
      have hout : (s.pushGated f step).1 = s' := congrArg Prod.fst h
      have hremoving : (s.pushGated f step).1.removing = s.removing := by
        unfold Root.pushGated
        split
        · rcases hpublish : { s with nextId := s.nextId + 1 }.publish f s.nextId step with ⟨s₁, out⟩
          have hspec := (Root.publish_spec hpublish).1.removing
          cases out <;> simp only [hpublish] <;> exact hspec
        · rfl
      rw [← hout, hremoving]
      exact hentitled
  | claimListener event id | claimUpdate contract id | setGate f isOpen | die f | tokens f
  | reported | call id =>
      cases h
      exact hentitled

end Step

/-! ## The logic -/

def accounting : Logic machine remembers where
  inv := Accounts
  rely p s s' := Later s s' ∧ s'.removing p = s.removing p
  blank p s := s.removing p = none
  pre routine p s := s.removing p = none ∧ ∀ control, routine = .consume control → Bound s control
  post p _ s := s.removing p = none
  check := Entitled
  rely_refl _ s := ⟨.refl s, rfl⟩
  rely_trans h h' := ⟨h.1.trans h'.1, h'.2.trans h.2⟩
  blank_rely h h' := h'.2.trans h
  post_rely h h' := h'.2.trans h

section Rules

variable {p : Party} {s : Root}

/-- An entitled party keeps the accounts. -/
theorem wp_perform {op : Op} {Q : op.Ret → Root → Prop} (h : Entitled p op s)
    (hQ : ∀ s₁ s' r, Later s s₁ → Accounts s₁ → Entitled p op s₁ → remembers p () op s₁ →
      exec p op s₁ = some (s', r) → Later s₁ s' → Q r s') :
    accounting.wp p (perform op) Q s := by
  refine accounting.wp_perform fun s₁ hr hs₁ => ?_
  have hentitled : Entitled p op s₁ := h.later hr.1 hr.2
  refine ⟨hentitled, Logic.Performs.of_step rfl ?_, ?_⟩
  · intro q c s' r hok _ hexec
    have hexec' : exec p op s₁ = some (s', r) := hexec
    have hkeeps := exec_keeps hs₁ hentitled hok hexec'
    exact ⟨hkeeps.accounts, fun t ht => ⟨hkeeps.later, hkeeps.removing t ht⟩,
      hQ s₁ s' r hr.1 hs₁ hentitled hok hexec' hkeeps.later⟩
  · intro hawaits _ s' next hdrop
    have hgone : s₁ = s' ∧ (none : Option Routine) = next := by
      simpa [machine] using hdrop
    rcases hgone with ⟨rfl, rfl⟩
    refine ⟨hs₁, fun t _ => accounting.rely_refl t s₁, ?_⟩
    cases op <;> first | exact hentitled | cases hawaits

/-- The operations that leave no token at hand. -/
theorem wp_idle {op : Op} (h : Entitled p op s) (hop : ∀ control, op ≠ .unregister control) :
    accounting.wp p (perform op) (fun _ s' => s'.removing p = none ∧ Later s s') s :=
  wp_perform h fun _ _ _ hl _ hentitled _ hexec hl' =>
    ⟨exec_idle hentitled hop hexec, hl.trans hl'⟩

/-- A claimed row is owed to nobody any more. -/
theorem wp_removeDisposable {f : FiberId} {token : Token}
    (h : Entitled p (.removeDisposable f token) s) :
    accounting.wp p (perform (.removeDisposable f token)) (fun out s' => s'.removing p = none ∧
      ∀ cleanup, out = some cleanup → ∀ id, cleanup.resource = some id → Gone s' id) s := by
  refine wp_perform h fun s₁ s' r _ hs₁ hentitled _ hexec _ => ?_
  refine ⟨exec_idle hentitled nofun hexec, fun cleanup hout id hid => ?_⟩
  cases hexec
  have hgone := hs₁.claimed hout hid
  exact hgone.later ⟨Nat.le_refl _, fun hrow => .inl hrow⟩

/-- A control that took its resource out has its token at hand. -/
theorem wp_unregister {control : Control} (h : s.removing p = none) (hb : Bound s control) :
    accounting.wp p (perform (.unregister control)) (fun out s' =>
      (∀ error, out = .error error → s'.removing p = none) ∧
        (s'.removing p = none ∨ s'.removing p = control.token)) s := by
  have hentitled : Entitled p (.unregister control) s := ⟨h, hb⟩
  refine wp_perform hentitled fun s₁ s' r _ _ hentitled _ hexec _ => ?_
  have hkept := (leaves_unregister s₁ control).1.removing
  simp only [exec] at hexec
  split at hexec
  · cases hexec
    exact ⟨nofun, .inr (by simp [Root.owe])⟩
  · cases hexec
    have hidle : (control.unregister s₁).1.removing p = none := by
      rw [hkept]
      exact hentitled.1
    exact ⟨fun _ _ => hidle, .inl hidle⟩

/-- A cleanup whose row was claimed is executed, and its report awaited. -/
theorem wp_execute {cleanup : Cleanup} {x : Prog Unit} {Q : Unit → Root → Prop}
    (hs : Accounts s) (h : s.removing p = none)
    (hgone : ∀ id, cleanup.resource = some id → Gone s id)
    (hx : ∀ s', Accounts s' → s'.removing p = none → accounting.wp p x Q s') :
    accounting.wp p (do
      perform (.execute cleanup)
      perform .reported
      x) Q s := by
  refine accounting.wp_seq hs (wp_idle ⟨h, hgone⟩ nofun) fun _ s₁ hs₁ h₁ => ?_
  exact accounting.wp_seq hs₁ (wp_idle h₁.1 nofun) fun _ s₂ hs₂ h₂ => hx s₂ hs₂ h₂.1

end Rules

/-! ## The routines -/

section Routines

variable {p : Party} {s : Root}

theorem wp_register {f : FiberId} {step : PublishStep} (hs : Accounts s)
    (h : s.removing p = none) :
    accounting.wp p (register f step) (fun _ s' => s'.removing p = none) s := by
  refine accounting.wp_seq (R := fun out s' => s'.removing p = none ∧ ∀ committed control,
    out = .ok committed → controlOf f committed = some control → Bound s' control) hs ?_ ?_
  · refine wp_perform h fun s₁ s' r _ hs₁ hentitled hok hexec _ => ?_
    refine ⟨exec_idle hentitled nofun hexec, fun committed control hout hcontrol => ?_⟩
    simp only [exec, Option.some.injEq] at hexec
    have hstate : (s₁.pushGated f step).1 = s' := congrArg Prod.fst hexec
    have hanswer : (s₁.pushGated f step).2 = .ok committed := (congrArg Prod.snd hexec).trans hout
    exact hstate ▸ (hs₁.pushGated hentitled hok).2 hanswer hcontrol
  · rintro out s₁ hs₁ ⟨hidle, hbound⟩
    cases out with
    | error error => exact hidle
    | ok committed =>
        dsimp only
        cases hcontrol : controlOf f committed with
        | none => exact hidle
        | some control =>
            have hb := hbound committed control rfl hcontrol
            exact accounting.wp_seq hs₁ (wp_idle ⟨hidle, hb⟩ nofun) fun _ _ _ h₂ => h₂.1

theorem wp_removePublication {control : Control} {owner : FiberId} {cleanup : Token}
    (htoken : control.token = some (owner, cleanup)) (hs : Accounts s)
    (h : s.removing p = none) (hb : Bound s control) :
    accounting.wp p (removePublication control owner cleanup)
      (fun _ s' => s'.removing p = none) s := by
  refine accounting.wp_seq hs (wp_unregister h hb) ?_
  rintro out s₁ hs₁ ⟨herror, hidle⟩
  cases out with
  | error error => exact herror error rfl
  | ok removed =>
      rw [htoken] at hidle
      exact accounting.wp_seq hs₁ (wp_removeDisposable hidle) fun _ _ _ h₂ => h₂.1

theorem wp_removeRegistration {control : Control} {owner : FiberId} {cleanup : Token}
    (htoken : control.token = some (owner, cleanup)) (hs : Accounts s)
    (h : s.removing p = none) (hb : Bound s control) :
    accounting.wp p (removeRegistration control owner cleanup)
      (fun _ s' => s'.removing p = none) s := by
  refine accounting.wp_seq hs (wp_unregister h hb) ?_
  rintro out s₁ hs₁ ⟨-, hidle⟩
  rw [htoken] at hidle
  exact accounting.wp_seq hs₁ (wp_removeDisposable hidle) fun _ _ _ h₂ => h₂.1

theorem wp_disposeEffect {owner : FiberId} {token : Token} (hs : Accounts s)
    (h : s.removing p = none) :
    accounting.wp p (disposeEffect owner token) (fun _ s' => s'.removing p = none) s := by
  refine accounting.wp_seq hs (wp_removeDisposable (.inl h)) ?_
  rintro out s₁ hs₁ ⟨hidle, hgone⟩
  cases out with
  | none => exact hidle
  | some cleanup =>
      refine accounting.wp_seq hs₁ (wp_idle ⟨hidle, hgone cleanup rfl⟩ nofun) ?_
      intro _ s₂ hs₂ h₂
      exact accounting.wp_seq hs₂ (wp_idle h₂.1 nofun) fun _ _ _ h₃ => h₃.1

theorem wp_consume {control : Control} (hs : Accounts s) (h : s.removing p = none)
    (hb : Bound s control) :
    accounting.wp p (consume control) (fun _ s' => s'.removing p = none) s := by
  cases control with
  | publication key occurrence owner cleanup => exact wp_removePublication rfl hs h hb
  | listener event id owner cleanup => exact wp_removeRegistration rfl hs h hb
  | update contract id owner cleanup => exact wp_removeRegistration rfl hs h hb
  | exporter key =>
      refine accounting.wp_mono hs (wp_unregister h hb) ?_
      rintro _ s' _ ⟨-, hnone | hnone⟩ <;> exact hnone
  | effect owner token => exact wp_disposeEffect hs h

theorem wp_dispatch {event : String} {ids : List ResourceId} (hs : Accounts s)
    (h : s.removing p = none) :
    accounting.wp p (dispatch event ids) (fun _ s' => s'.removing p = none) s := by
  induction ids generalizing s with
  | nil => exact h
  | cons id ids ih =>
      refine accounting.wp_seq hs (wp_idle h nofun) ?_
      rintro ⟨claimed, unregistered⟩ s₁ hs₁ h₁
      cases claimed with
      | true => exact accounting.wp_seq hs₁ (wp_idle h₁.1 nofun) fun _ s₂ hs₂ h₂ => ih hs₂ h₂.1
      | false => exact ih hs₁ h₁.1

theorem wp_control {contract : PluginKey} {ids : List ResourceId} (hs : Accounts s)
    (h : s.removing p = none) :
    accounting.wp p (control contract ids) (fun _ s' => s'.removing p = none) s := by
  induction ids generalizing s with
  | nil => exact h
  | cons id ids ih =>
      refine accounting.wp_seq hs (wp_idle h nofun) ?_
      intro claimed s₁ hs₁ h₁
      cases claimed with
      | true => exact accounting.wp_seq hs₁ (wp_idle h₁.1 nofun) fun _ s₂ hs₂ h₂ => ih hs₂ h₂.1
      | false => exact ih hs₁ h₁.1

theorem wp_runTokens {f : FiberId} {tokens : List Token} (hs : Accounts s)
    (h : s.removing p = none) :
    accounting.wp p (runTokens f tokens) (fun _ s' => s'.removing p = none) s := by
  induction tokens generalizing s with
  | nil => exact h
  | cons token tokens ih =>
      refine accounting.wp_seq hs (wp_removeDisposable (.inl h)) ?_
      rintro out s₁ hs₁ ⟨hidle, hgone⟩
      cases out with
      | none => exact ih hs₁ hidle
      | some cleanup => exact wp_execute hs₁ hidle (hgone cleanup rfl) fun s₂ hs₂ h₂ => ih hs₂ h₂

theorem wp_body (routine : Routine) (hs : Accounts s) (h : accounting.pre routine p s) :
    accounting.wp p (body routine) (fun _ s' => s'.removing p = none) s := by
  cases routine with
  | register f step => exact accounting.wp_seq hs (wp_register hs h.1) fun _ _ _ h₁ => h₁
  | consume control =>
      exact accounting.wp_seq hs (wp_consume hs h.1 (h.2 control rfl)) fun _ _ _ h₁ => h₁
  | disarm owner token =>
      refine accounting.wp_seq hs (R := fun _ s' => s'.removing p = none) ?_ fun _ _ _ h₁ => h₁
      exact accounting.wp_seq hs (wp_removeDisposable (.inl h.1)) fun _ _ _ h₁ => h₁.1
  | dispatch event ids => exact accounting.wp_seq hs (wp_dispatch hs h.1) fun _ _ _ h₁ => h₁
  | control contract ids => exact accounting.wp_seq hs (wp_control hs h.1) fun _ _ _ h₁ => h₁
  | drain f =>
      refine accounting.wp_seq hs (R := fun _ s' => s'.removing p = none) ?_ fun _ _ _ h₁ => h₁
      exact accounting.wp_seq hs (wp_idle h.1 nofun) fun _ s₁ hs₁ h₁ => wp_runTokens hs₁ h₁.1
  | setGate f isOpen => exact accounting.wp_seq hs (wp_idle h.1 nofun) fun _ _ _ h₁ => h₁.1
  | die f => exact accounting.wp_seq hs (wp_idle h.1 nofun) fun _ _ _ h₁ => h₁.1

end Routines

theorem accounting_verified : accounting.Verified where
  grounded _ := fun _ => trivial
  init := by
    have hblank : ∀ {f token cleanup}, ¬ Row machine.init f token cleanup := fun h => nomatch h
    exact ⟨fun h => absurd h hblank, fun h => absurd h hblank, fun _ => List.nodup_nil,
      fun h => absurd h hblank, fun h => absurd h hblank, fun _ h => nomatch h⟩
  vacant _ := rfl
  body routine _ _ hs h := wp_body routine hs h
  enter p routine s s' hs h henter := by
    have hgiven : ∀ {control : Control} {s₁ : Root},
        s₁ = { s with controls := s.controls.erase control } → Accounts s₁ ∧ Later s s₁ := by
      rintro control s₁ rfl
      have hlater : Later s { s with controls := s.controls.erase control } := .same rfl rfl
      refine ⟨⟨hs.known, hs.sole, hs.keyed, hs.below, fun {_ _ cleanup} hrow => ?_,
        fun held hheld => (hs.bound held (List.mem_of_mem_erase hheld)).later hlater⟩, hlater⟩
      have hsame : { s with controls := s.controls.erase control }.registered cleanup =
          s.registered cleanup := by
        cases cleanup <;> rfl
      rw [hsame]
      exact hs.covered hrow
    cases routine with
    | consume control =>
        simp only [machine, enter, Option.ite_none_right_eq_some, Option.some.injEq] at henter
        have hnew := hgiven henter.2.symm
        refine ⟨hnew.1, fun t _ => ⟨hnew.2, by rw [← henter.2]⟩, ?_, fun control' heq => ?_⟩
        · rw [← henter.2]
          exact h
        · cases heq
          exact (hs.bound control henter.1).later hnew.2
    | disarm owner token =>
        simp only [machine, enter, Option.ite_none_right_eq_some, Option.some.injEq] at henter
        have hnew := hgiven henter.2.symm
        refine ⟨hnew.1, fun t _ => ⟨hnew.2, by rw [← henter.2]⟩, ?_, nofun⟩
        rw [← henter.2]
        exact h
    | register f step | dispatch event ids | control contract ids | drain f | setGate f isOpen
    | die f =>
        cases henter
        exact ⟨hs, fun t _ => accounting.rely_refl t s, h, nofun⟩

/-! ## Loop-freedom -/

theorem straight_body (routine : Routine) : (body routine).Straight := by
  -- the three loops run over lists, so each is straight by induction
  have hclaim : ∀ event ids, (dispatch event ids).Straight := by
    intro event ids
    induction ids with
    | nil => exact .pure _
    | cons id ids ih =>
        refine .bind (.perform _) fun ⟨claimed, _⟩ => ?_
        cases claimed with
        | true => exact .bind (.perform _) fun _ => ih
        | false => exact ih
  have hcontrol : ∀ contract ids, (control contract ids).Straight := by
    intro contract ids
    induction ids with
    | nil => exact .pure _
    | cons id ids ih =>
        refine .bind (.perform _) fun claimed => ?_
        cases claimed with
        | true => exact .bind (.perform _) fun _ => ih
        | false => exact ih
  have htokens : ∀ f tokens, (runTokens f tokens).Straight := by
    intro f tokens
    induction tokens with
    | nil => exact .pure _
    | cons token tokens ih =>
        refine .bind (.perform _) fun out => ?_
        cases out with
        | some cleanup => exact .bind (.perform _) fun _ => .bind (.perform _) fun _ => ih
        | none => exact ih
  have hregistration : ∀ control owner cleanup,
      (removeRegistration control owner cleanup).Straight := fun _ _ _ =>
    .bind (.perform _) fun _ => .bind (.perform _) fun _ => .pure _
  cases routine with
  | register f step =>
      refine .map _ (.bind (.perform _) fun out => ?_)
      cases out with
      | error error => exact .pure _
      | ok committed =>
          dsimp only
          cases controlOf f committed with
          | some control => exact .bind (.perform _) fun _ => .pure _
          | none => exact .pure _
  | consume control =>
      refine .map _ ?_
      cases control with
      | publication key occurrence owner cleanup =>
          refine .bind (.perform _) fun out => ?_
          cases out with
          | error error => exact .pure _
          | ok removed => exact .bind (.perform _) fun _ => .pure _
      | listener event id owner cleanup => exact hregistration _ _ _
      | update contract id owner cleanup => exact hregistration _ _ _
      | exporter key => exact .perform _
      | effect owner token =>
          refine .bind (.perform _) fun out => ?_
          cases out with
          | none => exact .pure _
          | some cleanup => exact .bind (.perform _) fun _ => .bind (.perform _) fun _ => .pure _
  | disarm owner token => exact .map _ (.bind (.perform _) fun _ => .pure _)
  | dispatch event ids => exact .map _ (hclaim event ids)
  | control contract ids => exact .map _ (hcontrol contract ids)
  | drain f => exact .map _ (.bind (.perform _) fun tokens => htokens f tokens.reverse)
  | setGate f isOpen => exact .map _ (.perform _)
  | die f => exact .map _ (.perform _)

/-! ## The journals -/

/-- A party is about to claim this journal row. -/
def Claiming (c : State) (f : FiberId) (token : Token) : Prop :=
  ∃ p next, c.pool p = some (.act (.removeDisposable f token) next)

/-- The rows of a journal that are about a resource of some store. -/
def obligations (s : Root) (f : FiberId) : List (Token × Cleanup) :=
  (s.fibers f).disposables.filter fun row => row.2.resource.isSome

/-- What the journals of a state are allowed to hold. -/
structure Exact (c : State) : Prop where
  /-- What an obligation is about is in its store, or the obligation is being claimed. -/
  registered : ∀ {f token cleanup}, Row c.shared f token cleanup →
    c.shared.registered cleanup = true ∨ Claiming c f token
  /-- A journal is no longer than what is registered and what is being claimed. -/
  bounded : ∀ (f : FiberId) (stored : List Cleanup) (claimed : List Token),
    (∀ cleanup, c.shared.registered cleanup = true → cleanup.resource.isSome = true →
      cleanup ∈ stored) → (∀ token, Claiming c f token → token ∈ claimed) →
    (obligations c.shared f).length ≤ stored.length + claimed.length

theorem claiming_of_removing {c : State} (h : Reachable remembers c) {p : Party} {f : FiberId}
    {token : Token} (hp : c.shared.removing p = some (f, token)) : Claiming c f token := by
  cases hpool : c.pool p with
  | none =>
      have hidle : c.shared.removing p = none := (Logic.sound accounting_verified h).vacant p hpool
      exact nomatch hidle.symm.trans hp
  | some x =>
      cases x with
      | pure answer =>
          have hidle : c.shared.removing p = none :=
            Logic.post_of_reachable accounting_verified h hpool
          exact nomatch hidle.symm.trans hp
      | loop body start next =>
          exact (Machine.straight_of_reachable straight_body h hpool).elim
      | act op next =>
          have hcheck : Entitled p op c.shared := Logic.check_of_reachable accounting_verified h hpool
          have hbusy : c.shared.removing p ≠ none := fun hidle => nomatch hidle.symm.trans hp
          cases op with
          | removeDisposable g token' =>
              rcases hcheck with hidle | hself
              · exact absurd hidle hbusy
              · cases Option.some.inj (hself.symm.trans hp)
                exact ⟨p, next, hpool⟩
          | execute cleanup | unregister control | deliver control => exact absurd hcheck.1 hbusy
          | pushGated g step | tokens g | reported | claimListener event id
          | claimUpdate contract id | call id | setGate g isOpen | die g =>
              exact absurd hcheck hbusy

/-- While no tokenless access finds a resource that is still owed, the journals are exact. -/
theorem journals_exact {c : State} (h : Reachable remembers c) : Exact c := by
  have hs : Accounts c.shared := Logic.inv_of_reachable accounting_verified h
  have hregistered : ∀ {f token cleanup}, Row c.shared f token cleanup →
      c.shared.registered cleanup = true ∨ Claiming c f token := by
    intro f token cleanup hrow
    rcases hs.covered hrow with hkept | ⟨p, hp⟩
    · exact .inl hkept
    · exact .inr (claiming_of_removing h hp)
  refine ⟨hregistered, fun f stored claimed hstored hclaimed => ?_⟩
  have hkeyed : ((obligations c.shared f).map Prod.fst).Nodup :=
    (hs.keyed f).sublist (List.filter_sublist.map _)
  have hrow : ∀ row ∈ obligations c.shared f,
      Row c.shared f row.1 row.2 ∧ row.2.resource.isSome = true :=
    fun row hmem => ⟨List.mem_of_mem_filter hmem, (List.mem_filter.mp hmem).2⟩
  -- the rows whose resources are registered are told apart by these resources
  let kept := (obligations c.shared f).filter fun row => c.shared.registered row.2
  let lost := (obligations c.shared f).filter fun row => !c.shared.registered row.2
  have hkept : (kept.map Prod.snd).Nodup := by
    refine List.Nodup.map_on ?_ ((List.Nodup.of_map _ hkeyed).filter _)
    intro a ha b hb heq
    have hrowa := hrow a (List.mem_of_mem_filter ha)
    have hrowb := hrow b (List.mem_of_mem_filter hb)
    rcases Option.isSome_iff_exists.mp hrowa.2 with ⟨id, hid⟩
    have htoken := (hs.sole hrowa.1 hrowb.1 hid (heq ▸ hid)).2
    exact Prod.ext htoken heq
  have hkeptlen : kept.length ≤ stored.length := by
    have hsub : kept.map Prod.snd ⊆ stored := by
      intro cleanup hmem
      rcases List.mem_map.mp hmem with ⟨row, hin, rfl⟩
      have hmem' := List.mem_filter.mp hin
      exact hstored row.2 hmem'.2 (hrow row hmem'.1).2
    simpa using (hkept.subperm hsub).length_le
  have hlostlen : lost.length ≤ claimed.length := by
    have hnodup : (lost.map Prod.fst).Nodup := hkeyed.sublist (List.filter_sublist.map _)
    have hsub : lost.map Prod.fst ⊆ claimed := by
      intro token hmem
      rcases List.mem_map.mp hmem with ⟨row, hin, rfl⟩
      have hmem' := List.mem_filter.mp hin
      rcases hregistered (hrow row hmem'.1).1 with hkept | hclaiming
      · simp [hkept] at hmem'
      · exact hclaimed row.1 hclaiming
    simpa using (hnodup.subperm hsub).length_le
  have hsplit : (obligations c.shared f).length = kept.length + lost.length :=
    List.length_eq_length_filter_add _
  omega

/-! ## Runs -/

abbrev Step := Label Routine Unit

/-- A stretch of steps of one party. -/
def turns (self : Party) (n : Nat) : List Step :=
  List.replicate n (.step self 0 ())

/-- The state at the end of a schedule that is enabled and meets the condition throughout. -/
def after (ok? : Party → Unit → Op → Root → Bool) (schedule : List Step)
    (enabled : (machine.run ok? schedule machine.start).isSome = true) : State :=
  (machine.run ok? schedule machine.start).get enabled

theorem run_after (ok? : Party → Unit → Op → Root → Bool) (schedule : List Step)
    (enabled : (machine.run ok? schedule machine.start).isSome = true) :
    machine.run ok? schedule machine.start = some (after ok? schedule enabled) :=
  (Option.some_get enabled).symm

theorem reachable_after {ok : Condition} {ok? : Party → Unit → Op → Root → Bool}
    (h : ∀ p c op s, ok? p c op s = true → ok p c op s) (schedule : List Step)
    (enabled : (machine.run ok? schedule machine.start).isSome = true) :
    Reachable ok (after ok? schedule enabled) :=
  Machine.Reachable.of_run machine h schedule Machine.Reachable.start (run_after ok? schedule enabled)

/-- Nothing is taken out without a token. -/
def forgetsNothing : Party → Unit → Op → Root → Bool :=
  fun _ _ op s => (forgets op s).isNone

theorem remembers_of_forgetsNothing (p : Party) (c : Unit) (op : Op) (s : Root)
    (h : forgetsNothing p c op s = true) : remembers p c op s := by
  intro id hid
  rw [forgetsNothing, hid] at h
  cases h

/-- The root fiber opens its generation and registers one listener. -/
def registered (options : Events.ListenerOptions) : List Step :=
  [.enter 1 (.setGate 0 true)] ++ turns 1 1 ++
    [.enter 2 (.register 0
      (.listener { NAME := "tick", contract := ⟨0, 0⟩ } [] (.plain .observer) options))] ++ turns 2 2

/-- Its control has unregistered the listener, and not claimed the row yet. -/
def halfRemoved : List Step :=
  registered {} ++ [.enter 3 (.consume (.listener "tick" 0 0 1))] ++ turns 3 1

theorem journals_exact_halfRemoved :
    Exact (after forgetsNothing halfRemoved (by decide +kernel)) :=
  journals_exact (reachable_after remembers_of_forgetsNothing halfRemoved _)

/-- A dispatch claims and calls a once listener. -/
def dispatchedOnce : List Step :=
  registered { once := true } ++ [.enter 3 (.dispatch "tick" [0])] ++ turns 3 2

/-- Everybody is done. -/
def dispatched : State :=
  after (fun _ _ _ _ => true) dispatchedOnce (by decide +kernel)

/-- The listener is gone; its row stays in the journal of the root fiber. -/
theorem not_exact_dispatched : Reachable Machine.anyRun dispatched ∧ ¬ Exact dispatched := by
  refine ⟨reachable_after (fun _ _ _ _ _ => trivial) dispatchedOnce _, fun h => ?_⟩
  have hrow : Row dispatched.shared 0 1 (.removeListener "tick" 0) := by
    unfold Row
    decide +kernel
  have hgone : dispatched.shared.registered (.removeListener "tick" 0) = false := by
    decide +kernel
  have hdone : ∀ q ∈ dispatchedOnce.flatMap Machine.parties,
      ((dispatched.pool q).bind Program.head).isNone = true := by
    decide +kernel
  rcases h.registered hrow with hkept | ⟨p, next, hp⟩
  · exact nomatch hgone.symm.trans hkept
  · by_cases hnamed : p ∈ dispatchedOnce.flatMap Machine.parties
    · have hhead := hdone p hnamed
      rw [hp] at hhead
      cases hhead
    · have hpool : dispatched.pool p = none :=
        Machine.pool_of_run machine dispatchedOnce (run_after _ dispatchedOnce _) hnamed
      exact nomatch hpool.symm.trans hp

end Journal
end CordisCore
