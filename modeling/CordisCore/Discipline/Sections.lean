import CordisCore.Discipline.Logic
import CordisCore.Fiber.Blocks

/-!
# Sections — the blocks of service control keep to the discipline
-/

namespace CordisCore
namespace Runtime
namespace Discipline

open Interleaving

variable {p : Party} {f : FiberId} {s : Root}

/-! ## The locks of a party -/

/-- The locks that a party counts on at a point of its program. -/
structure Locks where
  store : Bool := false
  journal : Option FiberId := none
  gate : Option FiberId := none

/-- The party has these locks. -/
structure Has (p : Party) (l : Locks) (s : Root) : Prop where
  store : l.store = true → InSection p s
  journal : ∀ f, l.journal = some f → (s.fibers f).disposablesLock = some p
  gate : ∀ f, l.gate = some f → (s.fibers f).mutationGate = some p

/-- The operation leaves these locks alone. -/
def Locks.survives (l : Locks) : Op → Bool
  | .unlockStore => !l.store
  | .on f .unlockDisposables => l.journal ≠ some f
  | .on f .unlockGate => l.gate ≠ some f
  | _ => true

theorem Has.none (p : Party) (s : Root) : Has p {} s :=
  ⟨nofun, nofun, nofun⟩

theorem Has.mono {l l' : Locks} (h : Has p l s) (hs : l'.store = true → l.store = true)
    (hj : ∀ f, l'.journal = some f → l.journal = some f)
    (hg : ∀ f, l'.gate = some f → l.gate = some f) : Has p l' s :=
  ⟨fun hl => h.store (hs hl), fun f hl => h.journal f (hj f hl), fun f hl => h.gate f (hg f hl)⟩

theorem Has.locked {l : Locks} {s' : Root} (h : Has p l s) (hl : Locked p s s') : Has p l s' :=
  ⟨fun hs => hl.store (h.store hs), fun f hf => hl.journal f (h.journal f hf),
    fun f hf => hl.gate f (h.gate f hf)⟩

theorem Has.exec {l : Locks} {q : Party} {c : Choice} {op : Op} {s' : Root} {r : op.Ret}
    (h : Has p l s) (hf : Fresh s) (hop : l.survives op = true)
    (hexec : exec p q c op s = some (s', r)) : Has p l s' where
  store hs := exec_inSection hexec (fun hop' => by
    subst hop'
    rw [Locks.survives, hs] at hop
    cases hop) (h.store hs)
  journal g hg := exec_journal hf hexec (fun hop' => by
    subst hop'
    rw [Locks.survives, hg] at hop
    simp at hop) (h.journal g hg)
  gate g hg := exec_gate hf hexec (fun hop' => by
    subst hop'
    rw [Locks.survives, hg] at hop
    simp at hop) (h.gate g hg)

/-! ## One operation -/

variable {l : Locks}

/-- The operation needs nothing, or what the party has. -/
theorem wp_keep {op : Op} (hl : Has p l s) (hop : l.survives op = true)
    (h : Disciplined p op s) :
    discipline.wp p (perform op) (fun _ s' => Has p l s' ∧ Ages s s') s :=
  wp_disciplined h fun _ _ _ _ _ hlocked _ hfresh _ hexec hages =>
    ⟨(hl.locked hlocked).exec hfresh hop hexec, hages⟩

/-- An operation that needs nothing. -/
def easy (op : Op) : Bool :=
  !needsSection op && (needsJournal op).isNone && (needsGate op).isNone &&
    (needsIndex op).isNone && !revives op

theorem disciplined_of_easy {op : Op} (h : easy op = true) : Disciplined p op s := by
  simp only [easy, Bool.and_eq_true, Bool.not_eq_true', Option.isNone_iff_eq_none] at h
  rcases h with ⟨⟨⟨⟨hs, hj⟩, hg⟩, hi⟩, hr⟩
  refine {
    store := fun h => ?store
    journal := fun f h => ?journal
    gate := fun f h => ?gate
    index := fun f h => ?index
    dead := hr }
  case store =>
    rw [hs] at h
    cases h
  case journal =>
    rw [hj] at h
    cases h
  case gate =>
    rw [hg] at h
    cases h
  case index =>
    rw [hi] at h
    cases h

theorem wp_easy {op : Op} (hl : Has p l s) (hop : (l.survives op && easy op) = true) :
    discipline.wp p (perform op) (fun _ s' => Has p l s' ∧ Ages s s') s := by
  rw [Bool.and_eq_true] at hop
  exact wp_keep hl hop.1 (disciplined_of_easy hop.2)

/-- An operation of the ServiceStore section. -/
theorem disciplined_store {op : Op} (hs : InSection p s)
    (h : (needsJournal op).isNone && (needsGate op).isNone && (needsIndex op).isNone &&
      !revives op) : Disciplined p op s := by
  simp only [Bool.and_eq_true, Bool.not_eq_true', Option.isNone_iff_eq_none] at h
  rcases h with ⟨⟨⟨hj, hg⟩, hi⟩, hr⟩
  refine ⟨fun _ => hs, fun f h => ?_, fun f h => ?_, fun f h => ?_, hr⟩
  · rw [hj] at h
    cases h
  · rw [hg] at h
    cases h
  · rw [hi] at h
    cases h

theorem wp_store {op : Op} (hl : Has p l s) (hs : l.store = true)
    (hop : (l.survives op && ((needsJournal op).isNone && (needsGate op).isNone &&
      (needsIndex op).isNone && !revives op)) = true) :
    discipline.wp p (perform op) (fun _ s' => Has p l s' ∧ Ages s s') s := by
  rw [Bool.and_eq_true] at hop
  exact wp_keep hl hop.1 (disciplined_store (hl.store hs) hop.2)

theorem wp_lockStore (hl : Has p l s) : discipline.wp p (perform .lockStore)
    (fun _ s' => Has p { l with store := true } s' ∧ Ages s s') s := by
  refine wp_disciplined (disciplined_of_easy rfl) ?_
  intro s₁ s' q c r hlocked _ hfresh _ hexec hages
  have hkeep : Has p l s' := (hl.locked hlocked).exec hfresh rfl hexec
  refine ⟨⟨fun _ => ?_, hkeep.journal, hkeep.gate⟩, hages⟩
  simp only [exec] at hexec
  split at hexec
  · simp only [Option.some.injEq, Prod.mk.injEq] at hexec
    rcases hexec with ⟨rfl, -⟩
    rfl
  · cases hexec

theorem wp_unlockStore (hl : Has p { l with store := true } s) :
    discipline.wp p (perform .unlockStore)
      (fun _ s' => Has p { l with store := false } s' ∧ Ages s s') s := by
  have hweak : Has p { l with store := false } s := hl.mono nofun (fun _ => id) fun _ => id
  exact wp_keep hweak rfl (disciplined_store (hl.store rfl) rfl)

theorem wp_lockDisposables (hl : Has p l s) : discipline.wp p (on f .lockDisposables)
    (fun _ s' => Has p { l with journal := some f } s' ∧ Ages s s') s := by
  refine wp_disciplined (disciplined_of_easy rfl) ?_
  intro s₁ s' q c r hlocked _ hfresh _ hexec hages
  have hkeep : Has p l s' := (hl.locked hlocked).exec hfresh rfl hexec
  refine ⟨⟨hkeep.store, fun g hg => ?_, hkeep.gate⟩, hages⟩
  cases hg
  simp only [exec, FiberOp.exec, Option.map_eq_some_iff, Prod.mk.injEq] at hexec
  rcases hexec with ⟨out, hout, rfl, -⟩
  split at hout
  · simp only [Option.some.injEq] at hout
    rw [← hout, Root.fibers_put]
  · cases hout

theorem wp_unlockDisposables (hl : Has p { l with journal := some f } s) :
    discipline.wp p (on f .unlockDisposables)
      (fun _ s' => Has p { l with journal := none } s' ∧ Ages s s') s := by
  have hweak : Has p { l with journal := none } s := hl.mono id nofun fun _ => id
  refine wp_keep hweak rfl ⟨nofun, fun g hg => ?_, nofun, nofun, rfl⟩
  cases hg
  exact hl.journal f rfl

theorem wp_lockGate (hl : Has p l s) : discipline.wp p (on f .lockGate)
    (fun _ s' => Has p { l with gate := some f } s' ∧ Ages s s') s := by
  refine wp_disciplined (disciplined_of_easy rfl) ?_
  intro s₁ s' q c r hlocked _ hfresh _ hexec hages
  have hkeep : Has p l s' := (hl.locked hlocked).exec hfresh rfl hexec
  refine ⟨⟨hkeep.store, hkeep.journal, fun g hg => ?_⟩, hages⟩
  cases hg
  simp only [exec, FiberOp.exec, Option.map_eq_some_iff, Prod.mk.injEq] at hexec
  rcases hexec with ⟨out, hout, rfl, -⟩
  split at hout
  · simp only [Option.some.injEq] at hout
    rw [← hout, Root.fibers_put]
  · cases hout

theorem wp_unlockGate (hl : Has p { l with gate := some f } s) :
    discipline.wp p (on f .unlockGate)
      (fun _ s' => Has p { l with gate := none } s' ∧ Ages s s') s := by
  have hweak : Has p { l with gate := none } s := hl.mono id (fun _ => id) nofun
  refine wp_keep hweak rfl ⟨nofun, nofun, fun g hg => ?_, nofun, rfl⟩
  cases hg
  exact hl.gate f rfl

/-! ## Kicks -/

/-- An assertion that registrations and deaths cannot falsify. -/
def Lasting (D : Root → Prop) : Prop :=
  ∀ {s s'}, D s → Ages s s' → D s'

theorem maintains_op {op : Op} {D : Root → Prop} (hD : Lasting D)
    (h : ∀ s, D s → Disciplined p op s) : discipline.Maintains D p (perform op) :=
  fun s _ hd => wp_disciplined (h s hd) fun _ _ _ _ _ _ _ _ _ _ hages => hD hd hages

theorem maintains_easy {op : Op} {D : Root → Prop} (hD : Lasting D) (h : easy op = true) :
    discipline.Maintains D p (perform op) :=
  maintains_op hD fun _ _ => disciplined_of_easy h

theorem maintains_readAssignments {D : Root → Prop} (hD : Lasting D)
    {edges : List DependencyEdge} : discipline.Maintains D p (readAssignments edges) := by
  induction edges with
  | nil => exact .pure _
  | cons edge edges ih =>
      exact .bind (maintains_easy hD rfl) fun _ => .bind ih fun _ => .pure _

theorem maintains_indexed {op : Op} {D : Root → Prop} (hD : Lasting D)
    (hop : needsIndex op = some f ∧ needsSection op = false ∧ needsJournal op = none ∧
      needsGate op = none ∧ revives op = false) (hf : ∀ s, D s → Registered s f) :
    discipline.Maintains D p (perform op) := by
  rcases hop with ⟨hi, hs, hj, hg, hr⟩
  refine maintains_op hD fun s hd => ⟨fun h => ?_, fun g h => ?_, fun g h => ?_, fun g h => ?_, hr⟩
  · rw [hs] at h
    cases h
  · rw [hj] at h
    cases h
  · rw [hg] at h
    cases h
  · rw [hi] at h
    cases h
    exact hf s hd

section Readers

variable {D : Root → Prop} (hD : Lasting D) (hf : ∀ s, D s → Registered s f)

include hD hf

theorem maintains_computeTarget : discipline.Maintains D p (computeTarget f) :=
  .bind (maintains_easy hD rfl) fun _ =>
    .bind (maintains_indexed hD ⟨rfl, rfl, rfl, rfl, rfl⟩ hf) fun _ =>
      .bind (maintains_readAssignments hD) fun _ => .pure _

theorem maintains_exitRecheck {settled : SemanticTarget} {revision : Nat} :
    discipline.Maintains D p (exitRecheck f settled revision) := by
  have hop : ∀ {op : Op}, easy op = true → discipline.Maintains D p (perform op) := fun h =>
    maintains_easy hD h
  refine .iterate fun revision => .bind (hop rfl) fun _ =>
    .bind (maintains_computeTarget hD hf) fun live => .bind (hop rfl) fun observed => ?_
  split
  · exact .bind (hop rfl) fun _ => .bind (hop rfl) fun _ => .pure _
  · split
    · exact .pure _
    · refine .bind (hop rfl) fun _ => .bind (hop rfl) fun word => ?_
      cases word with
      | releasing => exact .pure _
      | active => exact .bind (hop rfl) fun _ => .pure _
      | idle => exact .bind (hop rfl) nofun

theorem maintains_kickClaimed : discipline.Maintains D p (kickClaimed f) := by
  have hop : ∀ {op : Op}, easy op = true → discipline.Maintains D p (perform op) := fun h =>
    maintains_easy hD h
  have hfork : discipline.Maintains D p (perform (.fork (.convergence f))) :=
    maintains_indexed hD ⟨rfl, rfl, rfl, rfl, rfl⟩ hf
  refine .bind (hop rfl) fun revision => .bind (hop rfl) fun recorded => ?_
  cases recorded with
  | some settled =>
      refine .bind (maintains_exitRecheck hD hf) fun kept => ?_
      cases kept with
      | true => exact .bind hfork fun _ => .pure _
      | false => exact .pure _
  | none =>
      exact .bind (maintains_computeTarget hD hf) fun _ => .bind (hop rfl) fun _ =>
        .bind hfork fun _ => .pure _

theorem maintains_kick {revision : Nat} : discipline.Maintains D p (kick f revision) := by
  have hop : ∀ {op : Op}, easy op = true → discipline.Maintains D p (perform op) := fun h =>
    maintains_easy hD h
  have honce : discipline.Maintains D p (kickOnce f revision) := by
    refine .bind (hop rfl) fun word => ?_
    cases word with
    | active => exact .pure _
    | releasing =>
        refine .bind (hop rfl) fun reclaimed => ?_
        cases reclaimed <;> exact .pure _
    | idle =>
        refine .bind (hop rfl) fun current => ?_
        cases current with
        | false => exact .pure _
        | true =>
            refine .bind (hop rfl) fun won => ?_
            cases won with
            | false => exact .pure _
            | true =>
                exact .bind (hop rfl) fun _ => .bind (maintains_kickClaimed hD hf) fun _ =>
                  .pure _
  refine .bind (.bind (hop rfl) fun alive => ?_) fun _ => hop rfl
  cases alive with
  | false => exact .pure _
  | true =>
      refine .bind (.bind (hop rfl) fun _ => .bind (hop rfl) fun _ => .pure _) fun outstanding => ?_
      cases outstanding with
      | false => exact .pure _
      | true => exact .iterate fun _ => honce

end Readers

/-- A list of registered fibers with the revisions they are owed. -/
def Owed (s : Root) (drift : List (FiberId × Nat)) : Prop :=
  ∀ row ∈ drift, Registered s row.1

theorem Owed.ages {s' : Root} {drift : List (FiberId × Nat)} (h : Owed s drift)
    (ha : Ages s s') : Owed s' drift :=
  fun row hrow => ha.registered (h row hrow)

theorem maintains_kickAll {D : Root → Prop} (hD : Lasting D) {drift : List (FiberId × Nat)}
    (h : ∀ s, D s → Owed s drift) : discipline.Maintains D p (kickAll drift) := by
  induction drift with
  | nil => exact .pure _
  | cons row rest ih =>
      refine .bind (maintains_kick hD fun s hd => h s hd row List.mem_cons_self) fun _ => ?_
      exact ih fun s hd row' hrow => h s hd row' (List.mem_cons_of_mem _ hrow)

theorem wp_kickAll {D : Root → Prop} (hD : Lasting D) {drift : List (FiberId × Nat)}
    (hs : Indexed s) (hd : D s) (h : Owed s drift) :
    discipline.wp p (kickAll drift) (fun _ s' => D s') s := by
  have hD' : Lasting fun s => D s ∧ Owed s drift := fun h ha => ⟨hD h.1 ha, h.2.ages ha⟩
  exact discipline.wp_mono hs (maintains_kickAll hD' (fun _ h => h.2) s hs ⟨hd, h⟩)
    fun _ _ _ h => h.1

/-! ## Drift -/

theorem wp_advanceAll {fibers : List FiberId} (hs : Indexed s) (hl : Has p l s)
    (hin : l.store = true) : discipline.wp p (advanceAll fibers) (fun drift s' =>
      (∀ row ∈ drift, row.1 ∈ fibers) ∧ Has p l s' ∧ Ages s s') s := by
  induction fibers generalizing s with
  | nil => exact ⟨nofun, hl, Ages.refl s⟩
  | cons g rest ih =>
      refine discipline.wp_seq hs (wp_store hl hin rfl) ?_
      rintro revision s₁ hs₁ ⟨hl₁, ha₁⟩
      refine discipline.wp_seq hs₁ (ih hs₁ hl₁) ?_
      rintro drift s₂ _ ⟨hdrift, hl₂, ha₂⟩
      refine ⟨fun row hrow => ?_, hl₂, ha₁.trans ha₂⟩
      rcases List.mem_cons.mp hrow with rfl | hrow
      · exact List.mem_cons_self
      · exact List.mem_cons_of_mem _ (hdrift row hrow)

theorem mem_reverse_of_dependentsOf {edges : List DependencyEdge} {g : FiberId}
    (h : g ∈ s.dependentsOf edges) : ∃ row ∈ s.reverse, row.2 = g ∧ row.1 ∈ edges := by
  simp only [Root.dependentsOf, List.mem_dedup, List.mem_flatMap, List.mem_map,
    List.mem_filter, decide_eq_true_eq] at h
  rcases h with ⟨edge, hedge, row, ⟨hrow, rfl⟩, rfl⟩
  exact ⟨row, hrow, rfl, hedge⟩

theorem wp_dependentsOf {edges : List DependencyEdge} (hl : Has p l s) :
    discipline.wp p (perform (.dependentsOf edges)) (fun fibers s' =>
      (∀ g ∈ fibers, Registered s' g) ∧ Has p l s' ∧ Ages s s') s := by
  refine wp_disciplined (disciplined_of_easy rfl) ?_
  intro s₁ s' q c r hlocked _ hfresh hindexed hexec hages
  refine ⟨fun g hg => ?_, (hl.locked hlocked).exec hfresh rfl hexec, hages⟩
  simp only [exec, Option.some.injEq, Prod.mk.injEq] at hexec
  rcases hexec with ⟨rfl, rfl⟩
  rcases mem_reverse_of_dependentsOf hg with ⟨row, hrow, rfl, -⟩
  rw [Registered, fibers_owe]
  exact hindexed.reverse row hrow

theorem wp_commitDrift {edges : List DependencyEdge} (hs : Indexed s) (hl : Has p l s)
    (hin : l.store = true) : discipline.wp p (commitDrift edges) (fun drift s' =>
      Owed s' drift ∧ Has p l s' ∧ Ages s s') s := by
  refine discipline.wp_seq hs (wp_dependentsOf hl) ?_
  rintro fibers s₁ hs₁ ⟨hfibers, hl₁, ha₁⟩
  refine discipline.wp_mono hs₁ (wp_advanceAll hs₁ hl₁ hin) ?_
  rintro drift s₂ _ ⟨hdrift, hl₂, ha₂⟩
  exact ⟨fun row hrow => ha₂.registered (hfibers _ (hdrift row hrow)), hl₂, ha₁.trans ha₂⟩

theorem owed_nil (s : Root) : Owed s [] :=
  nofun

/-! ## Transitions -/

theorem wp_commitFiberTransition {next : FiberState} (hs : Indexed s) :
    discipline.wp p (commitFiberTransition f next)
      (fun drift s' => Owed s' drift ∧ Ages s s') s := by
  refine discipline.wp_seq hs (wp_lockStore (Has.none p s)) ?_
  rintro _ s₁ hs₁ ⟨hl₁, ha₁⟩
  refine discipline.wp_seq hs₁ (wp_store hl₁ rfl rfl) ?_
  rintro visibility s₂ hs₂ ⟨hl₂, ha₂⟩
  have hdrift : discipline.wp p (visibilityDrift visibility) (fun drift s' =>
      Owed s' drift ∧ Has p { store := true } s' ∧ Ages s₂ s') s₂ := by
    unfold visibilityDrift
    split
    · exact ⟨owed_nil s₂, hl₂, Ages.refl s₂⟩
    · exact wp_commitDrift hs₂ hl₂ rfl
  refine discipline.wp_seq hs₂ hdrift ?_
  rintro drift s₃ hs₃ ⟨hdrift, hl₃, ha₃⟩
  refine discipline.wp_seq hs₃ (wp_easy hl₃ rfl) ?_
  rintro _ s₄ hs₄ ⟨hl₄, ha₄⟩
  refine discipline.wp_seq hs₄ (wp_unlockStore (l := {}) hl₄) ?_
  rintro _ s₅ _ ⟨-, ha₅⟩
  exact ⟨hdrift.ages (ha₄.trans ha₅), ha₁.trans (ha₂.trans (ha₃.trans (ha₄.trans ha₅)))⟩

theorem maintains_transition {D : Root → Prop} (hD : Lasting D) {next : FiberState} :
    discipline.Maintains D p (transition f next) := by
  refine .bind (maintains_easy hD rfl) fun old => ?_
  split
  · exact .pure _
  · refine .bind (maintains_easy hD rfl) fun root => ?_
    split
    · intro s hs hd
      refine discipline.wp_seq hs (wp_commitFiberTransition hs) ?_
      rintro drift s₁ hs₁ ⟨howed, ha₁⟩
      exact wp_kickAll hD hs₁ (hD hd ha₁) howed
    · exact maintains_easy hD rfl

/-! ## Registrations -/

theorem wp_assertCanRegister (hs : Indexed s) (hl : Has p l s) :
    discipline.wp p (assertCanRegister f) (fun _ s' => Has p l s' ∧ Ages s s') s := by
  refine discipline.wp_seq hs (wp_easy hl rfl) ?_
  rintro alive s₁ hs₁ ⟨hl₁, ha₁⟩
  cases alive with
  | false => exact ⟨hl₁, ha₁⟩
  | true =>
      refine discipline.wp_seq hs₁ (wp_easy hl₁ rfl) ?_
      rintro disposing s₂ hs₂ ⟨hl₂, ha₂⟩
      have ha : Ages s s₂ := ha₁.trans ha₂
      cases disposing with
      | true => exact ⟨hl₂, ha⟩
      | false =>
          refine discipline.wp_seq hs₂ (wp_easy hl₂ rfl) ?_
          rintro replacing s₃ hs₃ ⟨hl₃, ha₃⟩
          cases replacing with
          | true => exact ⟨hl₃, ha.trans ha₃⟩
          | false =>
              refine discipline.wp_seq hs₃ (wp_easy hl₃ rfl) ?_
              rintro state s₄ _ ⟨hl₄, ha₄⟩
              exact ⟨hl₄, ha.trans (ha₃.trans ha₄)⟩

/-- The push happens under the journal lock, whatever was published before it. -/
theorem wp_pushGated {ε α : Type} {cleanup : Cleanup} {inactive : ε}
    {publish : Prog (Except ε α)} {G : Except ε α → Root → Prop}
    (hG : ∀ {o s s'}, G o s → Ages s s' → G o s') (hs : Indexed s)
    (hpublish : ∀ {s}, Indexed s → Has p { journal := some f } s →
      discipline.wp p publish
        (fun o s' => G o s' ∧ Has p { journal := some f } s' ∧ Ages s s') s) :
    discipline.wp p (pushGated f cleanup inactive publish) (fun pushed s' =>
      (∀ published token, pushed = .ok (published, token) → G (.ok published) s') ∧
        Ages s s') s := by
  refine discipline.wp_seq hs (wp_assertCanRegister hs (Has.none p s)) ?_
  rintro admitted s₁ hs₁ ⟨hl₁, ha₁⟩
  cases admitted with
  | false => exact ⟨nofun, ha₁⟩
  | true =>
      refine discipline.wp_seq hs₁ (wp_lockDisposables hl₁) ?_
      rintro _ s₂ hs₂ ⟨hl₂, ha₂⟩
      refine discipline.wp_seq hs₂ (wp_assertCanRegister hs₂ hl₂) ?_
      rintro readmitted s₃ hs₃ ⟨hl₃, ha₃⟩
      have ha : Ages s s₃ := ha₁.trans (ha₂.trans ha₃)
      cases readmitted with
      | false =>
          refine discipline.wp_seq hs₃ (wp_unlockDisposables (l := {}) hl₃) ?_
          rintro _ s₄ _ ⟨-, ha₄⟩
          exact ⟨nofun, ha.trans ha₄⟩
      | true =>
          refine discipline.wp_seq hs₃ (hpublish hs₃ hl₃) ?_
          rintro published s₄ hs₄ ⟨hpublished, hl₄, ha₄⟩
          cases published with
          | error refused =>
              refine discipline.wp_seq hs₄ (wp_unlockDisposables (l := {}) hl₄) ?_
              rintro _ s₅ _ ⟨-, ha₅⟩
              exact ⟨nofun, ha.trans (ha₄.trans ha₅)⟩
          | ok published =>
              have hpush : Disciplined p (.push f cleanup) s₄ := by
                refine ⟨nofun, fun g hg => ?_, nofun, nofun, rfl⟩
                cases hg
                exact hl₄.journal f rfl
              refine discipline.wp_seq hs₄ (wp_keep hl₄ rfl hpush) ?_
              rintro token s₅ hs₅ ⟨hl₅, ha₅⟩
              refine discipline.wp_seq hs₅ (wp_unlockDisposables (l := {}) hl₅) ?_
              rintro _ s₆ _ ⟨-, ha₆⟩
              refine ⟨fun _ _ h => ?_, ha.trans (ha₄.trans (ha₅.trans ha₆))⟩
              cases h
              exact hG hpublished (ha₅.trans ha₆)

theorem maintains_pushNothing {D : Root → Prop} (hD : Lasting D) {ε : Type} {cleanup : Cleanup}
    {inactive : ε} : discipline.Maintains D p (pushGated f cleanup inactive noPublish) := by
  intro s hs hd
  refine discipline.wp_mono hs (wp_pushGated (G := fun _ _ => True)
    (fun _ _ => trivial) hs ?_) fun _ _ _ h => hD hd h.2
  intro s' _ hl
  exact ⟨trivial, hl, Ages.refl s'⟩

/-! ## Publication -/

theorem wp_ownerDrift {key : DependencyEdge} (hs : Indexed s) (hl : Has p l s)
    (hin : l.store = true) : discipline.wp p (ownerDrift f key)
      (fun drift s' => Owed s' drift ∧ Has p l s' ∧ Ages s s') s := by
  refine discipline.wp_seq hs (wp_easy hl rfl) ?_
  rintro state s₁ hs₁ ⟨hl₁, ha₁⟩
  split
  · refine discipline.wp_mono hs₁ (wp_commitDrift hs₁ hl₁ hin) ?_
    rintro drift s₂ _ ⟨hdrift, hl₂, ha₂⟩
    exact ⟨hdrift, hl₂, ha₁.trans ha₂⟩
  · exact ⟨owed_nil s₁, hl₁, ha₁⟩

/-- The drift of a publication names registered fibers. -/
def OwedResult {ε : Type} (o : Except ε (List (FiberId × Nat))) (s : Root) : Prop :=
  ∀ drift, o = .ok drift → Owed s drift

theorem wp_installSlot {slot : ServiceSlot} (hs : Indexed s)
    (hl : Has p { journal := some f } s) :
    discipline.wp p (installSlot f slot) (fun o s' =>
      OwedResult o s' ∧ Has p { journal := some f } s' ∧ Ages s s') s := by
  refine discipline.wp_seq hs (wp_lockStore hl) ?_
  rintro _ s₁ hs₁ ⟨hl₁, ha₁⟩
  -- every refusal closes the section and owes nothing
  have hrefuse : ∀ (refusal : ServicePublishError) {t}, Indexed t →
      Has p { store := true, journal := some f } t → Ages s t → discipline.wp p (do
        perform .unlockStore
        pure (.error refusal) : Prog (Except ServicePublishError (List (FiberId × Nat))))
        (fun o s' => OwedResult o s' ∧ Has p { journal := some f } s' ∧ Ages s s') t := by
    intro refusal t ht hlt hat
    refine discipline.wp_seq ht (wp_unlockStore (l := { journal := some f }) hlt) ?_
    rintro _ t' _ ⟨hlt', hat'⟩
    exact ⟨nofun, hlt', hat.trans hat'⟩
  refine discipline.wp_seq hs₁ (wp_store hl₁ rfl rfl) ?_
  rintro bound s₂ hs₂ ⟨hl₂, ha₂⟩
  cases bound with
  | false => exact hrefuse _ hs₂ hl₂ (ha₁.trans ha₂)
  | true =>
      refine discipline.wp_seq hs₂ (wp_store hl₂ rfl rfl) ?_
      rintro occupied s₃ hs₃ ⟨hl₃, ha₃⟩
      have ha : Ages s s₃ := ha₁.trans (ha₂.trans ha₃)
      cases occupied with
      | true => exact hrefuse _ hs₃ hl₃ ha
      | false =>
          refine discipline.wp_seq hs₃ (wp_ownerDrift hs₃ hl₃ rfl) ?_
          rintro drift s₄ hs₄ ⟨howed, hl₄, ha₄⟩
          refine discipline.wp_seq hs₄ (wp_store hl₄ rfl rfl) ?_
          rintro _ s₅ hs₅ ⟨hl₅, ha₅⟩
          refine discipline.wp_seq hs₅ (wp_unlockStore (l := { journal := some f }) hl₅) ?_
          rintro _ s₆ _ ⟨hl₆, ha₆⟩
          refine ⟨fun _ h => ?_, hl₆, ha.trans (ha₄.trans (ha₅.trans ha₆))⟩
          cases h
          exact howed.ages (ha₅.trans ha₆)

theorem maintains_provide {D : Root → Prop} (hD : Lasting D) {key : DependencyEdge}
    {contract : Contract} {value : Nat} :
    discipline.Maintains D p (provide f key contract value) := by
  intro s hs hd
  refine discipline.wp_seq hs (wp_assertCanRegister hs (Has.none p s)) ?_
  rintro admitted s₁ hs₁ ⟨-, ha₁⟩
  cases admitted with
  | false => exact hD hd ha₁
  | true =>
      refine discipline.wp_seq hs₁ (wp_easy (Has.none p s₁) rfl) ?_
      rintro occurrence s₂ hs₂ ⟨-, ha₂⟩
      refine discipline.wp_seq hs₂ (wp_pushGated (G := OwedResult)
        (fun h ha _ ho => (h _ ho).ages ha) hs₂ fun hs hl => wp_installSlot hs hl) ?_
      rintro pushed s₃ hs₃ ⟨howed, ha₃⟩
      have hd₃ : D s₃ := hD hd (ha₁.trans (ha₂.trans ha₃))
      cases pushed with
      | error refusal => exact hd₃
      | ok pushed =>
          refine discipline.wp_seq hs₃
            (wp_kickAll hD hs₃ hd₃ (howed pushed.1 pushed.2 rfl _ rfl)) ?_
          intro _ s₄ _ hd₄
          exact hd₄

/-! ## Control of one occurrence -/

/-- Close the gate, then the section. -/
theorem wp_closeGate {α : Type} {a : α} (hs : Indexed s)
    (hl : Has p { store := true, gate := some f } s) : discipline.wp p (do
      on f .unlockGate
      perform .unlockStore
      pure a) (fun b s' => b = a ∧ Ages s s') s := by
  refine discipline.wp_seq hs (wp_unlockGate (l := { store := true }) hl) ?_
  rintro _ s₁ hs₁ ⟨hl₁, ha₁⟩
  refine discipline.wp_seq hs₁ (wp_unlockStore (l := {}) hl₁) ?_
  rintro _ s₂ _ ⟨-, ha₂⟩
  exact ⟨rfl, ha₁.trans ha₂⟩

theorem wp_unlockPure {α : Type} {a : α} (hs : Indexed s) (hl : Has p { store := true } s) :
    discipline.wp p (do
      perform .unlockStore
      pure a) (fun b s' => b = a ∧ Ages s s') s := by
  refine discipline.wp_seq hs (wp_unlockStore (l := {}) hl) ?_
  rintro _ s₁ _ ⟨-, ha₁⟩
  exact ⟨rfl, ha₁⟩

theorem maintains_setExact {D : Root → Prop} (hD : Lasting D)
    {publication : ServicePublication} {value : Nat} :
    discipline.Maintains D p (setExact publication value) := by
  intro s hs hd
  refine discipline.wp_seq hs (wp_lockStore (Has.none p s)) ?_
  rintro _ s₁ hs₁ ⟨hl₁, ha₁⟩
  refine discipline.wp_seq hs₁ (wp_store hl₁ rfl rfl) ?_
  rintro current s₂ hs₂ ⟨hl₂, ha₂⟩
  have hd₂ : D s₂ := hD hd (ha₁.trans ha₂)
  cases current with
  | false =>
      exact discipline.wp_mono hs₂ (wp_unlockPure hs₂ hl₂) fun _ _ _ h => hD hd₂ h.2
  | true =>
      refine discipline.wp_seq hs₂ (wp_lockGate hl₂) ?_
      rintro _ s₃ hs₃ ⟨hl₃, ha₃⟩
      refine discipline.wp_seq hs₃ (wp_assertCanRegister hs₃ hl₃) ?_
      rintro admitted s₄ hs₄ ⟨hl₄, ha₄⟩
      have hd₄ : D s₄ := hD hd₂ (ha₃.trans ha₄)
      cases admitted with
      | false =>
          exact discipline.wp_mono hs₄ (wp_closeGate hs₄ hl₄) fun _ _ _ h => hD hd₄ h.2
      | true =>
          refine discipline.wp_seq hs₄ (wp_store hl₄ rfl rfl) ?_
          rintro _ s₅ hs₅ ⟨hl₅, ha₅⟩
          exact discipline.wp_mono hs₅ (wp_closeGate hs₅ hl₅)
            fun _ _ _ h => hD hd₄ (ha₅.trans h.2)

theorem wp_removeExact {publication : ServicePublication} (hs : Indexed s) :
    discipline.wp p (removeExact publication)
      (fun o s' => OwedResult o s' ∧ Ages s s') s := by
  refine discipline.wp_seq hs (wp_lockStore (Has.none p s)) ?_
  rintro _ s₁ hs₁ ⟨hl₁, ha₁⟩
  refine discipline.wp_seq hs₁ (wp_store hl₁ rfl rfl) ?_
  rintro current s₂ hs₂ ⟨hl₂, ha₂⟩
  have ha : Ages s s₂ := ha₁.trans ha₂
  cases current with
  | false =>
      refine discipline.wp_mono hs₂ (wp_unlockPure hs₂ hl₂) ?_
      rintro _ s₃ _ ⟨rfl, ha₃⟩
      exact ⟨nofun, ha.trans ha₃⟩
  | true =>
      refine discipline.wp_seq hs₂ (wp_lockGate hl₂) ?_
      rintro _ s₃ hs₃ ⟨hl₃, ha₃⟩
      refine discipline.wp_seq hs₃ (wp_assertCanRegister hs₃ hl₃) ?_
      rintro admitted s₄ hs₄ ⟨hl₄, ha₄⟩
      have ha' : Ages s s₄ := ha.trans (ha₃.trans ha₄)
      cases admitted with
      | false =>
          refine discipline.wp_mono hs₄ (wp_closeGate hs₄ hl₄) ?_
          rintro _ s₅ _ ⟨rfl, ha₅⟩
          exact ⟨nofun, ha'.trans ha₅⟩
      | true =>
          refine discipline.wp_seq hs₄ (wp_ownerDrift hs₄ hl₄ rfl) ?_
          rintro drift s₅ hs₅ ⟨howed, hl₅, ha₅⟩
          refine discipline.wp_seq hs₅ (wp_store hl₅ rfl rfl) ?_
          rintro _ s₆ hs₆ ⟨hl₆, ha₆⟩
          refine discipline.wp_mono hs₆ (wp_closeGate hs₆ hl₆) ?_
          rintro _ s₇ _ ⟨rfl, ha₇⟩
          refine ⟨fun _ h => ?_, ha'.trans (ha₅.trans (ha₆.trans ha₇))⟩
          cases h
          exact howed.ages (ha₆.trans ha₇)

theorem maintains_removePublication {D : Root → Prop} (hD : Lasting D)
    {publication : ServicePublication} :
    discipline.Maintains D p (removePublication publication) := by
  intro s hs hd
  refine discipline.wp_seq hs (wp_removeExact hs) ?_
  rintro removed s₁ hs₁ ⟨howed, ha₁⟩
  cases removed with
  | error refusal => exact hD hd ha₁
  | ok drift =>
      refine discipline.wp_seq hs₁ (wp_easy (Has.none p s₁) rfl) ?_
      rintro _ s₂ hs₂ ⟨-, ha₂⟩
      refine discipline.wp_seq hs₂
        (wp_kickAll hD hs₂ (hD hd (ha₁.trans ha₂)) ((howed drift rfl).ages ha₂)) ?_
      intro _ s₃ _ hd₃
      exact hd₃

theorem maintains_withdraw {D : Root → Prop} (hD : Lasting D) {key : DependencyEdge}
    {occurrence : Occurrence} :
    discipline.Maintains D p (cleanupBody (.withdraw key occurrence)) := by
  intro s hs hd
  refine discipline.wp_seq hs (wp_lockStore (Has.none p s)) ?_
  rintro _ s₁ hs₁ ⟨hl₁, ha₁⟩
  have hexact : discipline.wp p (withdrawExact key occurrence)
      (fun _ s' => Has p { store := true } s' ∧ Ages s₁ s') s₁ := by
    refine discipline.wp_seq hs₁ (wp_store hl₁ rfl rfl) ?_
    rintro current s₂ hs₂ ⟨hl₂, ha₂⟩
    cases current with
    | false => exact ⟨hl₂, ha₂⟩
    | true =>
        refine discipline.wp_mono hs₂ (wp_store hl₂ rfl rfl) ?_
        rintro _ s₃ _ ⟨hl₃, ha₃⟩
        exact ⟨hl₃, ha₂.trans ha₃⟩
  refine discipline.wp_seq hs₁ hexact ?_
  rintro _ s₂ hs₂ ⟨hl₂, ha₂⟩
  refine discipline.wp_mono hs₂ (wp_unlockStore (l := {}) hl₂) ?_
  rintro _ s₃ _ ⟨-, ha₃⟩
  exact hD hd (ha₁.trans (ha₂.trans ha₃))

/-! ## The entry of an era replacement -/

theorem wp_refuseAny {ctx : SettleCtx} {fibers : List FiberId} (hs : Indexed s)
    (hl : Has p l s) : discipline.wp p (refuseAny ctx fibers)
      (fun _ s' => Has p l s' ∧ Ages s s') s := by
  induction fibers generalizing s with
  | nil => exact ⟨hl, Ages.refl s⟩
  | cons g rest ih =>
      refine discipline.wp_seq hs (wp_easy hl rfl) ?_
      rintro refused s₁ hs₁ ⟨hl₁, ha₁⟩
      cases refused with
      | true => exact ⟨hl₁, ha₁⟩
      | false =>
          refine discipline.wp_mono hs₁ (ih hs₁ hl₁) ?_
          rintro _ s₂ _ ⟨hl₂, ha₂⟩
          exact ⟨hl₂, ha₁.trans ha₂⟩

/-- The dependents captured at the entry are registered. -/
theorem wp_enterEra {ctx : SettleCtx} (hs : Indexed s) :
    discipline.wp p (enterEra ctx f) (fun entry s' =>
      (∀ edges dependents, entry = .claimed edges dependents →
        ∀ g ∈ dependents, Registered s' g) ∧ Ages s s') s := by
  refine discipline.wp_seq hs (wp_lockDisposables (Has.none p s)) ?_
  rintro _ s₁ hs₁ ⟨hl₁, ha₁⟩
  refine discipline.wp_seq hs₁ (wp_easy hl₁ rfl) ?_
  rintro oldEdges s₂ hs₂ ⟨hl₂, ha₂⟩
  refine discipline.wp_seq hs₂ (wp_dependentsOf hl₂) ?_
  rintro dependents s₃ hs₃ ⟨hdependents, hl₃, ha₃⟩
  refine discipline.wp_seq hs₃ (wp_refuseAny hs₃ hl₃) ?_
  rintro refused s₄ hs₄ ⟨hl₄, ha₄⟩
  have ha : Ages s s₄ := ha₁.trans (ha₂.trans (ha₃.trans ha₄))
  cases refused with
  | true =>
      refine discipline.wp_seq hs₄ (wp_unlockDisposables (l := {}) hl₄) ?_
      rintro _ s₅ _ ⟨-, ha₅⟩
      exact ⟨nofun, ha.trans ha₅⟩
  | false =>
      refine discipline.wp_seq hs₄ (wp_easy hl₄ rfl) ?_
      rintro disposing s₅ hs₅ ⟨hl₅, ha₅⟩
      refine discipline.wp_seq hs₅ (wp_unlockDisposables (l := {}) hl₅) ?_
      rintro _ s₆ _ ⟨-, ha₆⟩
      have ha' : Ages s s₆ := ha.trans (ha₅.trans ha₆)
      cases disposing with
      | true => exact ⟨nofun, ha'⟩
      | false =>
          refine ⟨fun edges captured hentry g hg => ?_, ha'⟩
          cases hentry
          exact (ha₄.trans (ha₅.trans ha₆)).registered
            (hdependents g (List.mem_of_mem_filter hg))

end Discipline
end Runtime
end CordisCore
