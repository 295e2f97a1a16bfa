import CordisCore.Fiber.Frame
import CordisCore.Interleaving.Logic

/-!
# Discipline — who may operate inside which critical section

Sections are opened and closed by the same party, and the edges of a Fiber are
read and handed out only after the Fiber was registered in the index.
-/

namespace CordisCore
namespace Runtime

open Interleaving

/-! ## What the operations need -/

/-- The operations that belong into a ServiceStore section. -/
def needsSection : Op → Bool
  | .commitRecheck _ | .unlockStore | .bindContract _ _ | .occupied _ | .holds _ _
  | .insertSlot _ | .replaceValue _ _ | .removeSlot _ | .visibility _ => true
  | _ => false

/-- The Fiber whose journal has to be locked. -/
def needsJournal : Op → Option FiberId
  | .push f _ | .on f .unlockDisposables => some f
  | _ => none

/-- The Fiber whose mutation gate has to be locked. -/
def needsGate : Op → Option FiberId
  | .on f .unlockGate => some f
  | _ => none

/-- The Fiber whose edges a routine reads or whose handle it is given. -/
def Routine.needsIndex : Routine → Option FiberId
  | .convergence f | .ready _ f | .waitState _ f _ _ | .dispose _ f | .restart _ f
  | .update _ f _ | .eraSwap _ f _ => some f
  | _ => none

/-- The Fiber whose edges have to be in the index already. -/
def needsIndex : Op → Option FiberId
  | .on f .dependencyEdges | .on f .deliver => some f
  | .fork routine => routine.needsIndex
  | _ => none

/-- The operations that would bring a dead Fiber back. -/
def revives : Op → Bool
  | .on _ (.store .alive true) | .on _ (.swapGated .alive) => true
  | _ => false

/-! ## Sections and registrations -/

/-- The party is inside the ServiceStore section. -/
def InSection (p : Party) (s : Root) : Prop :=
  s.storeLock.map (·.owner) = some p

/-- The edges of the Fiber are, or were, in the index. -/
def Registered (s : Root) (f : FiberId) : Prop :=
  (s.fibers f).trace.registered = true

def Dead (s : Root) (f : FiberId) : Prop :=
  (s.fibers f).flags .alive = false

structure Disciplined (p : Party) (op : Op) (s : Root) : Prop where
  store : needsSection op = true → InSection p s
  journal : ∀ f, needsJournal op = some f → (s.fibers f).disposablesLock = some p
  gate : ∀ f, needsGate op = some f → (s.fibers f).mutationGate = some p
  index : ∀ f, needsIndex op = some f → Registered s f
  dead : revives op = false

/-- The sections of a party stay open. -/
structure Locked (p : Party) (s s' : Root) : Prop where
  store : InSection p s → InSection p s'
  journal : ∀ f, (s.fibers f).disposablesLock = some p → (s'.fibers f).disposablesLock = some p
  gate : ∀ f, (s.fibers f).mutationGate = some p → (s'.fibers f).mutationGate = some p

/-- Registrations and deaths are final. -/
structure Ages (s s' : Root) : Prop where
  registered : ∀ {f}, Registered s f → Registered s' f
  dead : ∀ {f}, Dead s f → Dead s' f

namespace Locked

variable {p : Party} {s s' s'' : Root}

theorem refl (p : Party) (s : Root) : Locked p s s :=
  ⟨id, fun _ => id, fun _ => id⟩

theorem trans (h : Locked p s s') (h' : Locked p s' s'') : Locked p s s'' :=
  ⟨fun hp => h'.store (h.store hp), fun f hp => h'.journal f (h.journal f hp),
    fun f hp => h'.gate f (h.gate f hp)⟩

end Locked

namespace Ages

variable {s s' s'' : Root}

theorem refl (s : Root) : Ages s s :=
  ⟨id, id⟩

theorem trans (h : Ages s s') (h' : Ages s' s'') : Ages s s'' :=
  ⟨fun hf => h'.registered (h.registered hf), fun hf => h'.dead (h.dead hf)⟩

end Ages

theorem Disciplined.rely {p : Party} {op : Op} {s s' : Root} (h : Disciplined p op s)
    (hl : Locked p s s') (ha : Ages s s') : Disciplined p op s' :=
  ⟨fun hop => hl.store (h.store hop), fun f hf => hl.journal f (h.journal f hf),
    fun f hf => hl.gate f (h.gate f hf), fun f hf => ha.registered (h.index f hf), h.dead⟩

/-! ## One operation -/

section Step

variable {self fresh t : Party} {choice : Choice} {op : Op} {s s' : Root} {r : op.Ret}

theorem enroll_registered (s : Root) (f : FiberId) : Registered (s.enroll f) f := by
  unfold Root.enroll
  split
  · assumption
  · split
    · simp only [Registered, Root.fibers_put]
      rfl
    · show ((s.put f _).fibers f).trace.registered = true
      rw [Root.fibers_put]
      rfl

theorem exec_registered (hs : Fresh s) (h : exec self fresh choice op s = some (s', r))
    {g : FiberId} (hg : Registered s g) : Registered s' g := by
  rcases exec_touch h g with ⟨op', r', -, hexec⟩ | ⟨edges, -, rfl, -⟩ | ⟨-, -, hbooks⟩
  · rw [Registered, (FiberOp.exec_kept hexec).registered]
    exact hg
  · rw [Registered, hs _ (Nat.le_refl _)] at hg
    cases hg
  · by_cases hop : op = .register g
    · subst hop
      simp only [exec] at h
      split at h <;> simp only [Option.some.injEq, Prod.mk.injEq] at h <;> rcases h with ⟨rfl, -⟩
      · exact enroll_registered s g
      · exact hg
    · rw [Registered, hbooks.registered hop]
      exact hg

theorem FiberOp.exec_dead {op : FiberOp} {f : FiberId} {x y : Fiber} {r : op.Ret}
    (h : op.exec self choice x = some (y, r)) (hop : revives (.on f op) = false)
    (hx : x.flags .alive = false) : y.flags .alive = false := by
  by_cases hw : op.writes (.flag .alive) = false
  · exact (FiberOp.exec_same_field h (.flag .alive) hw).trans hx
  · cases op <;> try exact absurd rfl hw
    case store flag value =>
      simp only [FiberOp.exec, Option.some.injEq, Prod.mk.injEq] at h
      rcases h with ⟨rfl, -⟩
      cases flag <;> cases value <;> first | exact absurd rfl hw | rfl | cases hop
    case swapGated flag =>
      cases flag <;> first | exact absurd rfl hw | cases hop

theorem exec_dead (hs : Fresh s) (h : exec self fresh choice op s = some (s', r))
    (hop : revives op = false) {g : FiberId} (hg : Dead s g) : Dead s' g := by
  rcases exec_touch h g with ⟨op', r', rfl, hexec⟩ | ⟨edges, -, rfl, -⟩ | ⟨-, hcore, -⟩
  · exact FiberOp.exec_dead hexec hop hg
  · rw [Dead, hs _ (Nat.le_refl _)] at hg
    cases hg
  · rw [Dead, hcore.flags]
    exact hg

theorem exec_ages (hs : Fresh s) (h : exec self fresh choice op s = some (s', r))
    (hop : revives op = false) : Ages s s' :=
  ⟨exec_registered hs h, exec_dead hs h hop⟩

/-- Only the two lock operations open and close the ServiceStore section. -/
theorem exec_store (h : exec self fresh choice op s = some (s', r)) (hlock : op ≠ .lockStore)
    (hunlock : op ≠ .unlockStore) :
    s'.storeLock.map (·.owner) = s.storeLock.map (·.owner) := by
  cases op <;> simp only [exec, guarded] at h
  case lockStore => exact absurd rfl hlock
  case unlockStore => exact absurd rfl hunlock
  case on f op =>
    simp only [Option.map_eq_some_iff, Prod.mk.injEq] at h
    rcases h with ⟨_, -, rfl, -⟩
    rfl
  case commitRecheck f =>
    simp only [Option.some.injEq, Prod.mk.injEq] at h
    rcases h with ⟨rfl, -⟩
    simp only [Root.advance]
    split
    · split
      · rename_i hlock' _
        simp [show s.storeLock = _ from hlock']
      · rfl
    · rfl
  case dependentsOf edges =>
    simp only [Option.some.injEq, Prod.mk.injEq] at h
    rcases h with ⟨rfl, -⟩
    simp only [Root.owe]
    split
    · split
      · rename_i hlock' _
        simp [hlock']
      · rfl
    · rfl
  case attach f key =>
    simp only [Option.some.injEq, Prod.mk.injEq] at h
    rcases h with ⟨rfl, -⟩
    unfold Root.attach
    split <;> rfl
  case register f =>
    split at h <;> simp only [Option.some.injEq, Prod.mk.injEq] at h <;> rcases h with ⟨rfl, -⟩
    · show (s.enroll f).storeLock.map _ = _
      unfold Root.enroll
      split
      · rfl
      · split
        · rfl
        · show (Option.map _ s.storeLock).map _ = _
          cases s.storeLock <;> rfl
    · rfl
  case fork routine =>
    cases routine <;> simp only [Option.some.injEq, Prod.mk.injEq] at h <;>
      rcases h with ⟨rfl, -⟩ <;> rfl
  all_goals
    (repeat' split at h) <;>
      simp only [Option.some.injEq, Prod.mk.injEq, reduceCtorEq] at h <;>
      (rcases h with ⟨rfl, -⟩; rfl)

theorem exec_inSection (h : exec self fresh choice op s = some (s', r))
    (hop : op = .unlockStore → ¬ InSection t s) (hs : InSection t s) : InSection t s' := by
  by_cases hlock : op = .lockStore
  · subst hlock
    simp only [exec, Option.isNone_iff_eq_none] at h
    split at h
    · rename_i hnone
      rw [InSection, hnone] at hs
      cases hs
    · cases h
  · have hunlock : op ≠ .unlockStore := fun hop' => hop hop' hs
    rw [InSection, exec_store h hlock hunlock]
    exact hs

theorem exec_journal (hf : Fresh s) (h : exec self fresh choice op s = some (s', r))
    {g : FiberId}
    (hop : op = .on g .unlockDisposables → (s.fibers g).disposablesLock ≠ some t)
    (hg : (s.fibers g).disposablesLock = some t) :
    (s'.fibers g).disposablesLock = some t := by
  rcases exec_touch h g with ⟨op', r', rfl, hexec⟩ | ⟨edges, -, rfl, -⟩ | ⟨-, hcore, -⟩
  · by_cases hw : op'.writes .journal = false
    · exact (FiberOp.exec_same_field hexec .journal hw).trans hg
    · cases op' <;> try exact absurd rfl hw
      case lockDisposables => simp only [FiberOp.exec, hg, reduceCtorEq, if_false] at hexec
      case unlockDisposables => exact absurd hg (hop rfl)
      all_goals simp_all [FiberOp.writes]
  · rw [hf _ (Nat.le_refl _)] at hg
    cases hg
  · rw [hcore.journal]
    exact hg

theorem exec_gate (hf : Fresh s) (h : exec self fresh choice op s = some (s', r))
    {g : FiberId} (hop : op = .on g .unlockGate → (s.fibers g).mutationGate ≠ some t)
    (hg : (s.fibers g).mutationGate = some t) : (s'.fibers g).mutationGate = some t := by
  rcases exec_touch h g with ⟨op', r', rfl, hexec⟩ | ⟨edges, -, rfl, -⟩ | ⟨-, hcore, -⟩
  · by_cases hw : op'.writes .gate = false
    · exact (FiberOp.exec_same_field hexec .gate hw).trans hg
    · cases op' <;> try exact absurd rfl hw
      case lockGate => simp only [FiberOp.exec, hg, reduceCtorEq, if_false] at hexec
      case unlockGate => exact absurd hg (hop rfl)
      all_goals simp_all [FiberOp.writes]
  · rw [hf _ (Nat.le_refl _)] at hg
    cases hg
  · rw [hcore.gate]
    exact hg

/-- The others' sections stay open. -/
theorem exec_locked (hf : Fresh s) (h : exec self fresh choice op s = some (s', r))
    (hd : Disciplined self op s) (ht : t ≠ self) : Locked t s s' where
  store := exec_inSection h fun hop hs =>
    ht (Option.some.inj (hs.symm.trans (hd.store (hop ▸ rfl))))
  journal g := exec_journal hf h fun hop hs =>
    ht (Option.some.inj (hs.symm.trans (hd.journal g (hop ▸ rfl))))
  gate g := exec_gate hf h fun hop hs =>
    ht (Option.some.inj (hs.symm.trans (hd.gate g (hop ▸ rfl))))

/-- The rows of the index and the delivered handles name registered fibers. -/
structure Indexed (s : Root) : Prop where
  reverse : ∀ row ∈ s.reverse, Registered s row.2
  delivered : ∀ f, (s.fibers f).trace.delivered = true → Registered s f

/-- A new row is a row of the Fiber that registers. -/
theorem exec_reverse (h : exec self fresh choice op s = some (s', r)) {row : DependencyEdge × FiberId}
    (hrow : row ∈ s'.reverse) : row ∈ s.reverse ∨ Registered s' row.2 := by
  cases op <;> simp only [exec, guarded] at h
  case register f =>
    split at h <;> simp only [Option.some.injEq, Prod.mk.injEq] at h <;> rcases h with ⟨rfl, -⟩
    · rcases List.mem_append.mp hrow with hrow | hrow
      · refine .inl ?_
        unfold Root.enroll at hrow
        split at hrow
        · exact hrow
        · split at hrow <;> exact hrow
      · rcases List.mem_map.mp hrow with ⟨edge, -, rfl⟩
        exact .inr (enroll_registered s f)
    · exact .inl hrow
  case unregister f =>
    simp only [Option.some.injEq, Prod.mk.injEq] at h
    rcases h with ⟨rfl, -⟩
    exact .inl (List.mem_of_mem_filter hrow)
  case on f op =>
    simp only [Option.map_eq_some_iff, Prod.mk.injEq] at h
    rcases h with ⟨_, -, rfl, -⟩
    exact .inl hrow
  case commitRecheck f =>
    simp only [Option.some.injEq, Prod.mk.injEq] at h
    rcases h with ⟨rfl, -⟩
    unfold Root.advance at hrow
    split at hrow
    · split at hrow <;> exact .inl hrow
    · exact .inl hrow
  case dependentsOf edges =>
    simp only [Option.some.injEq, Prod.mk.injEq] at h
    rcases h with ⟨rfl, -⟩
    unfold Root.owe at hrow
    split at hrow
    · split at hrow <;> exact .inl hrow
    · exact .inl hrow
  case attach f key =>
    simp only [Option.some.injEq, Prod.mk.injEq] at h
    rcases h with ⟨rfl, -⟩
    unfold Root.attach at hrow
    split at hrow <;> exact .inl hrow
  case fork routine =>
    cases routine <;> simp only [Option.some.injEq, Prod.mk.injEq] at h <;>
      rcases h with ⟨rfl, -⟩ <;> exact .inl hrow
  all_goals
    (repeat' split at h) <;>
      simp only [Option.some.injEq, Prod.mk.injEq, reduceCtorEq] at h <;>
      (rcases h with ⟨rfl, -⟩; exact .inl hrow)

theorem exec_indexed (hf : Fresh s) (hs : Indexed s)
    (h : exec self fresh choice op s = some (s', r)) (hd : Disciplined self op s) :
    Indexed s' where
  reverse row hrow := by
    rcases exec_reverse h hrow with hold | hnew
    · exact exec_registered hf h (hs.reverse row hold)
    · exact hnew
  delivered g hg := by
    rcases exec_touch h g with ⟨op', r', rfl, hexec⟩ | ⟨edges, -, -, hborn⟩ | ⟨-, hcore, -⟩
    · by_cases hw : op'.writes .delivered = false
      · rw [FiberOp.exec_same_field hexec .delivered hw] at hg
        exact exec_registered hf h (hs.delivered g hg)
      · refine exec_registered hf h (hd.index g ?_)
        cases op' <;> first | rfl | exact absurd rfl hw | simp_all [FiberOp.writes]
    · rw [hborn] at hg
      cases hg
    · rw [hcore.delivered] at hg
      exact exec_registered hf h (hs.delivered g hg)

end Step

/-! ## The logic -/

def discipline : Logic cordis Machine.anyRun where
  inv := Indexed
  rely p s s' := Locked p s s' ∧ Ages s s'
  blank _ _ := True
  pre routine _ s := ∀ f, routine.needsIndex = some f → Registered s f
  post _ _ _ := True
  check := Disciplined
  given _ _ s := Fresh s
  rely_refl p s := ⟨Locked.refl p s, Ages.refl s⟩
  rely_trans h h' := ⟨h.1.trans h'.1, h.2.trans h'.2⟩
  blank_rely _ _ := trivial
  post_rely _ _ := trivial

variable {p : Party} {s : Root}

theorem Fiber.forget_same (x : Fiber) (q : Party) :
    (x.forget q).flags = x.flags ∧ (x.forget q).disposablesLock = x.disposablesLock ∧
      (x.forget q).mutationGate = x.mutationGate ∧
      (x.forget q).trace.registered = x.trace.registered ∧
      (x.forget q).trace.delivered = x.trace.delivered :=
  ⟨rfl, rfl, rfl, rfl, rfl⟩

theorem discipline_drops {op : Op} (hs : Indexed s) : discipline.Drops p op s := by
  intro _ _ s' next hdrop
  rcases dropped_eq hdrop with ⟨fibers, driving, rfl, hfibers⟩
  have hsame : ∀ g, (fibers g).flags = (s.fibers g).flags ∧
      (fibers g).disposablesLock = (s.fibers g).disposablesLock ∧
      (fibers g).mutationGate = (s.fibers g).mutationGate ∧
      (fibers g).trace.registered = (s.fibers g).trace.registered ∧
      (fibers g).trace.delivered = (s.fibers g).trace.delivered := by
    intro g
    rcases hfibers g with h | h
    · rw [h]
      exact ⟨rfl, rfl, rfl, rfl, rfl⟩
    · rw [h]
      exact Fiber.forget_same _ _
  have hages : Ages s { s with fibers := fibers, driving := driving } :=
    ⟨fun {g} hg => (hsame g).2.2.2.1.trans hg,
      fun {g} hg => (congrFun (hsame g).1 .alive).trans hg⟩
  refine ⟨⟨fun row hrow => hages.registered (hs.reverse row hrow), fun g hg => ?_⟩,
    fun t _ => ⟨⟨id, fun g hg => (hsame g).2.1.trans hg, fun g hg => (hsame g).2.2.1.trans hg⟩,
      hages⟩, ?_⟩
  · exact hages.registered (hs.delivered g ((hsame g).2.2.2.2 ▸ hg))
  · simp only [cordis, dropped] at hdrop
    split at hdrop
    · split at hdrop <;> simp only [Option.some.injEq, Prod.mk.injEq] at hdrop <;>
        rcases hdrop with ⟨-, rfl⟩
      · rintro _ ⟨⟩
      · trivial
    · cases hdrop

/-- One operation, for whoever keeps to the discipline. -/
theorem wp_disciplined {op : Op} {Q : op.Ret → Root → Prop} (h : Disciplined p op s)
    (hQ : ∀ s₁ s' q c r, Locked p s s₁ → Ages s s₁ → Fresh s₁ → Indexed s₁ →
      exec p q c op s₁ = some (s', r) → Ages s s' → Q r s') :
    discipline.wp p (perform op) Q s := by
  refine discipline.wp_perform fun s₁ hr hs₁ => ?_
  have hd : Disciplined p op s₁ := h.rely hr.1 hr.2
  refine ⟨hd, ?_, discipline_drops hs₁⟩
  intro q c s' r _ hfresh hexec
  replace hexec := cordis_exec hexec
  have hages : Ages s₁ s' := exec_ages hfresh hexec hd.dead
  have hinv : Indexed s' := exec_indexed hfresh hs₁ hexec hd
  have hrely : ∀ t, t ≠ p → discipline.rely t s₁ s' := fun t ht =>
    ⟨exec_locked hfresh hexec hd ht, hages⟩
  have hpost : Q r s' := hQ s₁ s' q c r hr.1 hr.2 hfresh hs₁ hexec (hr.2.trans hages)
  cases hforks : cordis.forks op with
  | none => exact ⟨hinv, hrely, hpost⟩
  | some routine =>
      refine fun _ _ => ⟨hinv, fun t ht _ => hrely t ht, fun f hf => ?_, hpost⟩
      refine hages.registered (hd.index f ?_)
      cases op <;> simp only [cordis, forks, reduceCtorEq, Option.some.injEq] at hforks
      subst hforks
      exact hf

end Runtime
end CordisCore
