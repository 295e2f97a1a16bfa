import CordisCore.Fiber.System

/-!
# Frames — the fibers that a step leaves alone
-/

namespace CordisCore
namespace Runtime

open Interleaving

/-! ## What an operation on a Fiber writes -/

/-- The parts of a Fiber that operations on it write. -/
inductive Field where
  | inertia
  | holders
  | kicks
  | settled
  | target
  | flag (which : Flag)
  | state
  | error
  | journal
  | disposables
  | gate
  | applying
  | residency
  | owners
  | admitted
  | delivered

/-- The two records agree on this part. -/
def Field.Same : Field → Fiber → Fiber → Prop
  | .inertia, x, y => y.inertia = x.inertia
  | .holders, x, y => y.trace.holders = x.trace.holders
  | .kicks, x, y => y.trace.kicks = x.trace.kicks
  | .settled, x, y =>
      y.recheckSettled = x.recheckSettled ∧ y.trace.acknowledged = x.trace.acknowledged
  | .target, x, y => y.target = x.target
  | .flag which, x, y => y.flags which = x.flags which
  | .state, x, y => y.state = x.state
  | .error, x, y => y.error = x.error
  | .journal, x, y => y.disposablesLock = x.disposablesLock
  | .disposables, x, y => y.disposables = x.disposables
  | .gate, x, y => y.mutationGate = x.mutationGate
  | .applying, x, y => y.trace.applying = x.trace.applying
  | .residency, x, y => y.residency = x.residency ∧ y.trace.unlinking = x.trace.unlinking
  | .owners, x, y => y.trace.owners = x.trace.owners
  | .admitted, x, y => y.trace.admitted = x.trace.admitted
  | .delivered, x, y => y.trace.delivered = x.trace.delivered

/-- The operation may write this part. -/
def FiberOp.writes : FiberOp → Field → Bool
  | .tryClaim, .inertia | .tryClaim, .holders
  | .storeInertia _, .inertia
  | .release, .inertia | .release, .holders
  | .abandon, .inertia | .abandon, .holders
  | .loadInertia _, .kicks
  | .reclaim _, .inertia | .reclaim _, .kicks
  | .kicked _, .kicks
  | .storeSettled _ _, .settled
  | .recordTarget _, .target | .markPendingIfUntouched _, .target | .pinInactive, .target
  | .publish _, .state
  | .storeError _, .error | .takeError, .error
  | .lockDisposables, .journal | .unlockDisposables, .journal
  | .removeDisposable _, .disposables
  | .lockGate, .gate | .unlockGate, .gate
  | .startApply _, .applying | .finishApply, .applying
  | .takeResidency, .residency
  | .swapGated .disposing, .owners
  | .leave, .admitted
  | .deliver, .delivered => true
  | .store flag _, .flag other | .swapGated flag, .flag other => flag = other
  | .takeCreationOwnership, .flag other => Flag.creationOwned = other
  | _, _ => false

theorem FiberOp.exec_same_field {self : Party} {choice : Choice} {op : FiberOp} {x y : Fiber}
    {r : op.Ret} (h : op.exec self choice x = some (y, r)) (field : Field)
    (hop : op.writes field = false) : field.Same x y := by
  by_cases hr : op.reads = true
  · rw [FiberOp.exec_reads hr h]
    cases field <;> first | rfl | exact ⟨rfl, rfl⟩
  · cases op <;> simp only [FiberOp.reads, not_true_eq_false] at hr <;>
      simp only [FiberOp.exec, Fiber.publish] at h
    case swapGated flag =>
      split at h
      · split at h
        · rename_i hdisposing
          obtain rfl : flag = .disposing := hdisposing.1
          simp only [Option.some.injEq, Prod.mk.injEq] at h
          rcases h with ⟨rfl, -⟩
          cases field <;>
            first
              | rfl
              | exact ⟨rfl, rfl⟩
              | exact absurd hop Bool.noConfusion
              | exact if_neg (Ne.symm (of_decide_eq_false hop))
        · simp only [Option.some.injEq, Prod.mk.injEq] at h
          rcases h with ⟨rfl, -⟩
          cases flag <;> cases field <;>
            first
              | rfl
              | exact ⟨rfl, rfl⟩
              | exact if_neg (Ne.symm (of_decide_eq_false hop))
      · cases h
    all_goals
      (repeat' split at h) <;>
        simp only [Option.some.injEq, Prod.mk.injEq, reduceCtorEq] at h <;>
        rcases h with ⟨rfl, -⟩ <;>
        cases field <;>
        first
          | rfl
          | exact ⟨rfl, rfl⟩
          | exact absurd hop Bool.noConfusion
          | exact if_neg (Ne.symm (of_decide_eq_false hop))

/-- What no operation on a Fiber writes. -/
structure FiberOp.Kept (x y : Fiber) : Prop where
  edges : y.edges = x.edges
  committed : y.recheckCommitted = x.recheckCommitted
  drain : y.drainCleanup = x.drainCleanup
  input : y.effectiveInput = x.effectiveInput
  plugin : y.pluginKey = x.pluginKey
  creator : y.trace.creator = x.trace.creator
  past : y.trace.past = x.trace.past
  registered : y.trace.registered = x.trace.registered
  withdrawn : y.trace.withdrawn = x.trace.withdrawn
  cleaning : y.trace.cleaning = x.trace.cleaning
  tasks : y.trace.tasks = x.trace.tasks

theorem FiberOp.exec_kept {self : Party} {choice : Choice} {op : FiberOp} {x y : Fiber}
    {r : op.Ret} (h : op.exec self choice x = some (y, r)) : FiberOp.Kept x y := by
  by_cases hr : op.reads = true
  · rw [FiberOp.exec_reads hr h]
    constructor <;> rfl
  · cases op <;> simp only [FiberOp.reads, not_true_eq_false] at hr <;>
      simp only [FiberOp.exec, Fiber.publish] at h <;> (repeat' split at h) <;>
      simp only [Option.some.injEq, Prod.mk.injEq, reduceCtorEq] at h <;>
      rcases h with ⟨rfl, -⟩ <;> constructor <;> rfl

/-! ## Fibers that an operation does not touch -/

@[simp] theorem fibers_owe (s : Root) (self : Party) (edges : List DependencyEdge) :
    (s.owe self edges).fibers = s.fibers := by
  unfold Root.owe
  split
  · split <;> rfl
  · rfl

@[simp] theorem fibers_advance (s : Root) (self : Party) (f : FiberId) :
    (s.advance self f).fibers = s.fibers := by
  unfold Root.advance
  split
  · split <;> rfl
  · rfl

theorem fibers_enroll_of_ne (s : Root) {f g : FiberId} (h : g ≠ f) :
    (s.enroll f).fibers g = s.fibers g := by
  unfold Root.enroll
  split
  · rfl
  · split
    · exact Root.fibers_put_of_ne _ _ h
    · exact Root.fibers_put_of_ne s _ h

theorem fibers_attach_of_ne (s : Root) {f g : FiberId} (key : PluginKey) (h : g ≠ f) :
    (s.attach f key).fibers g = s.fibers g := by
  unfold Root.attach
  split <;> exact Root.fibers_put_of_ne _ _ h

theorem fibers_closeStore (s : Root) (g : FiberId) :
    s.closeStore.fibers g =
      if s.affects g then (s.fibers g).remember (s.assignments g) else s.fibers g :=
  rfl

/-- What a step can do to a Fiber whose handle it does not use. -/
theorem exec_fibers {self fresh : Party} {choice : Choice} {op : Op} {s s' : Root} {r : op.Ret}
    (h : exec self fresh choice op s = some (s', r)) {g : FiberId} (hg : op.touches ≠ some g) :
    s'.fibers g = s.fibers g ∨
      (op = .unlockStore ∧ s' = s.closeStore) ∨
      (∃ edges, op = .allocate edges ∧
        s' = (s.put s.nextFiber (Fiber.created edges self)).takeFiber) := by
  cases op <;> simp only [exec, guarded] at h
  case unlockStore =>
    simp only [Option.some.injEq, Prod.mk.injEq] at h
    exact .inr (.inl ⟨rfl, h.1.symm⟩)
  case allocate edges =>
    simp only [Option.some.injEq, Prod.mk.injEq] at h
    exact .inr (.inr ⟨edges, rfl, h.1.symm⟩)
  case fork routine =>
    left
    cases routine <;> simp only [Option.some.injEq, Prod.mk.injEq] at h <;>
      rcases h with ⟨rfl, -⟩ <;>
      simp only [Op.touches, ne_eq, Option.some.injEq, reduceCtorEq, not_false_eq_true] at hg <;>
      first
        | rfl
        | exact Root.fibers_put_of_ne _ _ (Ne.symm hg)
  case on f op =>
    simp only [Option.map_eq_some_iff, Prod.mk.injEq] at h
    rcases h with ⟨_, -, rfl, -⟩
    simp only [Op.touches, ne_eq, Option.some.injEq] at hg
    exact .inl (Root.fibers_put_of_ne _ _ (Ne.symm hg))
  case attach f key =>
    simp only [Option.some.injEq, Prod.mk.injEq] at h
    rcases h with ⟨rfl, -⟩
    simp only [Op.touches, ne_eq, Option.some.injEq] at hg
    exact .inl (fibers_attach_of_ne s key (Ne.symm hg))
  case register f =>
    simp only [Op.touches, ne_eq, Option.some.injEq] at hg
    split at h <;> simp only [Option.some.injEq, Prod.mk.injEq] at h <;> rcases h with ⟨rfl, -⟩
    · exact .inl (fibers_enroll_of_ne s (Ne.symm hg))
    · exact .inl rfl
  case commitRecheck f =>
    simp only [Op.touches, ne_eq, Option.some.injEq] at hg
    simp only [Option.some.injEq, Prod.mk.injEq] at h
    rcases h with ⟨rfl, -⟩
    rw [fibers_advance]
    exact .inl (Root.fibers_put_of_ne _ _ (Ne.symm hg))
  case dependentsOf edges =>
    simp only [Option.some.injEq, Prod.mk.injEq] at h
    rcases h with ⟨rfl, -⟩
    exact .inl (congrFun (fibers_owe s self edges) g)
  all_goals
    simp only [Op.touches, ne_eq, Option.some.injEq, reduceCtorEq, not_false_eq_true] at hg
    left
    (repeat' split at h) <;>
      simp only [Option.some.injEq, Prod.mk.injEq, reduceCtorEq] at h <;>
      rcases h with ⟨rfl, -⟩ <;>
      first
        | rfl
        | exact Root.fibers_put_of_ne _ _ (Ne.symm hg)

/-- Two records of a Fiber differ at most in counters, obligations and bookkeeping. -/
structure SameCore (x y : Fiber) : Prop where
  edges : y.edges = x.edges
  flags : y.flags = x.flags
  inertia : y.inertia = x.inertia
  target : y.target = x.target
  settled : y.recheckSettled = x.recheckSettled
  state : y.state = x.state
  sequence : y.sequence = x.sequence
  journal : y.disposablesLock = x.disposablesLock
  gate : y.mutationGate = x.mutationGate
  error : y.error = x.error
  creator : y.trace.creator = x.trace.creator
  applying : y.trace.applying = x.trace.applying
  acknowledged : y.trace.acknowledged = x.trace.acknowledged
  owners : y.trace.owners = x.trace.owners
  delivered : y.trace.delivered = x.trace.delivered

theorem SameCore.refl (x : Fiber) : SameCore x x := by
  constructor <;> rfl

theorem SameCore.of_put {s : Root} {f g : FiberId} {x : Fiber} (h : SameCore (s.fibers f) x) :
    SameCore (s.fibers g) ((s.put f x).fibers g) := by
  by_cases hg : g = f
  · subst hg
    rwa [Root.fibers_put]
  · rw [Root.fibers_put_of_ne _ _ hg]
    exact SameCore.refl _

theorem SameCore.attach (s : Root) (f g : FiberId) (key : PluginKey) :
    SameCore (s.fibers g) ((s.attach f key).fibers g) := by
  unfold Root.attach
  split
  · refine SameCore.of_put (s := s.join f _) ?_
    constructor <;> rfl
  · refine SameCore.of_put (s := (s.newGroup key).join f s.nextGroup) ?_
    constructor <;> rfl

theorem SameCore.enroll (s : Root) (f g : FiberId) :
    SameCore (s.fibers g) ((s.enroll f).fibers g) := by
  unfold Root.enroll
  split
  · exact SameCore.refl _
  · split
    · refine SameCore.of_put ?_
      constructor <;> rfl
    · show SameCore _ ((s.put f _).fibers g)
      refine SameCore.of_put ?_
      constructor <;> rfl

/-- What a step can do to a Fiber: allocate it, operate on it, or touch its bookkeeping. -/
theorem exec_core {self fresh : Party} {choice : Choice} {op : Op} {s s' : Root} {r : op.Ret}
    (h : exec self fresh choice op s = some (s', r)) (g : FiberId) :
    SameCore (s.fibers g) (s'.fibers g) ∨
      (∃ (op' : FiberOp) (r' : op'.Ret), op = .on g op' ∧
        op'.exec self choice (s.fibers g) = some (s'.fibers g, r')) ∨
      (∃ edges, op = .allocate edges ∧ g = s.nextFiber ∧
        s'.fibers g = Fiber.created edges self) := by
  -- bookkeeping puts the fiber back with its core
  have hput : ∀ {f : FiberId} {x : Fiber}, SameCore (s.fibers f) x →
      SameCore (s.fibers g) ((s.put f x).fibers g) := fun hx => SameCore.of_put hx
  cases op <;> simp only [exec, guarded] at h
  case on f op =>
    simp only [Option.map_eq_some_iff, Prod.mk.injEq] at h
    rcases h with ⟨⟨y, r'⟩, hop, rfl, -⟩
    by_cases hg : g = f
    · subst hg
      rw [Root.fibers_put]
      exact .inr (.inl ⟨op, r', rfl, hop⟩)
    · rw [Root.fibers_put_of_ne _ _ hg]
      exact .inl (SameCore.refl _)
  case allocate edges =>
    simp only [Option.some.injEq, Prod.mk.injEq] at h
    rcases h with ⟨rfl, -⟩
    by_cases hg : g = s.nextFiber
    · exact .inr (.inr ⟨edges, rfl, hg, hg ▸ Root.fibers_put _ _ _⟩)
    · left
      show SameCore _ ((s.put s.nextFiber _).fibers g)
      rw [Root.fibers_put_of_ne _ _ hg]
      exact SameCore.refl _
  case unlockStore =>
    left
    simp only [Option.some.injEq, Prod.mk.injEq] at h
    rcases h with ⟨rfl, -⟩
    -- what the affected fibers remember of the section is not part of the core
    rw [fibers_closeStore]
    split <;> constructor <;> rfl
  case attach f key =>
    left
    simp only [Option.some.injEq, Prod.mk.injEq] at h
    rcases h with ⟨rfl, -⟩
    exact SameCore.attach s f g key
  case register f =>
    left
    split at h <;> simp only [Option.some.injEq, Prod.mk.injEq] at h <;> rcases h with ⟨rfl, -⟩
    · exact SameCore.enroll s f g
    · exact SameCore.refl _
  case commitRecheck f =>
    left
    simp only [Option.some.injEq, Prod.mk.injEq] at h
    rcases h with ⟨rfl, -⟩
    rw [fibers_advance]
    refine hput ?_
    constructor <;> rfl
  case dependentsOf edges =>
    left
    simp only [Option.some.injEq, Prod.mk.injEq] at h
    rcases h with ⟨rfl, -⟩
    rw [fibers_owe]
    exact SameCore.refl _
  case fork routine =>
    left
    cases routine <;> simp only [Option.some.injEq, Prod.mk.injEq] at h <;>
      rcases h with ⟨rfl, -⟩ <;>
      first
        | exact SameCore.refl _
        | (refine hput ?_
           constructor <;> rfl)
  all_goals
    left
    (repeat' split at h) <;>
      simp only [Option.some.injEq, Prod.mk.injEq, reduceCtorEq] at h <;>
      rcases h with ⟨rfl, -⟩ <;>
      first
        | exact SameCore.refl _
        | (refine hput ?_
           constructor <;> rfl)

/-- Who writes the counters, obligations and bookkeeping of a Fiber. -/
structure Books (op : Op) (g : FiberId) (x y : Fiber) : Prop where
  committed : op ≠ .commitRecheck g →
    y.recheckCommitted = x.recheckCommitted ∧ y.trace.kicks = x.trace.kicks
  input : op ≠ .commitChange g → (∀ key, op ≠ .install g key) →
    y.effectiveInput = x.effectiveInput
  plugin : (∀ key, op ≠ .install g key) → y.pluginKey = x.pluginKey
  disposables : (∀ cleanup, op ≠ .push g cleanup) → y.disposables = x.disposables
  drain : op ≠ .claimCleanup g → y.drainCleanup = x.drainCleanup
  cleaning : op ≠ .claimCleanup g → (∀ id cleanup, op ≠ .fork (.cleanup g id cleanup)) →
    (∀ id, op ≠ .sendOutcome g id) → y.trace.cleaning = x.trace.cleaning
  admitted : (∀ ctx operation, op ≠ .refuseRecursion ctx g operation) →
    y.trace.admitted = x.trace.admitted
  residency : (∀ key, op ≠ .attach g key) → y.residency = x.residency
  unlinking : (∀ group, op ≠ .upgradeClaim g group) → (∀ group, op ≠ .releaseClaim g group) →
    y.trace.unlinking = x.trace.unlinking
  registered : op ≠ .register g → y.trace.registered = x.trace.registered
  past : op ≠ .register g → op ≠ .unlockStore → y.trace.past = x.trace.past
  withdrawn : op ≠ .unregister g → y.trace.withdrawn = x.trace.withdrawn
  holders : op ≠ .fork (.convergence g) → y.trace.holders = x.trace.holders
  tasks : op ≠ .fork (.task g) → y.trace.tasks = x.trace.tasks

theorem Books.refl (op : Op) (g : FiberId) (x : Fiber) : Books op g x x := by
  constructor <;> intros <;> first | rfl | exact ⟨rfl, rfl⟩

theorem Books.of_put {op : Op} {s : Root} {f g : FiberId} {x : Fiber}
    (h : g = f → Books op g (s.fibers f) x) :
    Books op g (s.fibers g) ((s.put f x).fibers g) := by
  by_cases hg : g = f
  · have hx := h hg
    subst hg
    rwa [Root.fibers_put]
  · rw [Root.fibers_put_of_ne _ _ hg]
    exact Books.refl _ _ _

/-- What a step does to the counters, obligations and bookkeeping of a Fiber. -/
theorem exec_books {self fresh : Party} {choice : Choice} {op : Op} {s s' : Root} {r : op.Ret}
    (h : exec self fresh choice op s = some (s', r)) (hon : ∀ f op', op ≠ .on f op')
    (hallocate : ∀ edges, op ≠ .allocate edges) (g : FiberId) :
    Books op g (s.fibers g) (s'.fibers g) := by
  cases op <;> simp only [exec, guarded] at h
  case on f op => exact absurd rfl (hon f op)
  case allocate edges => exact absurd rfl (hallocate edges)
  -- closing the section drops what it collected from the index, not from the journals
  case unlockStore =>
    simp only [Option.some.injEq, Prod.mk.injEq] at h
    rcases h with ⟨rfl, -⟩
    rw [fibers_closeStore]
    split <;> constructor <;> intros <;> first | rfl | exact ⟨rfl, rfl⟩ | contradiction
  case attach f key =>
    simp only [Option.some.injEq, Prod.mk.injEq] at h
    rcases h with ⟨rfl, -⟩
    unfold Root.attach
    split
    · refine Books.of_put (s := s.join f _) fun hg => ?_
      subst hg
      constructor <;> intros <;>
        first
          | rfl
          | exact ⟨rfl, rfl⟩
          | (rename_i hop; exact absurd rfl (hop _))
    · refine Books.of_put (s := (s.newGroup key).join f s.nextGroup) fun hg => ?_
      subst hg
      constructor <;> intros <;>
        first
          | rfl
          | exact ⟨rfl, rfl⟩
          | (rename_i hop; exact absurd rfl (hop _))
  case register f =>
    split at h <;> simp only [Option.some.injEq, Prod.mk.injEq] at h <;> rcases h with ⟨rfl, -⟩
    · show Books _ _ _ ((s.enroll f).fibers g)
      unfold Root.enroll
      split
      · exact Books.refl _ _ _
      · split
        · refine Books.of_put fun hg => ?_
          subst hg
          constructor <;> intros <;> first | rfl | exact ⟨rfl, rfl⟩ | contradiction
        · show Books _ _ _ ((s.put f _).fibers g)
          refine Books.of_put fun hg => ?_
          subst hg
          constructor <;> intros <;> first | rfl | exact ⟨rfl, rfl⟩ | contradiction
    · exact Books.refl _ _ _
  case commitRecheck f =>
    simp only [Option.some.injEq, Prod.mk.injEq] at h
    rcases h with ⟨rfl, -⟩
    rw [fibers_advance]
    refine Books.of_put fun hg => ?_
    subst hg
    constructor <;> intros <;> first | rfl | contradiction
  case dependentsOf edges =>
    simp only [Option.some.injEq, Prod.mk.injEq] at h
    rcases h with ⟨rfl, -⟩
    rw [fibers_owe]
    exact Books.refl _ _ _
  case fork routine =>
    cases routine <;> simp only [Option.some.injEq, Prod.mk.injEq] at h <;>
      rcases h with ⟨rfl, -⟩ <;>
      first
        | exact Books.refl _ _ _
        | (refine Books.of_put fun hg => ?_
           subst hg
           constructor <;> intros <;>
             first
               | rfl
               | exact ⟨rfl, rfl⟩
               | contradiction
               | (rename_i hop _; exact absurd rfl (hop _ _)))
  -- every other operation leaves the Fiber alone or stores it back with these fields unchanged
  all_goals
    (repeat' split at h) <;>
      simp only [Option.some.injEq, Prod.mk.injEq, reduceCtorEq] at h <;>
      rcases h with ⟨rfl, -⟩ <;>
      first
        | exact Books.refl _ _ _
        | (refine Books.of_put fun hg => ?_
           subst hg
           constructor <;> intros <;>
             first
               | rfl
               | exact ⟨rfl, rfl⟩
               | contradiction
               | (rename_i hop; exact absurd rfl (hop _))
               | (rename_i hop _; exact absurd rfl (hop _))
               | (rename_i hop; exact absurd rfl (hop _ _)))

/-- The three things that a step can be for a Fiber. -/
inductive Touch (self : Party) (choice : Choice) (op : Op) (s s' : Root) (g : FiberId) : Prop where
  /-- An operation on the Fiber itself. -/
  | on (op' : FiberOp) (r : op'.Ret) (hop : op = .on g op')
      (hexec : op'.exec self choice (s.fibers g) = some (s'.fibers g, r))
  /-- Its allocation. -/
  | born (edges : List DependencyEdge) (hop : op = .allocate edges) (hg : g = s.nextFiber)
      (hfiber : s'.fibers g = Fiber.created edges self)
  /-- A step that writes its bookkeeping at most. -/
  | aside (hon : ∀ op', op ≠ .on g op') (hcore : SameCore (s.fibers g) (s'.fibers g))
      (hbooks : Books op g (s.fibers g) (s'.fibers g))

theorem exec_touch {self fresh : Party} {choice : Choice} {op : Op} {s s' : Root} {r : op.Ret}
    (h : exec self fresh choice op s = some (s', r)) (g : FiberId) :
    Touch self choice op s s' g := by
  rcases exec_core h g with hcore | ⟨op', r', hop, hexec⟩ | ⟨edges, hop, hg, hfiber⟩
  · by_cases hon : ∃ f op', op = .on f op'
    · rcases hon with ⟨f, op', rfl⟩
      simp only [exec, Option.map_eq_some_iff, Prod.mk.injEq] at h
      rcases h with ⟨⟨y, r'⟩, hexec, rfl, -⟩
      by_cases hg : g = f
      · subst hg
        exact .on op' r' rfl (by rw [Root.fibers_put]; exact hexec)
      · refine .aside (fun op hop => ?_) hcore ?_
        · cases hop
          exact hg rfl
        · rw [Root.fibers_put_of_ne _ _ hg]
          exact Books.refl _ _ _
    · by_cases hallocate : ∃ edges, op = .allocate edges
      · rcases hallocate with ⟨edges, rfl⟩
        simp only [exec, Option.some.injEq, Prod.mk.injEq] at h
        rcases h with ⟨rfl, -⟩
        by_cases hg : g = s.nextFiber
        · exact .born edges rfl hg (hg ▸ Root.fibers_put _ _ _)
        · refine .aside nofun hcore ?_
          show Books _ _ _ ((s.put s.nextFiber _).fibers g)
          rw [Root.fibers_put_of_ne _ _ hg]
          exact Books.refl _ _ _
      · refine .aside (fun op' hop => hon ⟨g, op', hop⟩) hcore ?_
        exact exec_books h (fun f op' hop => hon ⟨f, op', hop⟩)
          (fun edges hop => hallocate ⟨edges, hop⟩) g
  · exact .on op' r' hop hexec
  · exact .born edges hop hg hfiber

theorem exec_nextFiber {self fresh : Party} {choice : Choice} {op : Op} {s s' : Root}
    {r : op.Ret} (h : exec self fresh choice op s = some (s', r)) :
    s'.nextFiber = s.nextFiber ∨
      ∃ edges, op = .allocate edges ∧ s'.nextFiber = s.nextFiber + 1 := by
  cases op <;> simp only [exec, guarded] at h
  case allocate edges =>
    simp only [Option.some.injEq, Prod.mk.injEq] at h
    exact .inr ⟨edges, rfl, h.1 ▸ rfl⟩
  case fork routine =>
    left
    cases routine <;> simp only [Option.some.injEq, Prod.mk.injEq] at h <;>
      rcases h with ⟨rfl, -⟩ <;> rfl
  case attach f key =>
    simp only [Option.some.injEq, Prod.mk.injEq] at h
    rcases h with ⟨rfl, -⟩
    unfold Root.attach
    split <;> exact .inl rfl
  case register f =>
    split at h <;> simp only [Option.some.injEq, Prod.mk.injEq] at h <;> rcases h with ⟨rfl, -⟩
    · unfold Root.enroll
      split
      · exact .inl rfl
      · split <;> exact .inl rfl
    · exact .inl rfl
  case commitRecheck f =>
    simp only [Option.some.injEq, Prod.mk.injEq] at h
    rcases h with ⟨rfl, -⟩
    unfold Root.advance
    split
    · split <;> exact .inl rfl
    · exact .inl rfl
  case dependentsOf edges =>
    simp only [Option.some.injEq, Prod.mk.injEq] at h
    rcases h with ⟨rfl, -⟩
    unfold Root.owe
    split
    · split <;> exact .inl rfl
    · exact .inl rfl
  all_goals
    left
    (repeat' split at h) <;>
      simp only [Option.map_eq_some_iff, Option.some.injEq, Prod.mk.injEq, reduceCtorEq] at h <;>
      first
        | (rcases h with ⟨rfl, -⟩; rfl)
        | (rcases h with ⟨_, -, rfl, -⟩; rfl)

theorem exec_nextFiber_le {self fresh : Party} {choice : Choice} {op : Op} {s s' : Root}
    {r : op.Ret} (h : exec self fresh choice op s = some (s', r)) :
    s.nextFiber ≤ s'.nextFiber := by
  rcases exec_nextFiber h with hnext | ⟨_, -, hnext⟩ <;> omega

/-- Dropping a party ends its frames and its driving, and nothing else. -/
theorem dropped_eq {p : Party} {s s' : Root} {next : Option Routine}
    (h : dropped p s = some (s', next)) :
    ∃ fibers driving, s' = { s with fibers := fibers, driving := driving } ∧
      ∀ g, fibers g = s.fibers g ∨ fibers g = (s.fibers g).forget p := by
  unfold dropped at h
  split at h
  · split at h <;> simp only [Option.some.injEq, Prod.mk.injEq] at h <;> rcases h with ⟨rfl, -⟩
    · refine ⟨_, _, rfl, fun g => ?_⟩
      rename_i f _
      show (if g = f then (s.fibers f).forget p else s.fibers g) = _ ∨ _
      split
      · rename_i hg
        subst hg
        exact .inr (if_pos rfl)
      · exact .inl rfl
    · exact ⟨s.fibers, s.driving, rfl, fun g => .inl rfl⟩
  · cases h

/-- Only a creation guard takes over for a dropped party. -/
theorem dropped_guard {p : Party} {s s' : Root} {routine : Routine}
    (h : dropped p s = some (s', some routine)) : ∃ f, routine = .creationGuard f := by
  unfold dropped at h
  split at h
  · split at h <;> simp only [Option.some.injEq, Prod.mk.injEq, reduceCtorEq, and_false] at h
    exact ⟨_, h.2.symm⟩
  · cases h

/-! ## Fibers that do not exist yet -/

/-- No Fiber beyond the allocated ones was ever touched. -/
def Fresh (s : Root) : Prop :=
  ∀ f, s.nextFiber ≤ f → s.fibers f = {}

theorem Fresh.exec {self fresh : Party} {choice : Choice} {op : Op} {s s' : Root} {r : op.Ret}
    (hs : Fresh s) (h : cordis.exec self fresh choice op s = some (s', r)) : Fresh s' := by
  intro f hf
  have hn := exec_nextFiber (cordis_exec h)
  have hle : s.nextFiber ≤ f := by
    rcases hn with hn | ⟨_, -, hn⟩ <;> omega
  have hne : op.touches ≠ some f := fun htouch =>
    absurd (cordis_touches h htouch) (Nat.not_lt.mpr hle)
  rcases exec_fibers (cordis_exec h) hne with hsame | ⟨-, rfl⟩ | ⟨edges, -, rfl⟩
  · rw [hsame]
    exact hs f hle
  · have haffects : s.affects f = false := by
      simp [Root.affects, Nat.not_lt.mpr hle]
    rw [fibers_closeStore, haffects]
    exact hs f hle
  · have hlt : s.nextFiber + 1 ≤ f := hf
    have hput : f ≠ s.nextFiber := by omega
    exact (Root.fibers_put_of_ne s _ hput).trans (hs f hle)

theorem Fresh.dropped {p : Party} {s s' : Root} {next : Option Routine} (hs : Fresh s)
    (h : dropped p s = some (s', next)) : Fresh s' := by
  rcases dropped_eq h with ⟨fibers, driving, rfl, hfibers⟩
  intro g hg
  have hblank : s.fibers g = {} := hs g hg
  rcases hfibers g with hsame | hsame
  · exact hsame.trans hblank
  · refine hsame.trans ?_
    rw [hblank]
    rfl

theorem fresh_of_reachable {ok : Condition} {c : State} (h : Reachable ok c) :
    Fresh c.shared := by
  refine Machine.Reachable.invariant cordis ?_ Fresh.exec (fun hs henter => ?_) Fresh.dropped h
  · intro f hf
    exact if_neg (Nat.ne_of_gt hf)
  · simp only [cordis, enter, Option.ite_none_right_eq_some, Option.some.injEq] at henter
    exact henter.2 ▸ hs

end Runtime
end CordisCore
