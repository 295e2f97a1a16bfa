import CordisCore.Fiber.Frame
import CordisCore.Fiber.Stages
import CordisCore.Interleaving.Logic

/-!
# Claims — every Fiber joins one allocation and leaves it through its own claim

Who attaches a Fiber has just allocated it, and who releases a claim has just
taken it; both are facts about the programs, so they are proved with a logic.
-/

namespace CordisCore
namespace Runtime

open Interleaving

/-! ## Steps of the registry -/

/-- The Fiber joined this allocation. -/
def Attached (s : Root) (f : FiberId) (group : GroupId) : Prop :=
  .attached f group ∈ s.registryLog

/-- The claim of the Fiber is used up. -/
def Released (s : Root) (f : FiberId) : Prop :=
  ∃ group, .released f group ∈ s.registryLog

/-- Nothing in the registry changes. -/
structure SameRegistry (s s' : Root) : Prop where
  allocations : s'.allocations = s.allocations
  groups : s'.groups = s.groups
  groupKeys : s'.groupKeys = s.groupKeys
  residents : s'.residents = s.residents
  detachedGroups : s'.detachedGroups = s.detachedGroups
  upgradedClaims : s'.upgradedClaims = s.upgradedClaims
  registryLog : s'.registryLog = s.registryLog
  nextGroup : s'.nextGroup = s.nextGroup

theorem SameRegistry.attached {s s' : Root} (h : SameRegistry s s') {f : FiberId}
    {group : GroupId} : Attached s' f group ↔ Attached s f group := by
  rw [Attached, h.registryLog]
  exact Iff.rfl

/-- What an operation can do to the registry. -/
inductive RegistryStep (self : Party) (op : Op) (s s' : Root) : Prop where
  | attach {f : FiberId} {key : PluginKey} (hop : op = .attach f key) (h : s' = s.attach f key)
  | upgrade {f : FiberId} {group : GroupId} (hop : op = .upgradeClaim f group)
      (halive : s.groupAlive group = true)
      (h : s' = { s with upgradedClaims := group :: s.upgradedClaims })
  | forsake {f : FiberId} {group : GroupId} (hop : op = .upgradeClaim f group)
      (hdead : s.groupAlive group = false)
      (h : s' = (s.forsakeClaim f group).put f ((s.fibers f).unlinked self))
  | release {f : FiberId} {group : GroupId} (hop : op = .releaseClaim f group)
      (h : s' = (s.releaseClaim f group).put f ((s.fibers f).unlinked self))
  | detach {ctx : SettleCtx} {key : PluginKey} {group : GroupId}
      (hop : op = .detachForRemoval ctx key) (hmapped : s.allocationOf key = some group)
      (h : s' = s.detach key group)
  | drop {group : GroupId} (hop : op = .dropGroup group)
      (h : s' = { s with detachedGroups := s.detachedGroups.erase group })
  | aside (hattach : ∀ f key, op ≠ .attach f key) (hrelease : ∀ f group, op ≠ .releaseClaim f group)
      (hupgrade : ∀ f group, op ≠ .upgradeClaim f group) (h : SameRegistry s s')

theorem exec_registry {self fresh : Party} {choice : Choice} {op : Op} {s s' : Root} {r : op.Ret}
    (h : exec self fresh choice op s = some (s', r)) : RegistryStep self op s s' := by
  cases op <;> simp only [exec, guarded] at h
  case attach f key =>
    simp only [Option.some.injEq, Prod.mk.injEq] at h
    exact .attach rfl h.1.symm
  case upgradeClaim f group =>
    split at h <;> simp only [Option.some.injEq, Prod.mk.injEq] at h
    · rename_i halive
      exact .upgrade rfl halive h.1.symm
    -- the allocation is gone: the release gives up here
    · rename_i hdead
      exact .forsake rfl (eq_false_of_ne_true hdead) h.1.symm
  case releaseClaim f group =>
    simp only [Option.some.injEq, Prod.mk.injEq] at h
    exact .release rfl h.1.symm
  case detachForRemoval ctx key =>
    split at h
    · simp only [Option.some.injEq, Prod.mk.injEq] at h
      rcases h with ⟨rfl, -⟩
      exact .aside (by simp) (by simp) (by simp) (by constructor <;> rfl)
    · rename_i group hmapped
      split at h <;> simp only [Option.some.injEq, Prod.mk.injEq] at h
      · rcases h with ⟨rfl, -⟩
        exact .aside (by simp) (by simp) (by simp) (by constructor <;> rfl)
      · exact .detach rfl hmapped h.1.symm
  case dropGroup group =>
    simp only [Option.some.injEq, Prod.mk.injEq] at h
    exact .drop rfl h.1.symm
  case register f =>
    -- the others write neither the allocations nor the registry log
    refine .aside (by simp) (by simp) (by simp) ?_
    split at h <;> simp only [Option.some.injEq, Prod.mk.injEq] at h <;> rcases h with ⟨rfl, -⟩
    · unfold Root.register Root.enroll
      split
      · constructor <;> rfl
      · split <;> constructor <;> rfl
    · constructor <;> rfl
  case commitRecheck f =>
    refine .aside (by simp) (by simp) (by simp) ?_
    simp only [Option.some.injEq, Prod.mk.injEq] at h
    rcases h with ⟨rfl, -⟩
    unfold Root.advance
    split
    · split <;> constructor <;> rfl
    · constructor <;> rfl
  case dependentsOf edges =>
    refine .aside (by simp) (by simp) (by simp) ?_
    simp only [Option.some.injEq, Prod.mk.injEq] at h
    rcases h with ⟨rfl, -⟩
    unfold Root.owe
    split
    · split <;> constructor <;> rfl
    · constructor <;> rfl
  case fork routine =>
    refine .aside (by simp) (by simp) (by simp) ?_
    cases routine <;> simp only [Option.some.injEq, Prod.mk.injEq] at h <;>
      rcases h with ⟨rfl, -⟩ <;> constructor <;> rfl
  case on f op =>
    refine .aside (by simp) (by simp) (by simp) ?_
    simp only [Option.map_eq_some_iff, Prod.mk.injEq] at h
    rcases h with ⟨_, -, rfl, -⟩
    constructor <;> rfl
  all_goals
    refine .aside (by simp) (by simp) (by simp) ?_
    (repeat' split at h) <;>
      simp only [Option.some.injEq, Prod.mk.injEq, reduceCtorEq] at h <;>
      rcases h with ⟨rfl, -⟩ <;> constructor <;> rfl

/-- Entries of the registry log stay. -/
theorem exec_registryLog {self fresh : Party} {choice : Choice} {op : Op} {s s' : Root}
    {r : op.Ret} (h : exec self fresh choice op s = some (s', r)) {event : RegistryEvent}
    (hevent : event ∈ s.registryLog) : event ∈ s'.registryLog := by
  cases exec_registry h with
  | attach _ h =>
      subst h
      unfold Root.attach
      split <;> exact List.mem_cons_of_mem _ hevent
  | upgrade _ _ h | drop _ h =>
      subst h
      exact hevent
  | forsake _ _ h | release _ h | detach _ _ h =>
      subst h
      exact List.mem_cons_of_mem _ hevent
  | aside _ _ _ h => exact h.registryLog ▸ hevent

/-- The allocation that an attach joins, and the registry it joins it in. -/
theorem attach_eq (s : Root) (f : FiberId) (key : PluginKey) : ∃ group s₁,
    s.attach f key = (s₁.join f group).put f ((s.fibers f).reside group) ∧
      (s₁ = s ∧ s.allocationOf key = some group ∨
        s₁ = s.newGroup key ∧ group = s.nextGroup ∧ s.allocationOf key = none) := by
  unfold Root.attach
  split
  · rename_i group hmapped
    exact ⟨group, s, rfl, .inl ⟨rfl, hmapped⟩⟩
  · rename_i hnone
    exact ⟨s.nextGroup, s.newGroup key, rfl, .inr ⟨rfl, rfl, hnone⟩⟩

theorem mem_of_allocationOf {s : Root} {key : PluginKey} {group : GroupId}
    (h : s.allocationOf key = some group) : (key, group) ∈ s.allocations := by
  rw [Root.allocationOf, Option.map_eq_some_iff] at h
  rcases h with ⟨row, hrow, rfl⟩
  have hfound := List.find?_some hrow
  obtain rfl : row.1 = key := of_decide_eq_true hfound
  exact List.mem_of_find?_eq_some hrow

/-! ## What holds of every claim -/

/-- The claims that Fibers hold, that parties have taken, and that are used up. -/
structure Claims (s : Root) : Prop where
  held : ∀ {f group}, (s.fibers f).residency = some group →
    Attached s f group ∧ ¬ Released s f ∧ (s.fibers f).trace.unlinking = []
  taken : ∀ {f p}, p ∈ (s.fibers f).trace.unlinking →
    (s.fibers f).trace.unlinking = [p] ∧ ¬ Released s f ∧ ∃ group, Attached s f group
  once : ∀ {f group group'}, Attached s f group → Attached s f group' → group = group'
  known : ∀ {f group}, Attached s f group → f < s.nextFiber ∧ group < s.nextGroup
  keyed : ∀ {f group key}, Attached s f group → (s.fibers f).pluginKey = some key →
    s.groupKeys group = key
  mapped : ∀ {row}, row ∈ s.allocations → s.groupKeys row.2 = row.1 ∧ row.2 < s.nextGroup
  left : ∀ {f group}, .released f group ∈ s.registryLog → Attached s f group

/-- The party allocated the Fiber and has not attached it yet. -/
structure Made (p : Party) (s : Root) (f : FiberId) : Prop where
  creator : (s.fibers f).trace.creator = some p
  fresh : f < s.nextFiber
  unattached : ∀ group, ¬ Attached s f group
  plugin : (s.fibers f).pluginKey = none

/-- The party attached the Fiber under this key. -/
structure Joined (p : Party) (s : Root) (f : FiberId) (key : PluginKey) : Prop where
  creator : (s.fibers f).trace.creator = some p
  fresh : f < s.nextFiber
  attached : ∃ group, Attached s f group ∧ s.groupKeys group = key

/-- The party took the claim of the Fiber and has not released it yet. -/
structure Taken (p : Party) (s : Root) (f : FiberId) (group : GroupId) : Prop where
  unlinking : p ∈ (s.fibers f).trace.unlinking
  attached : Attached s f group

/-- What a party must be sure of before a stage of residency. -/
def Staged (p : Party) : Op → Root → Prop
  | .attach f _, s => Made p s f
  | .install f key, s => Joined p s f key
  | .upgradeClaim f group, s | .releaseClaim f group, s => Taken p s f group
  | _, _ => True

/-- The others leave a party what it made, joined and took. -/
structure Spares (p : Party) (s s' : Root) : Prop where
  made : ∀ {f}, Made p s f → Made p s' f
  joined : ∀ {f key}, Joined p s f key → Joined p s' f key
  taken : ∀ {f group}, Taken p s f group → Taken p s' f group

theorem Spares.refl (p : Party) (s : Root) : Spares p s s :=
  ⟨id, id, id⟩

theorem Spares.trans {p : Party} {s s' s'' : Root} (h : Spares p s s') (h' : Spares p s' s'') :
    Spares p s s'' :=
  ⟨fun hf => h'.made (h.made hf), fun hf => h'.joined (h.joined hf),
    fun hf => h'.taken (h.taken hf)⟩

theorem Staged.spares {p : Party} {op : Op} {s s' : Root} (h : Staged p op s)
    (hs : Spares p s s') : Staged p op s' := by
  cases op <;> first | exact hs.made h | exact hs.joined h | exact hs.taken h | trivial

/-! ## One operation -/

section Step

variable {self fresh : Party} {choice : Choice} {op : Op} {s s' : Root} {r : op.Ret}

/-- The residency, the claim in progress, the creator and the key stay. -/
structure SameStage (x y : Fiber) : Prop where
  residency : y.residency = x.residency
  unlinking : y.trace.unlinking = x.trace.unlinking
  creator : y.trace.creator = x.trace.creator
  plugin : y.pluginKey = x.pluginKey

theorem SameStage.refl (x : Fiber) : SameStage x x :=
  ⟨rfl, rfl, rfl, rfl⟩

/-- What a step outside the registry can do to the stage of a Fiber. -/
inductive StageStep (self : Party) (op : Op) (s s' : Root) (g : FiberId) : Prop where
  | same (h : SameStage (s.fibers g) (s'.fibers g))
  | installed {key : PluginKey} (hop : op = .install g key)
      (h : SameStage { s.fibers g with pluginKey := some key } (s'.fibers g))
  | took {group : GroupId} (hop : op = .on g .takeResidency)
      (hheld : (s.fibers g).residency = some group)
      (hresidency : (s'.fibers g).residency = none)
      (hunlinking : (s'.fibers g).trace.unlinking = self :: (s.fibers g).trace.unlinking)
      (hcreator : (s'.fibers g).trace.creator = (s.fibers g).trace.creator)
      (hplugin : (s'.fibers g).pluginKey = (s.fibers g).pluginKey)
  | born {edges : List DependencyEdge} (hop : op = .allocate edges) (hg : g = s.nextFiber)
      (h : s'.fibers g = Fiber.created edges self)

theorem exec_stage (h : exec self fresh choice op s = some (s', r)) {g : FiberId}
    (hattach : ∀ f key, op ≠ .attach f key) (hupgrade : ∀ f group, op ≠ .upgradeClaim f group)
    (hrelease : ∀ f group, op ≠ .releaseClaim f group) : StageStep self op s s' g := by
  rcases exec_touch h g with ⟨op', r', hop, hexec⟩ | ⟨edges, hop, hg, hborn⟩ | ⟨-, hcore, hbooks⟩
  · have hkept := FiberOp.exec_kept hexec
    by_cases htake : op' = .takeResidency
    · subst htake
      simp only [FiberOp.exec] at hexec
      split at hexec <;> simp only [Option.some.injEq, Prod.mk.injEq] at hexec
      · rename_i hsome
        rcases Option.isSome_iff_exists.mp hsome with ⟨group, hgroup⟩
        refine .took hop hgroup ?_ ?_ hkept.creator hkept.plugin <;>
          (rw [← hexec.1]; rfl)
      · exact .same (hexec.1 ▸ SameStage.refl _)
    · have hw : op'.writes .residency = false := by
        cases op' <;> first | rfl | exact absurd rfl htake | (rename_i flag; cases flag <;> rfl)
      have hresidency := FiberOp.exec_same_field hexec .residency hw
      exact .same ⟨hresidency.1, hresidency.2, hkept.creator, hkept.plugin⟩
  · exact .born hop hg hborn
  · by_cases hinstall : ∃ key, op = .install g key
    · rcases hinstall with ⟨key, rfl⟩
      refine .installed rfl ⟨hbooks.residency (by simp), hbooks.unlinking (by simp) (by simp), hcore.creator, ?_⟩
      simp only [exec] at h
      split at h <;> simp only [Option.some.injEq, Prod.mk.injEq, reduceCtorEq] at h
      rw [← h.1]
      show ((s.put g _).fibers g).pluginKey = some key
      rw [Root.fibers_put]
    · exact .same ⟨hbooks.residency (hattach g), hbooks.unlinking (hupgrade g) (hrelease g),
        hcore.creator, hbooks.plugin fun key hop => hinstall ⟨key, hop⟩⟩

/-- A log without releases of a Fiber keeps it unreleased. -/
theorem Released.of_log {event : RegistryEvent} {f : FiberId}
    (hlog : s'.registryLog = event :: s.registryLog) (hevent : ∀ group, event ≠ .released f group)
    (h : Released s' f) : Released s f := by
  rcases h with ⟨group, hgroup⟩
  rw [hlog] at hgroup
  rcases List.mem_cons.mp hgroup with heq | hold
  · exact absurd heq.symm (hevent group)
  · exact ⟨group, hold⟩

theorem Attached.of_log {event : RegistryEvent} {f : FiberId} {group : GroupId}
    (hlog : s'.registryLog = event :: s.registryLog) (hevent : event ≠ .attached f group)
    (h : Attached s' f group) : Attached s f group := by
  rw [Attached, hlog] at h
  rcases List.mem_cons.mp h with heq | hold
  · exact absurd heq.symm hevent
  · exact hold

/-- An attach gives its Fiber a claim on an allocation of the key. -/
theorem Claims.attach (hs : Claims s) {f : FiberId} {key : PluginKey} (hf : Made self s f) :
    Claims (s.attach f key) ∧ Joined self (s.attach f key) f key := by
  rcases attach_eq s f key with ⟨group, s₁, heq, hcase⟩
  have hfibers : s₁.fibers = s.fibers ∧ s₁.registryLog = s.registryLog ∧
      s₁.nextFiber = s.nextFiber ∧ s.nextGroup ≤ s₁.nextGroup := by
    rcases hcase with ⟨rfl, -⟩ | ⟨rfl, -, -⟩
    · exact ⟨rfl, rfl, rfl, Nat.le_refl _⟩
    · exact ⟨rfl, rfl, rfl, Nat.le_succ _⟩
  have hgroup : group < s₁.nextGroup ∧ s₁.groupKeys group = key := by
    rcases hcase with ⟨rfl, hmapped⟩ | ⟨rfl, rfl, -⟩
    · have hrow := hs.mapped (mem_of_allocationOf hmapped)
      exact ⟨hrow.2, hrow.1⟩
    · exact ⟨Nat.lt_succ_self _, if_pos rfl⟩
  have hkeys : ∀ g, g < s.nextGroup → s₁.groupKeys g = s.groupKeys g := by
    intro g hg
    rcases hcase with ⟨rfl, -⟩ | ⟨rfl, -, -⟩
    · rfl
    · exact if_neg (Nat.ne_of_lt hg)
  have hlog : (s.attach f key).registryLog = .attached f group :: s.registryLog := by
    rw [heq, ← hfibers.2.1]
    rfl
  have hself : (s.attach f key).fibers f = (s.fibers f).reside group := by
    rw [heq, Root.fibers_put]
  have hother : ∀ g, g ≠ f → (s.attach f key).fibers g = s.fibers g := by
    intro g hg
    rw [heq, Root.fibers_put_of_ne _ _ hg, ← hfibers.1]
    rfl
  -- nobody releases the claim of a Fiber that was never attached
  have hidle : (s.fibers f).trace.unlinking = [] := by
    cases hunlinking : (s.fibers f).trace.unlinking with
    | nil => rfl
    | cons p rest =>
        have htaken := hs.taken (f := f) (p := p) (hunlinking ▸ List.mem_cons_self)
        rcases htaken.2.2 with ⟨group', hattached⟩
        exact absurd hattached (hf.unattached group')
  have hunreleased : ∀ g, Released (s.attach f key) g → Released s g :=
    fun g => Released.of_log hlog nofun
  have hold : ∀ {g group'}, g ≠ f → Attached (s.attach f key) g group' → Attached s g group' := by
    intro g group' hg
    refine Attached.of_log hlog fun heq => hg ?_
    cases heq
    rfl
  have hkept : ∀ {g group'}, Attached s g group' → Attached (s.attach f key) g group' := by
    intro g group' hg
    rw [Attached, hlog]
    exact List.mem_cons_of_mem _ hg
  have hnew : ∀ {group'}, Attached (s.attach f key) f group' → group' = group := by
    intro group' hg
    rw [Attached, hlog] at hg
    rcases List.mem_cons.mp hg with heq | hold
    · cases heq
      rfl
    · exact absurd hold (hf.unattached group')
  have hattached : Attached (s.attach f key) f group := by
    rw [Attached, hlog]
    exact List.mem_cons_self
  have hnext : (s.attach f key).nextFiber = s.nextFiber ∧
      (s.attach f key).nextGroup = s₁.nextGroup := by
    rw [heq]
    exact ⟨hfibers.2.2.1, rfl⟩
  have hgroupKeys : (s.attach f key).groupKeys = s₁.groupKeys := by
    rw [heq]
    rfl
  refine ⟨{
    held := ?held
    taken := ?taken
    once := ?once
    known := ?known
    keyed := ?keyed
    mapped := ?mapped
    left := ?gone }, ⟨?creator, ?fresh, group, hattached, ?sameKey⟩⟩
  case held =>
    intro g group' hg
    by_cases hgf : g = f
    · subst hgf
      rw [hself] at hg ⊢
      obtain rfl : group = group' := Option.some.inj hg
      refine ⟨hattached, fun hreleased => ?_, hidle⟩
      rcases hunreleased g hreleased with ⟨group', hleft⟩
      exact hf.unattached group' (hs.left hleft)
    · rw [hother g hgf] at hg ⊢
      have hheld := hs.held hg
      exact ⟨hkept hheld.1, fun hreleased => hheld.2.1 (hunreleased g hreleased), hheld.2.2⟩
  case taken =>
    intro g p hg
    by_cases hgf : g = f
    · subst hgf
      rw [hself] at hg
      exact absurd (hidle ▸ hg) List.not_mem_nil
    · rw [hother g hgf] at hg ⊢
      have htaken := hs.taken hg
      rcases htaken.2.2 with ⟨group', hgroup'⟩
      exact ⟨htaken.1, fun hreleased => htaken.2.1 (hunreleased g hreleased), group', hkept hgroup'⟩
  case once =>
    intro g group' group'' hg hg'
    by_cases hgf : g = f
    · subst hgf
      rw [hnew hg, hnew hg']
    · exact hs.once (hold hgf hg) (hold hgf hg')
  case known =>
    intro g group' hg
    rw [hnext.1, hnext.2]
    by_cases hgf : g = f
    · subst hgf
      rw [hnew hg]
      exact ⟨hf.fresh, hgroup.1⟩
    · have hknown := hs.known (hold hgf hg)
      exact ⟨hknown.1, Nat.lt_of_lt_of_le hknown.2 hfibers.2.2.2⟩
  case keyed =>
    intro g group' key' hg hkey
    rw [hgroupKeys]
    by_cases hgf : g = f
    · subst hgf
      rw [hself] at hkey
      exact nomatch hf.plugin.symm.trans hkey
    · rw [hother g hgf] at hkey
      rw [hkeys group' (hs.known (hold hgf hg)).2]
      exact hs.keyed (hold hgf hg) hkey
  case mapped =>
    intro row hrow
    rw [hgroupKeys, hnext.2]
    have hallocations : (s.attach f key).allocations = s₁.allocations := by
      rw [heq]
      rfl
    rw [hallocations] at hrow
    -- an allocation that is found was mapped already, a new one is mapped now
    rcases hcase with ⟨rfl, -⟩ | ⟨rfl, -, -⟩
    · exact hs.mapped hrow
    · rcases List.mem_cons.mp hrow with rfl | hold
      · exact ⟨if_pos rfl, Nat.lt_succ_self _⟩
      · have hmapped := hs.mapped hold
        exact ⟨(hkeys _ hmapped.2).trans hmapped.1, Nat.lt_succ_of_lt hmapped.2⟩
  case gone =>
    intro g group' hleft
    rw [hlog] at hleft
    rcases List.mem_cons.mp hleft with heq | hold
    · cases heq
    · exact hkept (hs.left hold)
  case creator =>
    rw [hself]
    exact hf.creator
  case fresh =>
    rw [hnext.1]
    exact hf.fresh
  case sameKey =>
    rw [hgroupKeys]
    exact hgroup.2

/-- The end of a release uses the claim up, whether or not its allocation was still there. -/
theorem Claims.unlinked (hs : Claims s) {f : FiberId} {group : GroupId} (hf : Taken self s f group)
    (hlog : s'.registryLog = .released f group :: s.registryLog)
    (hself : s'.fibers f = (s.fibers f).unlinked self)
    (hother : ∀ g, g ≠ f → s'.fibers g = s.fibers g) (hkeys : s'.groupKeys = s.groupKeys)
    (hnext : s'.nextFiber = s.nextFiber ∧ s'.nextGroup = s.nextGroup)
    (hmapped : ∀ row ∈ s'.allocations, row ∈ s.allocations) : Claims s' := by
  -- the releasing party took the claim, so none is held and nobody else takes it
  have hidle : (s'.fibers f).residency = none ∧ (s'.fibers f).trace.unlinking = [] := by
    have htaken := hs.taken hf.unlinking
    rw [hself]
    constructor
    · cases hheld : (s.fibers f).residency with
      | none => exact hheld
      | some group' => exact nomatch (hs.held hheld).2.2.symm.trans htaken.1
    · show (s.fibers f).trace.unlinking.erase self = []
      rw [htaken.1, List.erase_cons_head]
  have hkey : (s'.fibers f).pluginKey = (s.fibers f).pluginKey := by
    rw [hself]
    rfl
  have hunreleased : ∀ {g}, g ≠ f → Released s' g → Released s g := by
    intro g hg
    refine Released.of_log hlog fun group' heq => hg ?_
    cases heq
    rfl
  have hold : ∀ {g group'}, Attached s' g group' → Attached s g group' :=
    fun h => Attached.of_log hlog nofun h
  have hkept : ∀ {g group'}, Attached s g group' → Attached s' g group' := by
    intro g group' hg
    rw [Attached, hlog]
    exact List.mem_cons_of_mem _ hg
  refine {
    held := ?held
    taken := ?taken
    once := fun hg hg' => hs.once (hold hg) (hold hg')
    known := ?known
    keyed := ?keyed
    mapped := ?mapped
    left := ?gone }
  case held =>
    intro g group' hg
    by_cases hgf : g = f
    · subst hgf
      exact nomatch hidle.1.symm.trans hg
    · rw [hother g hgf] at hg ⊢
      have hheld := hs.held hg
      exact ⟨hkept hheld.1, fun h => hheld.2.1 (hunreleased hgf h), hheld.2.2⟩
  case taken =>
    intro g p hg
    by_cases hgf : g = f
    · subst hgf
      exact absurd (hidle.2 ▸ hg) List.not_mem_nil
    · rw [hother g hgf] at hg ⊢
      have htaken := hs.taken hg
      rcases htaken.2.2 with ⟨group', hgroup'⟩
      exact ⟨htaken.1, fun h => htaken.2.1 (hunreleased hgf h), group', hkept hgroup'⟩
  case known =>
    intro g group' hg
    rw [hnext.1, hnext.2]
    exact hs.known (hold hg)
  case keyed =>
    intro g group' key hg hgkey
    rw [hkeys]
    refine hs.keyed (hold hg) ?_
    by_cases hgf : g = f
    · subst hgf
      exact hkey ▸ hgkey
    · rw [← hother g hgf]
      exact hgkey
  case mapped =>
    intro row hrow
    rw [hkeys, hnext.2]
    exact hs.mapped (hmapped row hrow)
  case gone =>
    intro g group' hleft
    rw [hlog] at hleft
    rcases List.mem_cons.mp hleft with heq | hold'
    · cases heq
      exact hkept hf.attached
    · exact hkept (hs.left hold')

/-- Steps outside the registry move claims between Fibers and parties. -/
theorem Claims.aside (hs : Claims s) (hsame : SameRegistry s s')
    (hnext : s.nextFiber ≤ s'.nextFiber) (hstage : ∀ g, StageStep self op s s' g)
    (hstaged : Staged self op s) : Claims s' := by
  have hattached : ∀ {g group}, Attached s' g group ↔ Attached s g group := hsame.attached
  have hreleased : ∀ {g}, Released s' g ↔ Released s g := by
    intro g
    rw [Released, hsame.registryLog]
    exact Iff.rfl
  refine {
    held := ?held
    taken := ?taken
    once := fun hg hg' => hs.once (hattached.mp hg) (hattached.mp hg')
    known := ?known
    keyed := ?keyed
    mapped := ?mapped
    left := ?gone }
  case held =>
    intro g group hg
    rw [hattached, hreleased]
    cases hstage g with
    | same h => exact h.unlinking ▸ hs.held (h.residency ▸ hg)
    | installed _ h => exact h.unlinking ▸ hs.held (h.residency ▸ hg)
    -- who took the residency of `g` left nothing to hold
    | took _ _ hresidency => exact nomatch hresidency.symm.trans hg
    | born _ _ h =>
        rw [h] at hg
        cases hg
  case taken =>
    intro g p hg
    rw [hreleased]
    simp only [hattached]
    cases hstage g with
    | same h => exact h.unlinking ▸ hs.taken (h.unlinking ▸ hg)
    | installed _ h => exact h.unlinking ▸ hs.taken (h.unlinking ▸ hg)
    | took _ hheld _ hunlinking =>
        -- the residency becomes the one claim that is under way
        have hclaim := hs.held hheld
        rw [hunlinking, hclaim.2.2] at hg ⊢
        obtain rfl := List.mem_singleton.mp hg
        exact ⟨rfl, hclaim.2.1, _, hclaim.1⟩
    | born _ _ h =>
        rw [h] at hg
        cases hg
  case known =>
    intro g group hg
    have hknown := hs.known (hattached.mp hg)
    exact ⟨Nat.lt_of_lt_of_le hknown.1 hnext, hsame.nextGroup ▸ hknown.2⟩
  case keyed =>
    intro g group key hg hkey
    rw [hsame.groupKeys]
    cases hstage g with
    | same h => exact hs.keyed (hattached.mp hg) (h.plugin ▸ hkey)
    | @installed key' hop h =>
        subst hop
        obtain rfl : key' = key := Option.some.inj (h.plugin.symm.trans hkey)
        -- the key installed is that of the group which the creator joined
        rcases hstaged.attached with ⟨group', hgroup', hkey'⟩
        exact hs.once hgroup' (hattached.mp hg) ▸ hkey'
    | took _ _ _ _ _ hplugin => exact hs.keyed (hattached.mp hg) (hplugin ▸ hkey)
    | born _ _ h =>
        rw [h] at hkey
        cases hkey
  case mapped =>
    intro row hrow
    rw [hsame.groupKeys, hsame.nextGroup]
    exact hs.mapped (hsame.allocations ▸ hrow)
  case gone =>
    intro g group hleft
    rw [hattached]
    exact hs.left (hsame.registryLog ▸ hleft)

/-- Every step of the registry keeps the claims in order, if its party is entitled to it. -/
theorem Claims.step (hs : Claims s) (hstep : RegistryStep self op s s')
    (hnext : s.nextFiber ≤ s'.nextFiber)
    (hstage : (∀ f key, op ≠ .attach f key) → (∀ f group, op ≠ .upgradeClaim f group) →
      (∀ f group, op ≠ .releaseClaim f group) → ∀ g, StageStep self op s s' g)
    (hstaged : Staged self op s) : Claims s' := by
  cases hstep with
  | attach hop heq =>
      subst hop
      subst heq
      exact (hs.attach hstaged).1
  | upgrade hop _ heq =>
      subst hop
      subst heq
      exact ⟨hs.held, hs.taken, hs.once, hs.known, hs.keyed, hs.mapped, hs.left⟩
  | @forsake f group hop _ heq =>
      subst hop
      subst heq
      exact hs.unlinked hstaged rfl (Root.fibers_put _ _ _)
        (fun g hg => Root.fibers_put_of_ne _ _ hg) rfl ⟨rfl, rfl⟩ fun _ hrow => hrow
  | @release f group hop heq =>
      subst hop
      subst heq
      refine hs.unlinked hstaged rfl (Root.fibers_put _ _ _)
        (fun g hg => Root.fibers_put_of_ne _ _ hg) rfl ⟨rfl, rfl⟩ fun row hrow => ?_
      have hrow' : row ∈ (s.releaseClaim f group).allocations := hrow
      unfold Root.releaseClaim at hrow'
      dsimp only at hrow'
      split at hrow'
      · exact List.mem_of_mem_filter hrow'
      · exact hrow'
  | @detach ctx key group hop _ heq =>
      subst hop
      subst heq
      -- a detachment is one more entry of the log: attached and released stay as they were
      have hlog : (s.detach key group).registryLog =
          .detached group (s.groups group) :: s.registryLog := rfl
      have hattached : ∀ {g group'}, Attached (s.detach key group) g group' → Attached s g group' :=
        fun hg => Attached.of_log hlog nofun hg
      have hunreleased : ∀ {g}, Released (s.detach key group) g → Released s g :=
        fun hg => Released.of_log hlog nofun hg
      have hkept : ∀ {event}, event ∈ s.registryLog → event ∈ (s.detach key group).registryLog :=
        fun hmem => List.mem_cons_of_mem _ hmem
      refine ⟨?_, ?_, fun hg hg' => hs.once (hattached hg) (hattached hg'),
        fun hg => hs.known (hattached hg), fun hg => hs.keyed (hattached hg),
        fun hrow => hs.mapped (List.mem_of_mem_filter hrow), fun hleft => ?_⟩
      · intro g group' hg
        have hheld := hs.held hg
        exact ⟨hkept hheld.1, fun hr => hheld.2.1 (hunreleased hr), hheld.2.2⟩
      · intro g p hg
        have htaken := hs.taken hg
        rcases htaken.2.2 with ⟨group', hgroup'⟩
        exact ⟨htaken.1, fun hr => htaken.2.1 (hunreleased hr), group', hkept hgroup'⟩
      · rcases List.mem_cons.mp hleft with hnew | hold
        · cases hnew
        · exact hkept (hs.left hold)
  | drop hop heq =>
      subst hop
      subst heq
      exact ⟨hs.held, hs.taken, hs.once, hs.known, hs.keyed, hs.mapped, hs.left⟩
  | aside hattach hrelease hupgrade hsame =>
      exact hs.aside hsame hnext (hstage hattach hupgrade hrelease) hstaged

theorem Claims.exec (hs : Claims s) (h : exec self fresh choice op s = some (s', r))
    (hstaged : Staged self op s) : Claims s' :=
  hs.step (exec_registry h) (exec_nextFiber_le h)
    (fun hattach hupgrade hrelease _ => exec_stage h hattach hupgrade hrelease) hstaged

/-! ## What the others leave alone -/

variable {t : Party}

/-- A new entry of the log is the performer's own. -/
theorem exec_attached (h : exec self fresh choice op s = some (s', r)) {f : FiberId}
    {group : GroupId} (hf : Attached s' f group) :
    Attached s f group ∨ ∃ key, op = .attach f key := by
  have hstep := exec_registry h
  rcases hstep with ⟨rfl, heq⟩ | ⟨-, -, heq⟩ | ⟨-, -, heq⟩ | ⟨-, heq⟩ | ⟨-, -, heq⟩ | ⟨-, heq⟩ |
    ⟨-, -, -, hsame⟩
  · rename_i g key
    rcases attach_eq s g key with ⟨group', s₁, hattach, hcase⟩
    have hlog : s'.registryLog = .attached g group' :: s.registryLog := by
      rw [heq, hattach]
      rcases hcase with ⟨rfl, -⟩ | ⟨rfl, -, -⟩ <;> rfl
    by_cases hg : g = f
    · exact .inr ⟨key, hg ▸ rfl⟩
    · refine .inl (Attached.of_log hlog (fun hevent => hg ?_) hf)
      cases hevent
      rfl
  · rw [heq] at hf
    exact .inl hf
  · rename_i g group'
    have hlog : s'.registryLog = .released g group' :: s.registryLog := heq ▸ rfl
    exact .inl (Attached.of_log hlog nofun hf)
  · rename_i g group'
    have hlog : s'.registryLog = .released g group' :: s.registryLog := heq ▸ rfl
    exact .inl (Attached.of_log hlog nofun hf)
  · rename_i group'
    have hlog : s'.registryLog = .detached group' (s.groups group') :: s.registryLog := heq ▸ rfl
    exact .inl (Attached.of_log hlog nofun hf)
  · rw [heq] at hf
    exact .inl hf
  · rw [Attached, hsame.registryLog] at hf
    exact .inl hf

/-- The keys of the allocations that exist are fixed. -/
theorem exec_groupKeys (h : exec self fresh choice op s = some (s', r)) {group : GroupId}
    (hgroup : group < s.nextGroup) : s'.groupKeys group = s.groupKeys group := by
  have hstep := exec_registry h
  rcases hstep with ⟨rfl, heq⟩ | ⟨-, -, heq⟩ | ⟨-, -, heq⟩ | ⟨-, heq⟩ | ⟨-, -, heq⟩ | ⟨-, heq⟩ |
    ⟨-, -, -, hsame⟩
  · rename_i g key
    rcases attach_eq s g key with ⟨group', s₁, hattach, hcase⟩
    rw [heq, hattach]
    rcases hcase with ⟨rfl, -⟩ | ⟨rfl, -, -⟩
    · rfl
    · exact if_neg (Nat.ne_of_lt hgroup)
  · rw [heq]
  · rw [heq]
    rfl
  · rw [heq]
    rfl
  · rw [heq]
    rfl
  · rw [heq]
  · rw [hsame.groupKeys]

/-- Nobody touches what another party made, joined or took; and no code outside the stages does. -/
theorem exec_spares (hs : Claims s) (h : exec self fresh choice op s = some (s', r))
    (hstaged : Staged self op s) (ht : t ≠ self ∨ staged op = false) : Spares t s s' := by
  have hnext := exec_nextFiber_le h
  -- only the creator attaches a fresh fiber and installs its key
  have hown : ∀ {f}, (s.fibers f).trace.creator = some t → f < s.nextFiber →
      (s'.fibers f).trace.creator = some t ∧ (∀ key, op ≠ .attach f key) ∧
        (s'.fibers f).pluginKey = (s.fibers f).pluginKey := by
    intro f hcreator hf
    have hattach : ∀ key, op ≠ .attach f key := by
      rintro key rfl
      rcases ht with ht | ht
      · exact ht (Option.some.inj (hcreator.symm.trans hstaged.creator))
      · cases ht
    have hinstall : ∀ key, op ≠ .install f key := by
      rintro key rfl
      rcases ht with ht | ht
      · exact ht (Option.some.inj (hcreator.symm.trans hstaged.creator))
      · cases ht
    rcases exec_touch h f with ⟨op', r', -, hexec⟩ | ⟨_, -, hg, -⟩ | ⟨-, hcore, hbooks⟩
    · have hkept := FiberOp.exec_kept hexec
      exact ⟨hkept.creator.trans hcreator, hattach, hkept.plugin⟩
    · exact absurd hf (Nat.not_lt.mpr (Nat.le_of_eq hg.symm))
    · exact ⟨hcore.creator.trans hcreator, hattach, hbooks.plugin hinstall⟩
  refine ⟨fun {f} hf => ?_, fun {f key} hf => ?_, fun {f group} hf => ?_⟩
  · have hkept := hown hf.creator hf.fresh
    refine ⟨hkept.1, Nat.lt_of_lt_of_le hf.fresh hnext, fun group hattached => ?_,
      hkept.2.2.trans hf.plugin⟩
    rcases exec_attached h hattached with hold | ⟨key, hop⟩
    · exact hf.unattached group hold
    · exact hkept.2.1 key hop
  · have hkept := hown hf.creator hf.fresh
    rcases hf.attached with ⟨group, hattached, hkey⟩
    exact ⟨hkept.1, Nat.lt_of_lt_of_le hf.fresh hnext, group, exec_registryLog h hattached,
      (exec_groupKeys h (hs.known hattached).2).trans hkey⟩
  · refine ⟨?_, exec_registryLog h hf.attached⟩
    have htaken := hs.taken hf.unlinking
    -- a claim that is under way is in the hands of one party
    have hsole : ∀ {group'}, Taken self s f group' → t = self := by
      intro group' hother
      exact List.mem_singleton.mp (htaken.1 ▸ hother.unlinking) ▸ rfl
    have hupgrade : ∀ group', op ≠ .upgradeClaim f group' := by
      rintro group' rfl
      rcases ht with ht | ht
      · exact ht (hsole hstaged)
      · cases ht
    have hrelease : ∀ group', op ≠ .releaseClaim f group' := by
      rintro group' rfl
      rcases ht with ht | ht
      · exact ht (hsole hstaged)
      · cases ht
    rcases exec_touch h f with ⟨op', r', hop, hexec⟩ | ⟨_, -, hg, -⟩ | ⟨-, -, hbooks⟩
    · by_cases htake : op' = .takeResidency
      · subst htake
        simp only [FiberOp.exec] at hexec
        split at hexec <;> simp only [Option.some.injEq, Prod.mk.injEq] at hexec
        · rw [← hexec.1]
          exact List.mem_cons_of_mem _ hf.unlinking
        · exact hexec.1 ▸ hf.unlinking
      -- no other operation of a fiber writes its residency
      · have hw : op'.writes .residency = false := by
          cases op' <;> first | rfl | exact absurd rfl htake | (rename_i flag; cases flag <;> rfl)
        exact (FiberOp.exec_same_field hexec .residency hw).2 ▸ hf.unlinking
    · have hknown := hs.known hf.attached
      exact absurd hknown.1 (Nat.not_lt.mpr (Nat.le_of_eq hg.symm))
    · exact hbooks.unlinking hupgrade hrelease ▸ hf.unlinking

end Step

/-! ## The logic -/

def residency : Logic cordis Machine.anyRun where
  inv := Claims
  rely := Spares
  blank _ _ := True
  pre _ _ _ := True
  post _ _ _ := True
  check := Staged
  rely_refl := Spares.refl
  rely_trans h h' := h.trans h'
  blank_rely _ _ := trivial
  post_rely _ _ := trivial

variable {p : Party} {s : Root}

theorem Claims.same {s' : Root} (hs : Claims s) (hregistry : SameRegistry s s')
    (hnext : s'.nextFiber = s.nextFiber)
    (hstage : ∀ g, SameStage (s.fibers g) (s'.fibers g)) : Claims s' := by
  -- as after an operation that is about no stage
  have hstep : ∀ g, StageStep 0 .lockStore s s' g := fun g => .same (hstage g)
  exact hs.aside hregistry (Nat.le_of_eq hnext.symm) hstep trivial

theorem Spares.same {s' : Root} (hregistry : SameRegistry s s')
    (hnext : s'.nextFiber = s.nextFiber) (hstage : ∀ g, SameStage (s.fibers g) (s'.fibers g))
    (t : Party) : Spares t s s' where
  made {f} hf :=
    ⟨(hstage f).creator.trans hf.creator, hnext ▸ hf.fresh,
      fun group hattached => hf.unattached group (hregistry.attached.mp hattached),
      (hstage f).plugin.trans hf.plugin⟩
  joined {f key} hf := by
    rcases hf.attached with ⟨group, hattached, hkey⟩
    exact ⟨(hstage f).creator.trans hf.creator, hnext ▸ hf.fresh, group,
      hregistry.attached.mpr hattached, (congrFun hregistry.groupKeys group).trans hkey⟩
  taken {f group} hf :=
    ⟨(hstage f).unlinking ▸ hf.unlinking, hregistry.attached.mpr hf.attached⟩

theorem residency_drops {op : Op} (hs : Claims s) : residency.Drops p op s := by
  intro _ _ s' next hdrop
  rcases dropped_eq hdrop with ⟨fibers, driving, rfl, hfibers⟩
  have hstage : ∀ g, SameStage (s.fibers g) (fibers g) := by
    intro g
    rcases hfibers g with h | h <;> rw [h]
    · exact SameStage.refl _
    · exact ⟨rfl, rfl, rfl, rfl⟩
  have hregistry : SameRegistry s { s with fibers := fibers, driving := driving } := by
    constructor <;> rfl
  refine ⟨hs.same hregistry rfl hstage, fun t _ => Spares.same hregistry rfl hstage t, ?_⟩
  cases next <;> trivial

/-- One operation, for whoever is entitled to it. -/
theorem wp_staged {op : Op} {Q : op.Ret → Root → Prop} (h : Staged p op s)
    (hQ : ∀ s₁ s' q c r, Spares p s s₁ → Claims s₁ → Staged p op s₁ →
      exec p q c op s₁ = some (s', r) → Q r s') :
    residency.wp p (perform op) Q s := by
  refine residency.wp_perform fun s₁ hr hs₁ => ?_
  have hstaged : Staged p op s₁ := h.spares hr
  refine ⟨hstaged, ?_, residency_drops hs₁⟩
  intro q c s' r _ _ hexec
  replace hexec := cordis_exec hexec
  have hinv : Claims s' := hs₁.exec hexec hstaged
  have hrely : ∀ t, t ≠ p → residency.rely t s₁ s' := fun t ht =>
    exec_spares hs₁ hexec hstaged (.inl ht)
  have hpost : Q r s' := hQ s₁ s' q c r hr hs₁ hstaged hexec
  cases cordis.forks op with
  | none => exact ⟨hinv, hrely, hpost⟩
  | some routine => exact fun _ _ => ⟨hinv, fun t ht _ => hrely t ht, trivial, hpost⟩

/-- Code outside the stages keeps whatever a party made, joined or took. -/
theorem wp_unstaged {op : Op} (h : staged op = false) :
    residency.wp p (perform op) (fun _ s' => Spares p s s') s := by
  have hstaged : Staged p op s := by
    cases op <;> first | exact trivial | exact absurd h Bool.noConfusion
  exact wp_staged hstaged fun _ _ _ _ _ hr hs₁ hstaged₁ hexec =>
    hr.trans (exec_spares hs₁ hexec hstaged₁ (.inr h))

theorem maintains_unstaged {α : Type} {x : Prog α} (hx : Unstaged x) :
    residency.Maintains (fun _ => True) p x :=
  Logic.Maintains.of_built
    (fun _ hop _ hs _ => residency.wp_mono hs (wp_unstaged hop) fun _ _ _ _ => trivial)
    (fun hno => hno.elim) hx

theorem maintains_admitFiber {key : PluginKey} {edges : List DependencyEdge} :
    residency.Maintains (fun _ => True) p (admitFiber key edges) := by
  intro s hs _
  refine residency.wp_seq hs (R := fun f s' => Made p s' f) ?_ ?_
  · refine wp_staged trivial ?_
    intro s₁ s' q c r _ hs₁ _ hexec
    simp only [exec, Option.some.injEq, Prod.mk.injEq] at hexec
    rcases hexec with ⟨rfl, rfl⟩
    have hborn := Root.fibers_put s₁ s₁.nextFiber (Fiber.created edges p)
    refine ⟨congrArg (·.trace.creator) hborn, Nat.lt_succ_self _, fun group hattached => ?_,
      congrArg (·.pluginKey) hborn⟩
    exact absurd (hs₁.known hattached).1 (Nat.lt_irrefl _)
  intro f s₁ hs₁ hf
  refine residency.wp_seq hs₁ (R := fun _ s' => Joined p s' f key) ?_ ?_
  · refine wp_staged hf ?_
    intro t s' q c r _ ht hmade hexec
    simp only [exec, Option.some.injEq, Prod.mk.injEq] at hexec
    exact hexec.1 ▸ (ht.attach hmade).2
  intro _ s₃ hs₃ hf₃
  refine residency.wp_seq hs₃ (wp_unstaged rfl) ?_
  intro _ s₄ hs₄ hr₄
  refine residency.wp_seq hs₄ (R := fun _ _ => True)
    (wp_staged (hr₄.joined hf₃) fun _ _ _ _ _ _ _ _ _ => trivial) ?_
  intro _ s₅ hs₅ _
  refine residency.wp_seq hs₅ (wp_unstaged rfl) ?_
  exact fun _ _ _ _ => trivial

theorem maintains_releaseResidency {f : FiberId} :
    residency.Maintains (fun _ => True) p (releaseResidency f) := by
  intro s hs _
  refine residency.wp_seq hs
    (R := fun claim s' => ∀ group, claim = some group → Taken p s' f group) ?_ ?_
  · refine wp_staged trivial ?_
    intro s₁ s' q c r _ hs₁ _ hexec group hr
    simp only [exec, Option.map_eq_some_iff, Prod.mk.injEq] at hexec
    rcases hexec with ⟨⟨x, r'⟩, hexec, rfl, rfl⟩
    dsimp only at hr
    subst hr
    simp only [FiberOp.exec] at hexec
    split at hexec <;>
      simp only [Option.some.injEq, Prod.mk.injEq, reduceCtorEq, and_false] at hexec
    refine ⟨?_, (hs₁.held hexec.2).1⟩
    rw [Root.fibers_put, ← hexec.1]
    exact List.mem_cons_self
  intro claim s₁ hs₁ htaken
  cases claim with
  | none => exact trivial
  | some group =>
      refine residency.wp_seq hs₁ (R := fun upgraded s' => upgraded = true → Taken p s' f group) ?_ ?_
      · refine wp_staged (htaken group rfl) ?_
        intro s₂ s' q c r _ _ htaken₂ hexec hr
        subst hr
        simp only [exec] at hexec
        split at hexec <;> simp only [Option.some.injEq, Prod.mk.injEq, reduceCtorEq, and_false] at hexec
        exact hexec.1 ▸ ⟨htaken₂.unlinking, htaken₂.attached⟩
      intro upgraded s₂ hs₂ hupgraded
      cases upgraded with
      | true => exact wp_staged (hupgraded rfl) fun _ _ _ _ _ _ _ _ _ => trivial
      | false => exact trivial

theorem maintains_body (routine : Routine) :
    residency.Maintains (fun _ => True) p (body routine) := by
  refine Logic.Maintains.of_built (fun _ hop s hs _ => ?_) (fun hstage => ?_)
    (routed_body (A := fun _ => True) (fun _ => trivial) routine)
  · exact residency.wp_mono hs (wp_unstaged (staged_of_plain hop.1)) fun _ _ _ _ => trivial
  · cases hstage with
    | block hblock => exact maintains_unstaged hblock.unstaged
    | commitChange f =>
        exact fun _ _ _ => wp_staged trivial fun _ _ _ _ _ _ _ _ _ => trivial
    | admitFiber key edges => exact maintains_admitFiber
    | releaseResidency f => exact maintains_releaseResidency

theorem residency_verified : residency.Verified where
  grounded _ := fun _ => trivial
  init := by
    have hroot : ∀ f, ((Root.new).fibers f).residency = none ∧
        ((Root.new).fibers f).trace.unlinking = [] := by
      intro f
      show ((if f = 0 then Fiber.root else {} : Fiber)).residency = none ∧
        ((if f = 0 then Fiber.root else {} : Fiber)).trace.unlinking = []
      split <;> exact ⟨rfl, rfl⟩
    have hblank : ∀ {f group}, ¬ Attached Root.new f group := List.not_mem_nil
    show Claims Root.new
    refine ⟨fun {f group} h => ?_, fun {f p} h => ?_, fun h => absurd h hblank,
      fun h => absurd h hblank, fun h => absurd h hblank, fun h => absurd h List.not_mem_nil,
      fun h => absurd h List.not_mem_nil⟩
    · exact nomatch (hroot f).1.symm.trans h
    · exact absurd ((hroot f).2 ▸ h) List.not_mem_nil
  vacant _ := trivial
  body routine p s hs _ :=
    residency.wp_mono hs (maintains_body routine s hs trivial) fun _ _ _ _ => trivial
  enter p routine s s' hs _ henter := by
    simp only [cordis, enter, Option.ite_none_right_eq_some, Option.some.injEq] at henter
    have hregistry : SameRegistry s s' := by
      rw [← henter.2]
      constructor <;> rfl
    have hstage : ∀ g, SameStage (s.fibers g) (s'.fibers g) := by
      intro g
      rw [← henter.2]
      exact SameStage.refl _
    have hnext : s'.nextFiber = s.nextFiber := by
      rw [← henter.2]
      rfl
    exact ⟨hs.same hregistry hnext hstage, fun t _ => Spares.same hregistry hnext hstage t, trivial⟩

end Runtime
end CordisCore
