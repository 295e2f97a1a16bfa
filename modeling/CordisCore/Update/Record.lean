import CordisCore.Update.Decision

/-!
# Records — the history explains every answer and every committed input
-/

namespace CordisCore
namespace Update

open Interleaving
open Interleaving.Program (runs_pure runs_bind)
open CordisCore.Runtime (FiberId PluginKey SettleCtx)

/-! ## What a history amounts to -/

/-- The hooks that were added, less those removed or used up. -/
def hooksAfter : History → Hooks
  | [] => fun _ => []
  | (_, ⟨.add contract hook, _⟩) :: earlier => (hooksAfter earlier).add contract hook
  | (_, ⟨.remove contract id, _⟩) :: earlier => ((hooksAfter earlier).remove contract id).1
  | (_, ⟨.claim contract id, _⟩) :: earlier => ((hooksAfter earlier).claim contract id).1
  | _ :: earlier => hooksAfter earlier

/-- The tail of this control was reached. -/
def tailReached (id : ControlId) : History → Bool
  | [] => false
  | (_, ⟨.storeReached control, _⟩) :: earlier => id = control || tailReached id earlier
  | _ :: earlier => tailReached id earlier

/-- How many controls have begun. -/
def controls : History → Nat
  | [] => 0
  | (_, ⟨.newReached, _⟩) :: earlier => controls earlier + 1
  | _ :: earlier => controls earlier

/-- The candidate that was committed last. -/
def lastCommitted (f : FiberId) : History → Option PreparedChange
  | [] => none
  | (_, ⟨.commit g change, _⟩) :: earlier =>
      if f = g then some change else lastCommitted f earlier
  | (_, ⟨.lifecycle (.commitChange g), _⟩) :: earlier =>
      if f = g then none else lastCommitted f earlier
  | _ :: earlier => lastCommitted f earlier

/-- The answer follows from what happened before. -/
def Answered (earlier : History) : Performed → Prop
  | ⟨.snapshot contract target, hooks⟩ =>
      hooks = (hooksAfter earlier).snapshot contract target
  | ⟨.claim contract id, won⟩ => won = ((hooksAfter earlier).find contract id).isSome
  | ⟨.newReached, id⟩ => id = controls earlier
  | ⟨.loadReached id, reached⟩ => reached = tailReached id earlier
  | _ => True

/-- Every answer follows from what happened before it. -/
def Explained : History → Prop
  | [] => True
  | (_, event) :: earlier => Answered earlier event ∧ Explained earlier

/-! ## Committed inputs -/

/-- What an operation does to the committed input of a Fiber. -/
inductive InputStep (op : Runtime.Op) (f : FiberId) (s s' : Runtime.Root) : Prop where
  | kept (h : (s'.fibers f).effectiveInput = (s.fibers f).effectiveInput)
  | changed (hop : op = .commitChange f)
      (h : (s'.fibers f).effectiveInput = some s.nextInput) (hnext : s.nextInput < s'.nextInput)
  | installed {key : PluginKey} (hop : op = .install f key)
      (hnone : (s.fibers f).effectiveInput = none)
      (h : (s'.fibers f).effectiveInput = some s.nextInput) (hnext : s.nextInput < s'.nextInput)
  | allocated {edges : List Runtime.DependencyEdge} (hop : op = .allocate edges)
      (hf : f = s.nextFiber) (h : (s'.fibers f).effectiveInput = none)

theorem inputStep_of_exec {self fresh : Party} {choice : Runtime.Choice} {op : Runtime.Op}
    {s s' : Runtime.Root} {r : op.Ret} (h : Runtime.exec self fresh choice op s = some (s', r))
    (f : FiberId) : InputStep op f s s' := by
  rcases Runtime.exec_touch h f with ⟨op', r', -, hexec⟩ | ⟨edges, hop, hf, hfiber⟩ |
    ⟨-, -, hbooks⟩
  · exact .kept (Runtime.FiberOp.exec_kept hexec).input
  · exact .allocated hop hf (congrArg _ hfiber)
  · by_cases hchange : op = .commitChange f
    · subst hchange
      simp only [Runtime.exec, Option.some.injEq, Prod.mk.injEq] at h
      rcases h with ⟨rfl, -⟩
      exact .changed rfl (congrArg _ (Runtime.Root.fibers_put _ _ _)) (Nat.lt_succ_self _)
    · by_cases hinstall : ∃ key, op = .install f key
      · rcases hinstall with ⟨key, rfl⟩
        simp only [Runtime.exec] at h
        split at h
        · rename_i hnone
          simp only [Option.some.injEq, Prod.mk.injEq] at h
          rcases h with ⟨rfl, -⟩
          exact .installed rfl (Option.isNone_iff_eq_none.mp hnone)
            (congrArg _ (Runtime.Root.fibers_put _ _ _)) (Nat.lt_succ_self _)
        · cases h
      · exact .kept (hbooks.input hchange fun key hop => hinstall ⟨key, hop⟩)

theorem exec_nextInput {self fresh : Party} {choice : Runtime.Choice} {op : Runtime.Op}
    {s s' : Runtime.Root} {r : op.Ret} (h : Runtime.exec self fresh choice op s = some (s', r)) :
    s.nextInput ≤ s'.nextInput := by
  cases op <;> simp only [Runtime.exec, Runtime.guarded] at h
  case fork routine =>
    cases routine <;> simp only [Option.some.injEq, Prod.mk.injEq] at h <;>
      rcases h with ⟨rfl, -⟩ <;> exact Nat.le_refl _
  case attach f key =>
    simp only [Option.some.injEq, Prod.mk.injEq] at h
    rcases h with ⟨rfl, -⟩
    unfold Runtime.Root.attach
    split <;> exact Nat.le_refl _
  case register f =>
    split at h <;> simp only [Option.some.injEq, Prod.mk.injEq] at h <;> rcases h with ⟨rfl, -⟩
    · unfold Runtime.Root.enroll
      split
      · exact Nat.le_refl _
      · split <;> exact Nat.le_refl _
    · exact Nat.le_refl _
  case commitRecheck f =>
    simp only [Option.some.injEq, Prod.mk.injEq] at h
    rcases h with ⟨rfl, -⟩
    unfold Runtime.Root.advance
    split
    · split <;> exact Nat.le_refl _
    · exact Nat.le_refl _
  case dependentsOf edges =>
    simp only [Option.some.injEq, Prod.mk.injEq] at h
    rcases h with ⟨rfl, -⟩
    unfold Runtime.Root.owe
    split
    · split <;> exact Nat.le_refl _
    · exact Nat.le_refl _
  all_goals
    (repeat' split at h) <;>
      simp only [Option.map_eq_some_iff, Option.some.injEq, Prod.mk.injEq, reduceCtorEq] at h <;>
      first
        | (rcases h with ⟨rfl, -⟩; first | exact Nat.le_refl _ | exact Nat.le_succ _)
        | (rcases h with ⟨_, -, rfl, -⟩; exact Nat.le_refl _)

/-! ## The history explains the state -/

/-- What holds between the history and the state. -/
structure Told (s : Updating) (history : History) : Prop where
  explained : Explained history
  hooks : s.hooks = hooksAfter history
  reached : ∀ id, s.reached id = tailReached id history
  controls : s.nextControl = controls history
  input : ∀ f, s.inputOf f = lastCommitted f history
  fresh : Runtime.Fresh s.root
  taken : ∀ f input, (s.root.fibers f).effectiveInput = some input → input < s.root.nextInput
  unknown : ∀ input, s.root.nextInput ≤ input → s.inputs input = none

theorem Told.init : Told { root := Runtime.Root.new } [] where
  explained := trivial
  hooks := rfl
  reached _ := rfl
  controls := rfl
  input f := by
    show ((if f = 0 then Runtime.Fiber.root else {}).effectiveInput).bind _ = none
    split <;> rfl
  fresh f hf := if_neg (Nat.ne_of_gt hf)
  taken f input h := by
    have hnone : (Runtime.Root.new.fibers f).effectiveInput = none := by
      show (if f = 0 then Runtime.Fiber.root else {}).effectiveInput = none
      split <;> rfl
    rw [hnone] at h
    cases h
  unknown _ _ := rfl

/-- The input a Fiber had stays explained while its committed input is kept. -/
theorem Told.kept {s : Updating} {history : History} (hs : Told s history) {root : Runtime.Root}
    {inputs : Runtime.Input → Option PreparedChange} {f : FiberId}
    (h : (root.fibers f).effectiveInput = (s.root.fibers f).effectiveInput)
    (hinputs : ∀ input, input < s.root.nextInput → inputs input = s.inputs input) :
    (root.fibers f).effectiveInput.bind inputs = lastCommitted f history := by
  rw [← hs.input f, h]
  unfold Updating.inputOf
  cases hinput : (s.root.fibers f).effectiveInput with
  | none => rfl
  | some input => exact hinputs input (hs.taken f input hinput)

theorem lastCommitted_lifecycle {f : FiberId} {history : History} {p : Party} {op : Runtime.Op}
    {r : op.Ret} : lastCommitted f ((p, ⟨.lifecycle op, r⟩) :: history) =
      if op = .commitChange f then none else lastCommitted f history := by
  cases op with
  | commitChange g =>
      by_cases hg : f = g
      · subst hg
        simp [lastCommitted]
      · have hne : ¬Runtime.Op.commitChange g = .commitChange f := fun h => hg (by cases h; rfl)
        simp only [lastCommitted, if_neg hg, if_neg hne]
  | _ => rw [if_neg nofun]; rfl

/-- After any lifecycle operation the committed inputs are still the explained ones. -/
theorem Told.lifecycle {s : Updating} {history : History} (hs : Told s history) {p fresh : Party}
    {choice : Runtime.Choice} {op : Runtime.Op} {root : Runtime.Root} {r : op.Ret}
    (h : Runtime.execAllocated p fresh choice op s.root = some (root, r)) :
    Told (s.move root) ((p, ⟨.lifecycle op, r⟩) :: history) where
  explained := ⟨trivial, hs.explained⟩
  hooks := hs.hooks
  reached := hs.reached
  controls := hs.controls
  input f := by
    have hexec := (Runtime.execAllocated_eq_some.mp h).2
    rw [lastCommitted_lifecycle]
    show (root.fibers f).effectiveInput.bind s.inputs = _
    cases inputStep_of_exec hexec f with
    | kept hinput =>
        split
        · rename_i hchange
          -- a bare commit notes no change, so its input is not known
          subst hchange
          simp only [Runtime.exec, Option.some.injEq, Prod.mk.injEq] at hexec
          have hfiber : (root.fibers f).effectiveInput = some s.root.nextInput := by
            rw [← hexec.1]
            exact congrArg _ (Runtime.Root.fibers_put _ _ _)
          rw [hfiber]
          exact hs.unknown _ (Nat.le_refl _)
        · exact hs.kept hinput fun _ _ => rfl
    | changed hop hinput _ =>
        rw [if_pos hop, hinput]
        exact hs.unknown _ (Nat.le_refl _)
    | installed hop hnone hinput _ =>
        -- before the first input the fiber had none
        have hbefore : s.inputOf f = none := by
          unfold Updating.inputOf
          rw [hnone]
          rfl
        rw [hop, if_neg (by simp), hinput, ← hs.input f, hbefore]
        exact hs.unknown _ (Nat.le_refl _)
    | allocated hop hf hnone =>
        have hbefore : s.inputOf f = none := by
          unfold Updating.inputOf
          rw [hs.fresh f (Nat.le_of_eq hf.symm)]
          rfl
        rw [hop, if_neg (by simp), hnone, ← hs.input f, hbefore]
        rfl
  fresh := hs.fresh.exec h
  taken f input hinput := by
    have hexec := (Runtime.execAllocated_eq_some.mp h).2
    have hle := exec_nextInput hexec
    cases inputStep_of_exec hexec f with
    | kept hkept =>
        exact Nat.lt_of_lt_of_le (hs.taken f input (hkept ▸ hinput)) hle
    | changed _ hnew hlt | installed _ _ hnew hlt =>
        obtain rfl : s.root.nextInput = input := Option.some.inj (hnew.symm.trans hinput)
        exact hlt
    | allocated _ _ hnone => cases hnone.symm.trans hinput
  unknown input hinput :=
    hs.unknown input (Nat.le_trans (exec_nextInput (Runtime.execAllocated_eq_some.mp h).2) hinput)

/-- A commit replaces the input of its Fiber and of no other. -/
theorem Told.commit {s : Updating} {history : History} (hs : Told s history) {p fresh : Party}
    {choice : Runtime.Choice} {f : FiberId} {change : PreparedChange} {root : Runtime.Root}
    {r : Unit} (h : Runtime.execAllocated p fresh choice (.commitChange f) s.root =
      some (root, r)) :
    Told ((s.note change).move root) ((p, ⟨.commit f change, ()⟩) :: history) where
  explained := ⟨trivial, hs.explained⟩
  hooks := hs.hooks
  reached := hs.reached
  controls := hs.controls
  input g := by
    have hexec := (Runtime.execAllocated_eq_some.mp h).2
    show (root.fibers g).effectiveInput.bind (s.note change).inputs =
      if g = f then some change else lastCommitted g history
    simp only [Runtime.exec, Option.some.injEq, Prod.mk.injEq] at hexec
    rcases hexec with ⟨rfl, -⟩
    by_cases hg : g = f
    · subst hg
      rw [if_pos rfl]
      show (((s.root.put g _).fibers g).effectiveInput).bind _ = _
      rw [Runtime.Root.fibers_put]
      exact if_pos rfl
    · rw [if_neg hg]
      refine hs.kept ?_ fun input hinput => if_neg (Nat.ne_of_lt hinput)
      exact congrArg _ (Runtime.Root.fibers_put_of_ne _ _ hg)
  fresh := hs.fresh.exec h
  taken g input hinput := (hs.lifecycle h).taken g input hinput
  unknown input hinput := by
    have hexec := (Runtime.execAllocated_eq_some.mp h).2
    simp only [Runtime.exec, Option.some.injEq, Prod.mk.injEq] at hexec
    rcases hexec with ⟨rfl, -⟩
    -- the committed input takes the number that was next
    have hlt : s.root.nextInput < input := hinput
    have hne : input ≠ s.root.nextInput := Nat.ne_of_gt hlt
    exact (if_neg hne).trans (hs.unknown input (Nat.le_of_lt hlt))

/-- Every operation is explained by what happened before. -/
theorem Told.exec {s s' : Updating} {history : History} (hs : Told s history) {p fresh : Party}
    {choice : Runtime.Choice} {op : Op} {r : op.Ret}
    (h : exec p fresh choice op s = some (s', r)) : Told s' ((p, ⟨op, r⟩) :: history) := by
  cases op with
  | lifecycle op =>
      simp only [Update.exec, Option.map_eq_some_iff, Prod.mk.injEq] at h
      rcases h with ⟨⟨root, r'⟩, hexec, rfl, rfl⟩
      exact hs.lifecycle hexec
  | commit f change =>
      simp only [Update.exec, Option.map_eq_some_iff, Prod.mk.injEq] at h
      rcases h with ⟨⟨root, r'⟩, hexec, rfl, -⟩
      exact hs.commit hexec
  | add contract hook =>
      cases h
      exact { hs with
        explained := ⟨trivial, hs.explained⟩
        hooks := congrArg (fun hooks => hooks.add contract hook) hs.hooks }
  | remove contract id =>
      cases h
      exact { hs with
        explained := ⟨trivial, hs.explained⟩
        hooks := congrArg (fun hooks => (hooks.remove contract id).1) hs.hooks }
  | snapshot contract target =>
      cases h
      have hsnapshot : s.hooks.snapshot contract target =
          (hooksAfter history).snapshot contract target := by
        rw [hs.hooks]
      exact { hs with explained := ⟨hsnapshot, hs.explained⟩ }
  | claim contract id =>
      cases h
      -- a claim succeeds exactly for a hook that is still registered
      have hwon : (s.hooks.claim contract id).2 = ((hooksAfter history).find contract id).isSome := by
        rw [hs.hooks]
        unfold Hooks.claim
        split
        · rename_i hnone
          rw [hnone]
          rfl
        · rename_i hsome
          rw [hsome]
          rfl
      exact { hs with
        explained := ⟨hwon, hs.explained⟩
        hooks := congrArg (fun hooks => (hooks.claim contract id).1) hs.hooks }
  | storeReached control =>
      cases h
      refine { hs with explained := ⟨trivial, hs.explained⟩, reached := fun id => ?_ }
      show (if id = control then true else s.reached id) = (id = control || tailReached id history)
      rw [hs.reached id]
      by_cases hid : id = control <;> simp [hid]
  | loadReached control =>
      cases h
      exact { hs with explained := ⟨hs.reached control, hs.explained⟩ }
  | newReached =>
      cases h
      exact { hs with
        explained := ⟨hs.controls, hs.explained⟩
        controls := congrArg (· + 1) hs.controls }
  | callback id | spawnChain contract control hooks change =>
      cases h
      exact { hs with explained := ⟨trivial, hs.explained⟩ }

theorem Told.move {s : Updating} {history : History} (hs : Told s history) {root : Runtime.Root}
    (hinput : ∀ f, (root.fibers f).effectiveInput = (s.root.fibers f).effectiveInput)
    (hnext : root.nextInput = s.root.nextInput) (hfresh : Runtime.Fresh root) :
    Told (s.move root) history where
  explained := hs.explained
  hooks := hs.hooks
  reached := hs.reached
  controls := hs.controls
  input f := hs.kept (hinput f) fun _ _ => rfl
  fresh := hfresh
  taken f input h := hnext ▸ hs.taken f input (hinput f ▸ h)
  unknown input h := hs.unknown input (hnext ▸ h)

/-- Entering a call changes at most how the party is driven. -/
theorem enter_eq {p : Party} {routine : Routine} {s s' : Updating}
    (h : enter p routine s = some s') :
    s' = s ∨ ∃ driving, s' = s.move (s.root.drive p driving) := by
  have hlifecycle : ∀ {routine : Runtime.Routine},
      (Runtime.enter p routine s.root).map s.move = some s' →
        ∃ driving, s' = s.move (s.root.drive p driving) := by
    intro routine h
    simp only [Runtime.enter, Option.map_eq_some_iff, Option.ite_none_right_eq_some,
      Option.some.injEq] at h
    rcases h with ⟨root, ⟨-, rfl⟩, rfl⟩
    exact ⟨_, rfl⟩
  cases routine with
  | lifecycle routine =>
      cases routine with
      | update ctx f change => cases h
      | _ =>
          simp only [enter] at h
          exact .inr (hlifecycle h)
  | update ctx f target change => exact .inr (hlifecycle h)
  | chain contract control hooks change => cases h
  | onUpdate contract hook | remove contract id =>
      cases h
      exact .inl rfl

theorem told_of_reachable {policy : Policy}
    {ok : Machine.Condition (Recorded Updating Op Op.Ret Routine) Op Runtime.Choice}
    {cfg : Config (Recorded Updating Op Op.Ret Routine) Op Op.Ret Answer}
    (h : (updating policy).recorded.Reachable ok cfg) :
    Told cfg.shared.state cfg.shared.history := by
  refine Machine.recorded_invariant (I := fun s => Told s.state s.history) Told.init
    (fun hs hexec => hs.exec hexec) (fun hs => hs) ?_ ?_ h
  · intro s p routine s' hs henter
    rcases enter_eq henter with rfl | ⟨driving, rfl⟩
    · exact hs
    · exact hs.move (fun _ => rfl) rfl hs.fresh
  · intro s p s' next hs hdrop
    simp only [updating, Option.map_eq_some_iff, Prod.mk.injEq] at hdrop
    rcases hdrop with ⟨⟨root, guard⟩, hdropped, rfl, -⟩
    have hfresh := hs.fresh.dropped hdropped
    rcases Runtime.dropped_eq hdropped with ⟨fibers, driving, rfl, hfibers⟩
    refine hs.move (fun f => ?_) rfl hfresh
    rcases hfibers f with hsame | hsame
    · show (fibers f).effectiveInput = _
      rw [hsame]
    · show (fibers f).effectiveInput = _
      rw [hsame]
      rfl

end Update
end CordisCore
