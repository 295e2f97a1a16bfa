import CordisCore.Fiber.Frame
import CordisCore.Fiber.Stages
import CordisCore.Update.Chain

/-!
# Decisions — what the precommit chain decides, and what an update leaves alone
-/

namespace CordisCore
namespace Update

open Interleaving
open Interleaving.Program (Runs Arrives runs_pure runs_perform runs_bind runs_iterate unfoldLoop)
open CordisCore.Events (ListenerRegistrationId InvocationFailure)
open CordisCore.Runtime (FiberId PluginKey SettleCtx)

/-! ## Control -/

/-- What a control found in its flag: whether its own chain had come to the tail by then. -/
def Loaded (policy : Policy) (history : History) (p : Party) (contract : PluginKey)
    (id : ControlId) (chain : List Performed) (hooks : List UpdateSnap) (change : PreparedChange)
    (reached : Bool) : Prop :=
  ∃ earlier, (p, (⟨.loadReached id, reached⟩ : Performed)) :: earlier <:+ history ∧
    (reached = true ↔ Reaches policy contract id earlier chain hooks change)

/-- What one control of this party performed, and what it decided. -/
inductive Controls (policy : Policy) (history : History) (p : Party)
    (target : Option ScopeNode) (change : PreparedChange) :
    List Performed → Except InvocationFailure (Option PreparedChange) → Prop where
  | failed {hooks : List UpdateSnap} {id : ControlId} {chain : List Performed}
      {failure : InvocationFailure}
      (hchain : Chain policy change.contract id hooks change chain (.error failure))
      (h : reference policy change.contract id (survivors hooks (verdicts chain)) change =
        .error failure) :
      Controls policy history p target change
        (⟨.snapshot change.contract target, hooks⟩ :: ⟨.newReached, id⟩ :: chain) (.error failure)
  | returned {hooks : List UpdateSnap} {id : ControlId} {chain : List Performed}
      {output : PreparedChange} {reached : Bool}
      (hchain : Chain policy change.contract id hooks change chain (.ok output))
      (h : reference policy change.contract id (survivors hooks (verdicts chain)) change =
        .ok output)
      (hreached : Loaded policy history p change.contract id chain hooks change reached) :
      Controls policy history p target change
        (⟨.snapshot change.contract target, hooks⟩ :: ⟨.newReached, id⟩ ::
          (chain ++ [⟨.loadReached id, reached⟩]))
        (.ok (if reached then some output else none))

/-- Every load of a control in these events, with the rest of the events, found what it should. -/
def Loads (policy : Policy) (history : History) (p : Party) (target : Option ScopeNode)
    (change : PreparedChange) (events : List Performed) : Prop :=
  ∀ looked hooks id chain output reached after,
    events = looked ++ ⟨.snapshot change.contract target, hooks⟩ :: ⟨.newReached, id⟩ ::
      (chain ++ ⟨.loadReached id, reached⟩ :: after) →
    Runs (runChain policy change.contract id hooks change) chain (.ok output) →
    (∀ event ∈ looked ++ after, Apart event.1) →
      Loaded policy history p change.contract id chain hooks change reached

theorem controls_of_runs {policy : Policy} {history : History} {p : Party}
    {target : Option ScopeNode} {change : PreparedChange} {looked events after : List Performed}
    {outcome : Except InvocationFailure (Option PreparedChange)}
    (hloads : Loads policy history p target change (looked ++ (events ++ after)))
    (hothers : ∀ event ∈ looked ++ after, Apart event.1)
    (h : Runs (control policy change.contract target change) events outcome) :
    Controls policy history p target change events outcome := by
  rcases runs_bind h with ⟨hooks, first, rest, rfl, hsnapshot, hrest⟩
  rcases runs_bind hrest with ⟨id, second, rest, rfl, hnew, hrest⟩
  rcases runs_bind hrest with ⟨result, chain, last, rfl, hchain, hlast⟩
  rw [runs_perform hsnapshot, runs_perform hnew] at hloads ⊢
  have hpath := chain_of_runs hchain
  cases result with
  | error failure =>
      have hend := runs_pure hlast
      rw [hend.1, List.append_nil, ← hend.2]
      exact .failed hpath hpath.reference.symm
  | ok output =>
      rcases runs_bind hlast with ⟨reached, load, final, rfl, hload, hfinal⟩
      have hend := runs_pure hfinal
      rw [runs_perform hload, hend.1] at hloads ⊢
      rw [← hend.2, List.append_nil]
      refine .returned hpath hpath.reference.symm (hloads _ _ _ _ _ _ _ ?_ hchain hothers)
      simp only [List.append_assoc, List.cons_append, List.nil_append]

/-! ## Lifted code -/

/-- The lifted form of what lifecycle code performs. -/
def lifted (candidate : Option PreparedChange) : Event Runtime.Op Runtime.Op.Ret → Performed
  | ⟨.commitChange f, r⟩ =>
      match candidate with
      | some change => ⟨.commit f change, r⟩
      | none => ⟨.lifecycle (.commitChange f), r⟩
  | ⟨op, r⟩ => ⟨.lifecycle op, r⟩

theorem lift_bind {α β : Type} (candidate : Option PreparedChange) (x : Runtime.Prog α)
    (f : α → Runtime.Prog β) :
    lift candidate (x.bind f) = (lift candidate x).bind fun a => lift candidate (f a) := by
  induction x with
  | pure a => rfl
  | act op next ih =>
      cases op <;> cases candidate <;> exact congrArg (Program.act _) (funext fun r => ih r f)
  | loop body start next _ ih =>
      exact congrArg (Program.loop _ start) (funext fun b => ih b f)

theorem lift_unfoldLoop {α β γ : Type} (candidate : Option PreparedChange)
    (body : γ → Runtime.Prog (γ ⊕ β)) (start : γ) (next : β → Runtime.Prog α) :
    lift candidate (unfoldLoop body start next) =
      unfoldLoop (fun g => lift candidate (body g)) start fun b => lift candidate (next b) := by
  unfold unfoldLoop
  rw [lift_bind]
  congr 1
  funext o
  cases o <;> rfl

/-- A path through lifted code is a lifted path. -/
theorem runs_lift {candidate : Option PreparedChange} {α : Type} {z y : Prog α}
    {events : List Performed} (h : Arrives z events y) :
    ∀ {x : Runtime.Prog α} {a : α}, z = lift candidate x → y = .pure a →
      ∃ path, Runs x path a ∧ events = path.map (lifted candidate) := by
  induction h with
  | here z =>
      intro x a hx hend
      cases x with
      | pure b =>
          have hb : b = a := Program.pure.inj (hx.symm.trans hend)
          exact ⟨[], hb ▸ .here _, rfl⟩
      | act op next => cases op <;> cases candidate <;> cases hx.symm.trans hend
      | loop body start next => cases hx.symm.trans hend
  | act r hrest ih =>
      intro x a hx hend
      cases x with
      | pure b => cases hx
      | act op next =>
          have hstep : ∀ {r path}, Runs (next r) path a →
              Runs (.act op next) (⟨op, r⟩ :: path) a :=
            fun hpath => .act _ hpath
          cases op <;> cases candidate <;> cases hx <;>
            (rcases ih rfl hend with ⟨path, hpath, rfl⟩
             exact ⟨_, hstep hpath, rfl⟩)
      | loop body start next => cases hx
  | loop hrest ih =>
      intro x a hx hend
      cases x with
      | pure b => cases hx
      | act op next => cases op <;> cases candidate <;> cases hx
      | loop body start next =>
          cases hx
          rcases ih (lift_unfoldLoop candidate _ _ next).symm hend with ⟨path, hpath, hpath'⟩
          exact ⟨path, .loop hpath, hpath'⟩

/-! ## Passive operations -/

/-- What an update that commits nothing must leave alone: input, target, generation, journal. -/
def generation (x : Runtime.Fiber) :=
  (x.effectiveInput, x.target, x.state, x.error, x.flags, x.disposables)

/-- No Fiber's input, target, generation or journal changes. -/
def Passive (op : Op) : Prop :=
  ∀ self fresh choice s s' r, exec self fresh choice op s = some (s', r) → ∀ f,
    generation (s'.root.fibers f) = generation (s.root.fibers f) ∧ s'.inputOf f = s.inputOf f

/-- The operations of a lifecycle call that only looks, claims and abandons. -/
def looks : Runtime.Op → Bool
  | .on _ (.load _) | .on _ .contract | .on _ .tryClaim | .on _ .awaitIdle | .on _ .abandon
  | .refuseRecursion _ _ _ => true
  | _ => false

/-- The operations that decide and commit nothing. -/
def passive : Op → Bool
  | .lifecycle op => looks op
  | .commit _ _ => false
  | _ => true

theorem exec_looks {op : Runtime.Op} (hop : looks op = true) {self fresh : Party}
    {choice : Runtime.Choice} {s s' : Runtime.Root} {r : op.Ret}
    (h : Runtime.exec self fresh choice op s = some (s', r)) (f : FiberId) :
    generation (s'.fibers f) = generation (s.fibers f) := by
  have hput : ∀ g (x : Runtime.Fiber), generation x = generation (s.fibers g) →
      generation ((s.put g x).fibers f) = generation (s.fibers f) := by
    intro g x hx
    by_cases hf : f = g
    · subst hf
      rw [Runtime.Root.fibers_put]
      exact hx
    · rw [Runtime.Root.fibers_put_of_ne _ _ hf]
  cases op with
  | on g op =>
      simp only [Runtime.exec, Option.map_eq_some_iff, Prod.mk.injEq] at h
      rcases h with ⟨⟨x, r'⟩, hexec, rfl, -⟩
      apply hput
      have hsame : ∀ field, op.writes field = false → field.Same (s.fibers g) x :=
        Runtime.FiberOp.exec_same_field hexec
      have hflags : x.flags = (s.fibers g).flags := by
        funext which
        exact hsame (.flag which) (by cases op <;> first | rfl | cases hop)
      have htarget := hsame .target (by cases op <;> first | rfl | cases hop)
      have hstate := hsame .state (by cases op <;> first | rfl | cases hop)
      have herror := hsame .error (by cases op <;> first | rfl | cases hop)
      have hjournal := hsame .disposables (by cases op <;> first | rfl | cases hop)
      simp only [Runtime.Field.Same] at htarget hstate herror hjournal
      simp only [generation, (Runtime.FiberOp.exec_kept hexec).input, htarget, hstate, herror,
        hflags, hjournal]
  | refuseRecursion ctx g operation =>
      simp only [Runtime.exec] at h
      split at h
      · simp only [Option.some.injEq, Prod.mk.injEq] at h
        rw [h.1]
      · split at h <;> simp only [Option.some.injEq, Prod.mk.injEq] at h
        · rcases h with ⟨rfl, -⟩
          exact hput g _ rfl
        · rw [h.1]
  | _ => cases hop

theorem passive_of_passive {op : Op} (hop : passive op = true) : Passive op := by
  intro self fresh choice s s' r h f
  cases op with
  | lifecycle op =>
      simp only [exec, Option.map_eq_some_iff, Prod.mk.injEq] at h
      rcases h with ⟨⟨root, r'⟩, hexec, rfl, -⟩
      have hgeneration : generation (root.fibers f) = generation (s.root.fibers f) :=
        exec_looks hop (Runtime.execAllocated_eq_some.mp hexec).2 f
      have hinput : (root.fibers f).effectiveInput = (s.root.fibers f).effectiveInput :=
        congrArg Prod.fst hgeneration
      refine ⟨hgeneration, ?_⟩
      show (root.fibers f).effectiveInput.bind _ = _
      rw [hinput]
      rfl
  | commit f change => cases hop
  | _ =>
      simp only [exec, Option.some.injEq, Prod.mk.injEq] at h
      rcases h with ⟨rfl, -⟩
      exact ⟨rfl, rfl⟩

/-! ## Past the commit -/

/-- The operations that put another candidate in place. -/
def replaces (f : FiberId) : Op → Bool
  | .commit g _ | .lifecycle (.commitChange g) => g = f
  | _ => false

/-! ## Decisions -/

/-- What the pass of an accepted candidate does. -/
inductive Passes (f : FiberId) : List (Event Runtime.Op Runtime.Op.Ret) →
    Except Runtime.UpdateError Runtime.FiberState → Prop where
  | lost {events : List (Event Runtime.Op Runtime.Op.Ret)}
      (hlooks : ∀ event ∈ events, looks event.1 = true) : Passes f events (.error .admissionLost)
  | committed {claimed after : List (Event Runtime.Op Runtime.Op.Ret)} {marked : Bool}
      {result : Except Runtime.UpdateError Runtime.FiberState}
      (hlooks : ∀ event ∈ claimed, looks event.1 = true)
      (hafter : ∀ event ∈ after, ∀ g, event.1 ≠ .commitChange g)
      (hresult : (∃ state, result = .ok state) ∨ ∃ failure, result = .error (.apply failure)) :
      Passes f (claimed ++ ⟨.on f (.swapGated .generationReplacing), marked⟩ ::
        ⟨.commitChange f, ()⟩ :: after) result

theorem looks_of_runs_claim {f : FiberId} {events : List (Event Runtime.Op Runtime.Op.Ret)}
    {r : Unit} (h : Runs (Runtime.claim f) events r) : ∀ event ∈ events, looks event.1 = true := by
  have hclaim : (Runtime.claim f).Built (fun op => looks op = true) fun _ _ => False := by
    refine .iterate fun _ => .bind (.op rfl) fun won => ?_
    cases won with
    | true => exact .pure _
    | false => exact .bind (.op rfl) fun _ => .pure _
  exact Program.All.events h (hclaim.all fun hno => hno.elim)

theorem updateResult_answers {f : FiberId} {events : List (Event Runtime.Op Runtime.Op.Ret)}
    {result : Except Runtime.UpdateError Runtime.FiberState}
    (h : Runs (Runtime.updateResult f) events result) :
    (∃ state, result = .ok state) ∨ ∃ failure, result = .error (.apply failure) := by
  rcases runs_bind h with ⟨error, _, _, -, -, hanswer⟩
  cases error with
  | some failure => exact .inr ⟨failure, (runs_pure hanswer).2.symm⟩
  | none =>
      rcases runs_bind hanswer with ⟨state, _, _, -, -, hstate⟩
      exact .inl ⟨state, (runs_pure hstate).2.symm⟩

/-- However many passes there are, the last one's result is the answer. -/
theorem replacement_answers {α : Type} {f : FiberId} {result : Runtime.Prog α} {P : α → Prop}
    (hresult : ∀ {events a}, Runs result events a → P a)
    {target : Runtime.SemanticTarget} {revision : Nat}
    {events : List (Event Runtime.Op Runtime.Op.Ret)} {a : α}
    (h : Runs (Runtime.replacementCommitted f result target revision) events a) : P a := by
  rcases (runs_iterate h).last with ⟨_, _, _, -, hround⟩
  rcases runs_bind hround with ⟨_, _, _, -, -, hround⟩
  rcases runs_bind hround with ⟨settled, _, _, -, hsettled, hround⟩
  rcases runs_bind hround with ⟨drifted, _, _, -, -, hround⟩
  cases drifted with
  | false =>
      cases (runs_pure hround).2
      exact hresult hsettled
  | true =>
      -- a round that drifted goes around
      rcases runs_bind hround with ⟨_, _, _, -, -, hround⟩
      rcases runs_bind hround with ⟨_, _, _, -, -, hround⟩
      rcases runs_bind hround with ⟨_, _, _, -, -, hround⟩
      cases (runs_pure hround).2

theorem passes_of_runs {f : FiberId} {events : List (Event Runtime.Op Runtime.Op.Ret)}
    {result : Except Runtime.UpdateError Runtime.FiberState}
    (h : Runs (Runtime.updatePass f) events result) : Passes f events result := by
  rcases runs_bind h with ⟨_, claimed, rest, rfl, hclaim, hrest⟩
  have hlooks := looks_of_runs_claim hclaim
  rcases runs_bind hrest with ⟨alive, load, rest, rfl, hload, hrest⟩
  rw [runs_perform hload]
  cases alive with
  | false =>
      rcases runs_bind hrest with ⟨_, abandoned, last, rfl, habandon, hlast⟩
      have hend := runs_pure hlast
      rw [runs_perform habandon, hend.1, ← hend.2]
      refine .lost fun event hevent => ?_
      simp only [List.mem_append, List.mem_cons, List.not_mem_nil, or_false] at hevent
      rcases hevent with hclaimed | rfl | rfl
      · exact hlooks event hclaimed
      · rfl
      · rfl
  | true =>
      rcases runs_bind hrest with ⟨marked, swapped, rest, rfl, hswap, hrest⟩
      rcases runs_bind hrest with ⟨_, committed, after, rfl, hcommit, hafter⟩
      rw [runs_perform hswap, runs_perform hcommit]
      -- after its own commit the pass commits nothing more
      have hprotocol : Runtime.Protocol (fun _ => True) (do
          let revision ← Runtime.on f .recheckRevision
          let target ← Runtime.computeTarget f
          Runtime.on f (.recordTarget target)
          Runtime.perform .handOff
          Runtime.replacementCommitted f (Runtime.updateResult f) target revision) :=
        .bind (Runtime.protocol_op rfl) fun _ => .bind (Runtime.protocol_computeTarget trivial)
          fun _ => .bind (Runtime.protocol_op rfl) fun _ => .bind (Runtime.protocol_op rfl)
            fun _ => Runtime.protocol_replacementCommitted trivial Runtime.protocol_updateResult
      have hunstaged := Program.All.events hafter (hprotocol.unstaged.all fun hno => hno.elim)
      have hquiet : ∀ event ∈ after, ∀ g, event.1 ≠ .commitChange g := by
        intro event hevent g hop
        have hstaged := hunstaged event hevent
        rw [hop] at hstaged
        cases hstaged
      have hload : ∀ event ∈ claimed ++ [⟨.on f (.load .alive), true⟩], looks event.1 = true := by
        intro event hevent
        rcases List.mem_append.mp hevent with hclaimed | hlast
        · exact hlooks event hclaimed
        · rw [List.mem_singleton.mp hlast]
          rfl
      have hanswer : (∃ state, result = .ok state) ∨ ∃ failure, result = .error (.apply failure) := by
        rcases runs_bind hafter with ⟨_, _, _, -, -, hafter⟩
        rcases runs_bind hafter with ⟨_, _, _, -, -, hafter⟩
        rcases runs_bind hafter with ⟨_, _, _, -, -, hafter⟩
        rcases runs_bind hafter with ⟨_, _, _, -, -, hafter⟩
        exact replacement_answers updateResult_answers hafter
      have hpasses : Passes f (_ ++ ⟨.on f (.swapGated .generationReplacing), marked⟩ :: _) _ :=
        .committed hload hquiet hanswer
      simpa only [List.append_assoc, List.singleton_append, List.cons_append, List.nil_append]
        using hpasses

/-- How an update of this party ends, and what it performed. -/
inductive Decision (policy : Policy) (history : History) (p : Party) (f : FiberId)
    (target : Option ScopeNode) (change : PreparedChange) :
    List Performed → UpdateResult → Prop where
  | refused {events : List Performed} {error : Runtime.UpdateError}
      (herror : error ∈ [Runtime.UpdateError.recursion, .closed, .pluginContractMismatch])
      (hpassive : ∀ event ∈ events, Passive event.1) :
      Decision policy history p f target change events (.error (.refused error))
  | failed {looked controlled : List Performed} {failure : InvocationFailure}
      (hcontrol : Controls policy history p target change controlled (.error failure))
      (hpassive : ∀ event ∈ looked ++ controlled, Passive event.1) :
      Decision policy history p f target change (looked ++ controlled) (.error (.control failure))
  | vetoed {looked controlled : List Performed}
      (hcontrol : Controls policy history p target change controlled (.ok none))
      (hpassive : ∀ event ∈ looked ++ controlled, Passive event.1) :
      Decision policy history p f target change (looked ++ controlled) (.ok .vetoed)
  | lost {looked controlled claimed : List Performed} {output : PreparedChange}
      (hcontrol : Controls policy history p target change controlled (.ok (some output)))
      (hpassive : ∀ event ∈ looked ++ controlled ++ claimed, Passive event.1) :
      Decision policy history p f target change (looked ++ controlled ++ claimed)
        (.error (.refused .admissionLost))
  | committed {looked controlled claimed after : List Performed} {output : PreparedChange}
      {marked : Bool} {result : UpdateResult}
      (hcontrol : Controls policy history p target change controlled (.ok (some output)))
      (hpassive : ∀ event ∈ looked ++ controlled ++ claimed, Passive event.1)
      (hafter : ∀ event ∈ after, ∀ g, replaces g event.1 = false)
      (hresult : (∃ state, result = .ok (.committed state)) ∨
        ∃ failure, result = .error (.refused (.apply failure))) :
      Decision policy history p f target change (looked ++ controlled ++ claimed ++
        ⟨.lifecycle (.on f (.swapGated .generationReplacing)), marked⟩ ::
          ⟨.commit f output, ()⟩ :: after) result

theorem passive_lifted {candidate : Option PreparedChange} {event : Event Runtime.Op Runtime.Op.Ret}
    (h : looks event.1 = true) : Passive (lifted candidate event).1 := by
  rcases event with ⟨op, r⟩
  have hop : (lifted candidate ⟨op, r⟩).1 = .lifecycle op := by
    cases op <;> first | rfl | cases h
  have hlifecycle : passive (.lifecycle op) = true := h
  rw [hop]
  exact passive_of_passive hlifecycle

theorem replaces_lifted {candidate : Option PreparedChange}
    {event : Event Runtime.Op Runtime.Op.Ret} (h : ∀ g, event.1 ≠ .commitChange g) (g : FiberId) :
    replaces g (lifted candidate event).1 = false := by
  rcases event with ⟨op, r⟩
  cases op <;> first | rfl | exact absurd rfl (h _)

/-- Control looks at the hooks and runs callbacks; the Fiber stays as it is. -/
theorem passive_runChain {policy : Policy} {contract : PluginKey} {id : ControlId}
    {hooks : List UpdateSnap} {change : PreparedChange} :
    (runChain policy contract id hooks change).Built (fun op => passive op = true)
      fun _ _ => False := by
  induction hooks generalizing change with
  | nil => exact .bind (.op rfl) fun _ => .pure _
  | cons hook rest ih =>
      refine .bind (.op rfl) fun won => ?_
      cases won with
      | false => exact ih
      | true =>
          refine .bind (.bind (.op rfl) fun _ => ?_) fun _ => .pure _
          cases hook.kind with
          | mapper =>
              dsimp only
              split
              · exact ih
              · exact .pure _
          | around =>
              dsimp only
              split
              · exact .pure _
              · exact .bind ih fun _ => .bind (.op rfl) fun _ => .pure _
              · exact .bind (.op rfl) fun _ => .pure _

theorem passive_control {policy : Policy} {contract : PluginKey} {target : Option ScopeNode}
    {change : PreparedChange} :
    (control policy contract target change).Built (fun op => passive op = true)
      fun _ _ => False := by
  refine .bind (.op rfl) fun _ => .bind (.op rfl) fun _ => .bind passive_runChain fun result => ?_
  cases result with
  | error failure => exact .pure _
  | ok output => exact .bind (.op rfl) fun _ => .pure _

theorem decision_of_commitAccepted {policy : Policy} {history : History} {p : Party} {f : FiberId}
    {target : Option ScopeNode} {change output : PreparedChange}
    {looked controlled events : List Performed} {result : UpdateResult}
    (hcontrol : Controls policy history p target change controlled (.ok (some output)))
    (hpassive : ∀ event ∈ looked ++ controlled, Passive event.1)
    (h : Runs (commitAccepted f output) events result) :
    Decision policy history p f target change (looked ++ controlled ++ events) result := by
  rcases runs_bind h with ⟨settled, before, last, rfl, hpass, hlast⟩
  have hend : last = [] ∧ (match settled with
      | .ok state => .ok (.committed state)
      | .error refusal => .error (.refused refusal)) = result := by
    cases settled <;> exact runs_pure hlast
  rcases hend with ⟨rfl, hresult⟩
  rcases runs_lift hpass rfl rfl with ⟨path, hpath, rfl⟩
  have hpassed := passes_of_runs hpath
  rw [List.append_nil]
  cases hpassed with
  | lost hlooks =>
      rw [← hresult]
      refine .lost hcontrol fun event hevent => ?_
      rcases List.mem_append.mp hevent with hbefore | hclaimed
      · exact hpassive event hbefore
      · rcases List.mem_map.mp hclaimed with ⟨inner, hinner, rfl⟩
        exact passive_lifted (hlooks inner hinner)
  | @committed claimed after marked _ hlooks hafter hanswer =>
      have hbefore : ∀ event ∈ looked ++ controlled ++ claimed.map (lifted (some output)),
          Passive event.1 := by
        intro event hevent
        rcases List.mem_append.mp hevent with hbefore | hclaimed
        · exact hpassive event hbefore
        · rcases List.mem_map.mp hclaimed with ⟨inner, hinner, rfl⟩
          exact passive_lifted (hlooks inner hinner)
      have hquiet : ∀ event ∈ after.map (lifted (some output)), ∀ g,
          replaces g event.1 = false := by
        intro event hevent g
        rcases List.mem_map.mp hevent with ⟨inner, hinner, rfl⟩
        exact replaces_lifted (hafter inner hinner) g
      have hcommitted : (∃ state, result = .ok (.committed state)) ∨
          ∃ failure, result = .error (.refused (.apply failure)) := by
        rcases hanswer with ⟨state, rfl⟩ | ⟨failure, rfl⟩
        · exact .inl ⟨state, hresult.symm⟩
        · exact .inr ⟨failure, hresult.symm⟩
      have hdecision : Decision policy history p f target change
          (looked ++ controlled ++ claimed.map (lifted (some output)) ++
            ⟨.lifecycle (.on f (.swapGated .generationReplacing)), marked⟩ ::
              ⟨.commit f output, ()⟩ :: after.map (lifted (some output))) result :=
        .committed hcontrol hbefore hquiet hcommitted
      simpa only [List.map_append, List.map_cons, List.append_assoc, lifted] using hdecision

/-- Past control an update performs nothing of any control. -/
theorem all_lift {candidate : Option PreparedChange} {α : Type} (x : Runtime.Prog α) :
    (lift candidate x).All Apart := by
  induction x with
  | pure a => trivial
  | act op next ih =>
      cases op <;> cases candidate <;> exact ⟨rfl, fun r => ih r⟩
  | loop body start next ihbody ih => exact ⟨fun g => ihbody g, fun b => ih b⟩

theorem all_commitAccepted {f : FiberId} {accepted : PreparedChange} :
    (commitAccepted f accepted).All Apart := by
  refine .bind (all_lift _) fun settled => ?_
  cases settled <;> trivial

/-- Every update decides. -/
theorem decision_of_runs {policy : Policy} {history : History} {p : Party} {ctx : SettleCtx}
    {f : FiberId} {target : Option ScopeNode} {change : PreparedChange} {events : List Performed}
    {result : UpdateResult} (hloads : Loads policy history p target change events)
    (h : Runs (update policy ctx f target change) events result) :
    Decision policy history p f target change events result := by
  have hlifecycle : ∀ {op : Runtime.Op}, looks op = true → Passive (.lifecycle op) := by
    intro op hop
    have hpassive : passive (.lifecycle op) = true := hop
    exact passive_of_passive hpassive
  rcases runs_bind h with ⟨doomed, first, rest, rfl, hrefuse, hrest⟩
  rw [runs_perform hrefuse] at hloads ⊢
  cases doomed with
  | true =>
      have hend := runs_pure hrest
      rw [hend.1, ← hend.2]
      -- a doomed call is refused at once
      refine .refused (by simp) fun event hevent => ?_
      rw [List.mem_singleton.mp hevent]
      exact hlifecycle rfl
  | false =>
      rcases runs_bind hrest with ⟨alive, second, rest, rfl, hload, hrest⟩
      rw [runs_perform hload] at hloads ⊢
      cases alive with
      | false =>
          have hend := runs_pure hrest
          rw [hend.1, ← hend.2]
          -- so is the update of a dead Fiber
          refine .refused (by simp) fun event hevent => ?_
          simp only [List.cons_append, List.nil_append, List.append_nil, List.mem_cons,
            List.not_mem_nil, or_false] at hevent
          rcases hevent with rfl | rfl
          · exact hlifecycle rfl
          · exact hlifecycle rfl
      | true =>
          rcases runs_bind hrest with ⟨contract, third, rest, rfl, hcontract, hrest⟩
          rw [runs_perform hcontract] at hloads ⊢
          have hlooked : ∀ event ∈ [(⟨.lifecycle (.refuseRecursion ctx f .update), false⟩ : Performed),
              ⟨.lifecycle (.on f (.load .alive)), true⟩,
              ⟨.lifecycle (.on f .contract), contract⟩], Passive event.1 := by
            intro event hevent
            simp only [List.mem_cons, List.not_mem_nil, or_false] at hevent
            rcases hevent with rfl | rfl | rfl <;> exact hlifecycle rfl
          split at hrest
          · have hend := runs_pure hrest
            rw [hend.1, ← hend.2]
            -- and an input under another contract
            exact .refused (by simp) hlooked
          · rcases runs_bind hrest with ⟨outcome, controlled, last, rfl, hcontrolled, hlast⟩
            -- around the call of control the update performs no operation of its chain
            have hothers : ∀ event ∈ [(⟨.lifecycle (.refuseRecursion ctx f .update), false⟩ : Performed),
                ⟨.lifecycle (.on f (.load .alive)), true⟩,
                ⟨.lifecycle (.on f .contract), contract⟩] ++ last, Apart event.1 := by
              intro event hevent
              rcases List.mem_append.mp hevent with hbefore | hafter
              · simp only [List.mem_cons, List.not_mem_nil, or_false] at hbefore
                rcases hbefore with rfl | rfl | rfl <;> rfl
              · cases outcome with
                | error failure =>
                    rw [(runs_pure hlast).1] at hafter
                    cases hafter
                | ok accepted =>
                    cases accepted with
                    | none =>
                        rw [(runs_pure hlast).1] at hafter
                        cases hafter
                    | some output =>
                        exact Program.All.events hlast all_commitAccepted event hafter
            have hcontrol := controls_of_runs (by exact hloads) hothers hcontrolled
            have hchain := Program.All.events hcontrolled (passive_control.all fun hno => hno.elim)
            have hpassive : ∀ event ∈ [(⟨.lifecycle (.refuseRecursion ctx f .update), false⟩ : Performed),
                ⟨.lifecycle (.on f (.load .alive)), true⟩,
                ⟨.lifecycle (.on f .contract), contract⟩] ++ controlled, Passive event.1 := by
              intro event hevent
              rcases List.mem_append.mp hevent with hbefore | hcalled
              · exact hlooked event hbefore
              · exact passive_of_passive (hchain event hcalled)
            cases outcome with
            | error failure =>
                have hend := runs_pure hlast
                have hdecision : Decision policy history p f target change _ _ := .failed hcontrol hpassive
                rw [hend.1, ← hend.2, List.append_nil]
                simpa only [List.cons_append, List.nil_append] using hdecision
            | ok accepted =>
                cases accepted with
                | none =>
                    have hend := runs_pure hlast
                    have hdecision : Decision policy history p f target change _ _ := .vetoed hcontrol hpassive
                    rw [hend.1, ← hend.2, List.append_nil]
                    simpa only [List.cons_append, List.nil_append] using hdecision
                | some output =>
                    have hdecision := decision_of_commitAccepted hcontrol hpassive hlast
                    simpa only [List.cons_append, List.nil_append, List.append_assoc] using hdecision

end Update
end CordisCore
