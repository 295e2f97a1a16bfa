import CordisCore.Update.Control

/-!
# Chains — the fold over the claimable hooks, and how a chain comes to its tail

A chain is followed in two ways: with its result, hook by hook, and on its way down
to the tail, which may lead through tasks that Around hooks gave the rest to.
-/

namespace CordisCore
namespace Update

open Interleaving
open Interleaving.Program (Runs Arrives runs_pure runs_perform runs_bind arrives_bind arrives_pure
  arrives_perform)
open CordisCore.Events (ListenerRegistrationId InvocationFailure)
open CordisCore.Runtime (PluginKey)

/-- One performed operation. -/
abbrev Performed := Event Op Op.Ret

/-! ## The reference fold -/

/-- The answer of one claim. -/
def verdict : Performed → Option Bool
  | ⟨.claim _ _, won⟩ => some won
  | _ => none

/-- The answers of the claims, in order. -/
def verdicts (events : List Performed) : List Bool :=
  events.filterMap verdict

/-- The hooks that were still claimable when the chain reached them. -/
def survivors : List UpdateSnap → List Bool → List UpdateSnap
  | hook :: rest, won :: later =>
      if won then hook :: survivors rest later else survivors rest later
  | _, _ => []

/-- Hooks run one inside the other; a failure names the hook that produced it. -/
def reference (policy : Policy) (contract : PluginKey) (control : ControlId) :
    List UpdateSnap → PreparedChange → ControlResult
  | [], change => .ok change
  | hook :: rest, change =>
      match hook.kind with
      | .mapper =>
          match (policy.mapper hook.id control change.input).outcome contract with
          | .ok change => reference policy contract control rest change
          | .error failure => .error (failure.correlate hook.id)
      | .around =>
          match policy.around hook.id control change.input with
          | .finishes result => attributed hook.id (result.outcome contract)
          | .calls input resume =>
              let downstream :=
                reference policy contract control rest { contract := contract, input := input }
              attributed hook.id ((resume (downstream.map (·.input))).outcome contract)
          | .spawns _ result => attributed hook.id (result.outcome contract)

section Fold

variable {policy : Policy} {contract : PluginKey} {control : ControlId}

/-- Every failure of a result names a hook. -/
def Named (result : ControlResult) : Prop :=
  ∀ failure, result = .error failure → failure.registration.isSome = true

theorem named_attributed (id : ListenerRegistrationId) (result : ControlResult) :
    Named (attributed id result) := by
  intro failure h
  cases result with
  | ok output => cases h
  | error inner =>
      cases h
      exact inner.isSome_correlate id

theorem named_reference {hooks : List UpdateSnap} {change : PreparedChange} :
    Named (reference policy contract control hooks change) := by
  induction hooks generalizing change with
  | nil => exact nofun
  | cons hook rest ih =>
      simp only [reference]
      split
      · split
        · exact ih
        · exact named_attributed hook.id (.error _)
      · split <;> exact named_attributed hook.id _

/-- A named failure is attributed no further. -/
theorem attributed_named {id : ListenerRegistrationId} {result : ControlResult}
    (h : Named result) : attributed id result = result := by
  cases result with
  | ok output => rfl
  | error failure =>
      exact congrArg Except.error (InvocationFailure.correlate_of_isSome (h failure rfl) id)

/-! ## What a chain performs -/

/-- A hook was claimed and its callback entered. -/
def entered (contract : PluginKey) (hook : UpdateSnap) : List Performed :=
  [⟨.claim contract hook.id, true⟩, ⟨.callback hook.id, ()⟩]

variable (policy contract control) in
/-- What the chain over these hooks performs, and the result that it comes back with. -/
inductive Chain : List UpdateSnap → PreparedChange → List Performed → ControlResult → Prop where
  | tail {change : PreparedChange} :
      Chain [] change [⟨.storeReached control, ()⟩] (.ok change)
  | gone {hook : UpdateSnap} {rest : List UpdateSnap} {change : PreparedChange}
      {events : List Performed} {result : ControlResult} (h : Chain rest change events result) :
      Chain (hook :: rest) change (⟨.claim contract hook.id, false⟩ :: events) result
  | mapped {hook : UpdateSnap} {rest : List UpdateSnap} {change accepted : PreparedChange}
      {events : List Performed} {result : ControlResult} (hkind : hook.kind = .mapper)
      (houtcome : (policy.mapper hook.id control change.input).outcome contract = .ok accepted)
      (h : Chain rest accepted events result) :
      Chain (hook :: rest) change (entered contract hook ++ events) (attributed hook.id result)
  | refused {hook : UpdateSnap} {rest : List UpdateSnap} {change : PreparedChange}
      {failure : InvocationFailure} (hkind : hook.kind = .mapper)
      (houtcome : (policy.mapper hook.id control change.input).outcome contract =
        .error failure) :
      Chain (hook :: rest) change (entered contract hook) (attributed hook.id (.error failure))
  | finished {hook : UpdateSnap} {rest : List UpdateSnap} {change : PreparedChange}
      {ended : CallbackEnd} (hkind : hook.kind = .around)
      (hbehaviour : policy.around hook.id control change.input = .finishes ended) :
      Chain (hook :: rest) change (entered contract hook)
        (attributed hook.id (ended.outcome contract))
  | called {hook : UpdateSnap} {rest : List UpdateSnap} {change : PreparedChange} {input : Value}
      {resume : Except InvocationFailure Value → CallbackEnd} {events : List Performed}
      {downstream : ControlResult} (hkind : hook.kind = .around)
      (hbehaviour : policy.around hook.id control change.input = .calls input resume)
      (h : Chain rest { contract := contract, input := input } events downstream) :
      Chain (hook :: rest) change
        (entered contract hook ++ (events ++ [⟨.callback hook.id, ()⟩]))
        (attributed hook.id ((resume (downstream.map (·.input))).outcome contract))
  | spawned {hook : UpdateSnap} {rest : List UpdateSnap} {change : PreparedChange} {input : Value}
      {ended : CallbackEnd} {q : Party} (hkind : hook.kind = .around)
      (hbehaviour : policy.around hook.id control change.input = .spawns input ended) :
      Chain (hook :: rest) change
        (entered contract hook ++
          [⟨.spawnChain contract control rest { contract := contract, input := input }, q⟩])
        (attributed hook.id (ended.outcome contract))

/-- The layer of one claimed hook. -/
theorem chain_of_invoke {hook : UpdateSnap} {rest : List UpdateSnap} {change : PreparedChange}
    {events : List Performed} {result : ControlResult}
    (hnext : ∀ {change events result},
      Runs (runChain policy contract control rest change) events result →
        Chain policy contract control rest change events result)
    (h : Runs (invoke policy contract control hook rest
      (runChain policy contract control rest) change) events result) :
    Chain policy contract control (hook :: rest) change
      (⟨.claim contract hook.id, true⟩ :: events) (attributed hook.id result) := by
  rcases runs_bind h with ⟨_, before, after, rfl, hcall, hafter⟩
  rw [runs_perform hcall]
  cases hkind : hook.kind with
  | mapper =>
      simp only [hkind] at hafter
      cases houtcome : (policy.mapper hook.id control change.input).outcome contract with
      | ok accepted =>
          rw [houtcome] at hafter
          exact .mapped hkind houtcome (hnext hafter)
      | error failure =>
          rw [houtcome] at hafter
          have hend := runs_pure hafter
          rw [hend.1, ← hend.2]
          exact .refused hkind houtcome
  | around =>
      simp only [hkind] at hafter
      cases hbehaviour : policy.around hook.id control change.input with
      | finishes ended =>
          rw [hbehaviour] at hafter
          have hend := runs_pure hafter
          rw [hend.1, ← hend.2]
          exact .finished hkind hbehaviour
      | calls input resume =>
          rw [hbehaviour] at hafter
          rcases runs_bind hafter with ⟨downstream, inner, last, rfl, hinner, hlast⟩
          rcases runs_bind hlast with ⟨_, resumed, final, rfl, hresumed, hfinal⟩
          have hend := runs_pure hfinal
          rw [runs_perform hresumed, hend.1, ← hend.2, List.append_nil]
          exact .called hkind hbehaviour (hnext hinner)
      -- the continuation goes to another task, and the around ends on its own
      | spawns input ended =>
          rw [hbehaviour] at hafter
          rcases runs_bind hafter with ⟨q, spawned, final, rfl, hspawned, hfinal⟩
          have hend := runs_pure hfinal
          rw [runs_perform hspawned, hend.1, ← hend.2, List.append_nil]
          exact .spawned hkind hbehaviour

/-- Whatever the store answers, `run_chain` goes down the hooks and back. -/
theorem chain_of_runs {hooks : List UpdateSnap} {change : PreparedChange}
    {events : List Performed} {result : ControlResult}
    (h : Runs (runChain policy contract control hooks change) events result) :
    Chain policy contract control hooks change events result := by
  induction hooks generalizing change events result with
  | nil =>
      rcases runs_bind h with ⟨_, before, after, rfl, hstore, hafter⟩
      have hend := runs_pure hafter
      rw [runs_perform hstore, hend.1, ← hend.2]
      exact .tail
  | cons hook rest ih =>
      rcases runs_bind h with ⟨won, before, after, rfl, hclaim, hafter⟩
      rw [runs_perform hclaim]
      cases won with
      | false => exact .gone (ih hafter)
      | true =>
          rcases runs_bind hafter with ⟨inner, layer, final, rfl, hlayer, hfinal⟩
          have hend := runs_pure hfinal
          rw [hend.1, List.append_nil, ← hend.2]
          exact chain_of_invoke ih hlayer

theorem verdicts_append (events events' : List Performed) :
    verdicts (events ++ events') = verdicts events ++ verdicts events' :=
  List.filterMap_append

theorem verdicts_entered (hook : UpdateSnap) (events : List Performed) :
    verdicts (entered contract hook ++ events) = true :: verdicts events :=
  rfl

/-- The result of a chain is the fold over the hooks that it claimed. -/
theorem Chain.reference {hooks : List UpdateSnap} {change : PreparedChange}
    {events : List Performed} {result : ControlResult}
    (h : Chain policy contract control hooks change events result) :
    result = reference policy contract control (survivors hooks (verdicts events)) change := by
  induction h with
  | tail => rfl
  | gone _ ih => exact ih
  | @mapped hook rest change accepted events result hkind houtcome h ih =>
      rw [verdicts_entered, ih]
      simp only [survivors, if_true, Update.reference, hkind, houtcome]
      exact attributed_named named_reference
  | @refused hook rest change failure hkind houtcome =>
      have hverdicts : verdicts (entered contract hook) = [true] := rfl
      rw [hverdicts]
      simp only [survivors, if_true, Update.reference, hkind, houtcome]
      rfl
  | @finished hook rest change ended hkind hbehaviour =>
      have hverdicts : verdicts (entered contract hook) = [true] := rfl
      rw [hverdicts]
      simp only [survivors, if_true, Update.reference, hkind, hbehaviour]
  | @called hook rest change input resume events downstream hkind hbehaviour h ih =>
      have hlast : verdicts [⟨.callback hook.id, ()⟩] = [] := rfl
      rw [verdicts_entered, verdicts_append, hlast, List.append_nil, ih]
      simp only [survivors, if_true, Update.reference, hkind, hbehaviour]
  | @spawned hook rest change input ended q hkind hbehaviour =>
      have hverdicts : verdicts (entered contract hook ++
          [⟨.spawnChain contract control rest { contract := contract, input := input }, q⟩]) =
            [true] := rfl
      rw [hverdicts]
      simp only [survivors, if_true, Update.reference, hkind, hbehaviour]

/-! ## The way to the tail -/

variable (policy contract control) in
/-- On its way down the chain performed these events and comes to what is left of the hooks. -/
inductive Descent : List UpdateSnap → PreparedChange → List Performed → List UpdateSnap →
    PreparedChange → Prop where
  | here (hooks : List UpdateSnap) (change : PreparedChange) : Descent hooks change [] hooks change
  | gone {hook : UpdateSnap} {rest left : List UpdateSnap} {change candidate : PreparedChange}
      {events : List Performed} (h : Descent rest change events left candidate) :
      Descent (hook :: rest) change (⟨.claim contract hook.id, false⟩ :: events) left candidate
  | mapped {hook : UpdateSnap} {rest left : List UpdateSnap}
      {change accepted candidate : PreparedChange} {events : List Performed}
      (hkind : hook.kind = .mapper)
      (houtcome : (policy.mapper hook.id control change.input).outcome contract = .ok accepted)
      (h : Descent rest accepted events left candidate) :
      Descent (hook :: rest) change (entered contract hook ++ events) left candidate
  | called {hook : UpdateSnap} {rest left : List UpdateSnap} {change candidate : PreparedChange}
      {input : Value} {resume : Except InvocationFailure Value → CallbackEnd}
      {events : List Performed} (hkind : hook.kind = .around)
      (hbehaviour : policy.around hook.id control change.input = .calls input resume)
      (h : Descent rest { contract := contract, input := input } events left candidate) :
      Descent (hook :: rest) change (entered contract hook ++ events) left candidate

/-- The control that a chain's own operations belong to. -/
def controlOf : Op → Option ControlId
  | .spawnChain _ control _ _ | .storeReached control | .loadReached control => some control
  | _ => none

/-- The operation belongs to no control. -/
def Apart (op : Op) : Prop :=
  controlOf op = none

variable (policy contract control) in
/-- Where a chain may stand when it is about to perform this operation. -/
inductive Stands (hooks : List UpdateSnap) (change : PreparedChange) : List Performed → Op → Prop
    where
  | elsewhere {events : List Performed} {op : Op} (hop : Apart op) :
      Stands hooks change events op
  | tail {events : List Performed} {candidate : PreparedChange}
      (h : Descent policy contract control hooks change events [] candidate) :
      Stands hooks change events (.storeReached control)
  | hands {events : List Performed} {hook : UpdateSnap} {rest : List UpdateSnap}
      {candidate : PreparedChange} {input : Value} {ended : CallbackEnd}
      (h : Descent policy contract control hooks change events (hook :: rest) candidate)
      (hkind : hook.kind = .around)
      (hbehaviour : policy.around hook.id control candidate.input = .spawns input ended) :
      Stands hooks change (events ++ entered contract hook)
        (.spawnChain contract control rest { contract := contract, input := input })

/-- A chain stands where the chain behind its first hook stands. -/
theorem Stands.below {hooks rest : List UpdateSnap} {change next : PreparedChange}
    {first events : List Performed} {op : Op}
    (hdown : ∀ {events left candidate},
      Descent policy contract control rest next events left candidate →
        Descent policy contract control hooks change (first ++ events) left candidate)
    (h : Stands policy contract control rest next events op) :
    Stands policy contract control hooks change (first ++ events) op := by
  cases h with
  | elsewhere hop => exact .elsewhere hop
  | tail h => exact .tail (hdown h)
  | hands h hkind hbehaviour =>
      rw [← List.append_assoc]
      exact .hands (hdown h) hkind hbehaviour

theorem stands_of_invoke {hook : UpdateSnap} {rest : List UpdateSnap} {change : PreparedChange}
    {events : List Performed} {op : Op} {next : op.Ret → Prog ControlResult}
    (hnext : ∀ {change events op} {next : op.Ret → Prog ControlResult},
      Arrives (runChain policy contract control rest change) events (.act op next) →
        Stands policy contract control rest change events op)
    (h : Arrives (invoke policy contract control hook rest
      (runChain policy contract control rest) change) events (.act op next)) :
    Stands policy contract control (hook :: rest) change
      (⟨.claim contract hook.id, true⟩ :: events) op := by
  rcases arrives_bind h with ⟨_, hcall, -⟩ | ⟨_, before, after, rfl, hcall, hafter⟩
  · rw [(arrives_perform hcall).2]
    exact .elsewhere rfl
  rw [runs_perform hcall]
  cases hkind : hook.kind with
  | mapper =>
      simp only [hkind] at hafter
      cases houtcome : (policy.mapper hook.id control change.input).outcome contract with
      | ok accepted =>
          rw [houtcome] at hafter
          exact (hnext hafter).below (.mapped hkind houtcome)
      | error failure =>
          rw [houtcome] at hafter
          exact (arrives_pure hafter).elim
  | around =>
      simp only [hkind] at hafter
      cases hbehaviour : policy.around hook.id control change.input with
      | finishes ended =>
          rw [hbehaviour] at hafter
          exact (arrives_pure hafter).elim
      | calls input resume =>
          rw [hbehaviour] at hafter
          rcases arrives_bind hafter with ⟨_, hinner, -⟩ | ⟨_, _, last, rfl, -, hlast⟩
          · exact (hnext hinner).below (.called hkind hbehaviour)
          · rcases arrives_bind hlast with ⟨_, hresumed, -⟩ | ⟨_, _, _, -, -, hend⟩
            · rw [(arrives_perform hresumed).2]
              exact .elsewhere rfl
            · exact (arrives_pure hend).elim
      | spawns input ended =>
          rw [hbehaviour] at hafter
          rcases arrives_bind hafter with ⟨_, hspawned, -⟩ | ⟨_, _, _, -, -, hend⟩
          · rw [(arrives_perform hspawned).1, (arrives_perform hspawned).2]
            exact .hands (.here _ _) hkind hbehaviour
          · exact (arrives_pure hend).elim

/-- It sets its flag at the tail, and hands on the rest where an Around gives it away. -/
theorem stands_of_arrives {hooks : List UpdateSnap} {change : PreparedChange}
    {events : List Performed} {op : Op} {next : op.Ret → Prog ControlResult}
    (h : Arrives (runChain policy contract control hooks change) events (.act op next)) :
    Stands policy contract control hooks change events op := by
  induction hooks generalizing change events op next with
  | nil =>
      rcases arrives_bind h with ⟨_, hstore, -⟩ | ⟨_, _, _, -, -, hend⟩
      · rw [(arrives_perform hstore).1, (arrives_perform hstore).2]
        exact .tail (.here _ _)
      · exact (arrives_pure hend).elim
  | cons hook rest ih =>
      rcases arrives_bind h with ⟨_, hclaim, -⟩ | ⟨won, before, after, rfl, hclaim, hafter⟩
      · rw [(arrives_perform hclaim).2]
        exact .elsewhere rfl
      rw [runs_perform hclaim]
      cases won with
      | false => exact (ih hafter).below .gone
      | true =>
          rcases arrives_bind hafter with ⟨_, hlayer, -⟩ | ⟨_, _, _, -, -, hend⟩
          · exact stands_of_invoke ih hlayer
          · exact (arrives_pure hend).elim

end Fold

/-! ## Reaching the tail -/

/-- Everything performed so far, the latest first. -/
abbrev History := List (Party × Performed)

/-- What one party performed, in order. -/
def performedBy (p : Party) (history : History) : List Performed :=
  ((history.filter fun row => row.1 = p).map Prod.snd).reverse

/-- The driver of a chain, having performed these events, has come to its tail, or the task did that
an Around gave the rest of the chain to. -/
inductive Reaches (policy : Policy) (contract : PluginKey) (control : ControlId)
    (history : History) : List Performed → List UpdateSnap → PreparedChange → Prop where
  | tail {before after : List Performed} {hooks : List UpdateSnap}
      {change candidate : PreparedChange}
      (h : Descent policy contract control hooks change before [] candidate) :
      Reaches policy contract control history
        (before ++ ⟨.storeReached control, ()⟩ :: after) hooks change
  | handed {before after : List Performed} {hooks rest : List UpdateSnap} {hook : UpdateSnap}
      {change candidate : PreparedChange} {input : Value} {ended : CallbackEnd} {q : Party}
      (h : Descent policy contract control hooks change before (hook :: rest) candidate)
      (hkind : hook.kind = .around)
      (hbehaviour : policy.around hook.id control candidate.input = .spawns input ended)
      (hrest : Reaches policy contract control history (performedBy q history) rest
        { contract := contract, input := input }) :
      Reaches policy contract control history
        (before ++ entered contract hook ++
          ⟨.spawnChain contract control rest { contract := contract, input := input }, q⟩ :: after)
        hooks change

section Reaching

variable {policy : Policy} {contract : PluginKey} {control : ControlId} {history : History}

/-- A tail that was reached stays reached. -/
theorem Reaches.later {performed : List Performed} {hooks : List UpdateSnap}
    {change : PreparedChange} (h : Reaches policy contract control history performed hooks change)
    (more : List Performed) :
    Reaches policy contract control history (performed ++ more) hooks change := by
  cases h with
  | tail h =>
      rw [List.append_assoc]
      exact .tail h
  | handed h hkind hbehaviour hrest =>
      rw [List.append_assoc]
      exact .handed h hkind hbehaviour hrest

variable (policy history) in
/-- The event leads to the tail of this control: it is the tail, or it gives away a chain that comes
to it. -/
inductive Leads (id : ControlId) : Performed → Prop where
  | stored : Leads id ⟨.storeReached id, ()⟩
  | handed {other : PluginKey} {rest : List UpdateSnap} {next : PreparedChange} {q : Party}
      (h : Reaches policy other id history (performedBy q history) rest next) :
      Leads id ⟨.spawnChain other id rest next, q⟩

theorem Leads.controlOf_eq {id : ControlId} {event : Performed} (h : Leads policy history id event) :
    controlOf event.1 = some id := by
  cases h <;> rfl

/-- Where a path of the chain has an event that leads to the tail, the chain comes to it. -/
theorem Leads.reaches {α : Type} {x y : Prog α} {performed : List Performed}
    {hooks : List UpdateSnap} {change : PreparedChange} {id : ControlId} {event : Performed}
    (h : Leads policy history id event) (hevent : event ∈ performed)
    (hpath : Arrives x performed y)
    (hstands : ∀ {events op} {next : op.Ret → Prog α}, Arrives x events (.act op next) →
      Stands policy contract control hooks change events op) :
    Reaches policy contract control history performed hooks change := by
  rcases hpath.found hevent with ⟨before, after, next, rfl, hbefore, -⟩
  have hstands := hstands hbefore
  cases h with
  | stored =>
      dsimp only at hstands
      cases hstands with
      | elsewhere hop => cases hop
      | tail hdown => exact .tail hdown
  | handed hrest =>
      dsimp only at hstands
      cases hstands with
      | elsewhere hop => cases hop
      | hands hdown hkind hbehaviour => exact .handed hdown hkind hbehaviour hrest

theorem mem_performedBy {p : Party} {event : Performed} :
    event ∈ performedBy p history ↔ (p, event) ∈ history := by
  simp only [performedBy, List.mem_reverse, List.mem_map, List.mem_filter, decide_eq_true_eq]
  constructor
  · rintro ⟨⟨q, _⟩, ⟨hrow, rfl⟩, rfl⟩
    exact hrow
  · exact fun hrow => ⟨_, ⟨hrow, rfl⟩, rfl⟩

/-- Who comes to the tail of a control sets its flag there, or somebody else does. -/
theorem Reaches.stored {performed : List Performed} {hooks : List UpdateSnap}
    {change : PreparedChange} (h : Reaches policy contract control history performed hooks change)
    (hperformed : ∀ event ∈ performed, ∃ q, (q, event) ∈ history) :
    ∃ q, (q, (⟨.storeReached control, ()⟩ : Performed)) ∈ history := by
  induction h with
  | tail _ => exact hperformed _ (List.mem_append_right _ List.mem_cons_self)
  | handed _ _ _ _ ih => exact ih fun event hevent => ⟨_, mem_performedBy.mp hevent⟩

end Reaching

end Update
end CordisCore
