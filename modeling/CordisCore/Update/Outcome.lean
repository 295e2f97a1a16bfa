import CordisCore.Interleaving.Past
import CordisCore.Update.Record

/-!
# Outcomes — whose chain set the flag, and what an update reports

The flag of a control is set by whoever drives its chain: the update itself, or a
task that an Around gave the rest to.  Followed back from the tail, every such
driver was led there by the control that loads the flag.
-/

namespace CordisCore
namespace Update

open Interleaving
open Interleaving.Program (Arrives Runs runs_pure runs_bind runs_perform arrives_bind arrives_pure
  arrives_perform)
open CordisCore.Events (ListenerRegistrationId InvocationFailure)
open CordisCore.Runtime (FiberId PluginKey SettleCtx)

/-! ## Drivers of a chain -/

/-- The party began the control, or was given the rest of its chain. -/
def Drives (history : History) (p : Party) (id : ControlId) : Prop :=
  (p, (⟨.newReached, id⟩ : Performed)) ∈ history ∨
    ∃ q contract hooks change,
      (q, (⟨.spawnChain contract id hooks change, p⟩ : Performed)) ∈ history

/-- Only drivers of a chain perform what belongs to its control. -/
def Owned : History → Prop
  | [] => True
  | (p, event) :: earlier =>
      (∀ id, controlOf event.1 = some id → Drives earlier p id) ∧ Owned earlier

theorem Owned.split {later earlier : History} {p : Party} {event : Performed} {id : ControlId}
    (h : Owned (later ++ (p, event) :: earlier)) (hevent : controlOf event.1 = some id) :
    Drives earlier p id := by
  induction later with
  | nil => exact h.1 id hevent
  | cons row later ih => exact ih h.2

theorem stands_of_body {policy : Policy} {contract : PluginKey} {id : ControlId}
    {hooks : List UpdateSnap} {change : PreparedChange} {events : List Performed} {op : Op}
    {next : op.Ret → Prog Answer}
    (h : Arrives (body policy (.chain contract id hooks change)) events (.act op next)) :
    Stands policy contract id hooks change events op := by
  rcases arrives_bind h with ⟨_, hchain, -⟩ | ⟨_, _, _, -, -, hend⟩
  · exact stands_of_arrives hchain
  · exact (arrives_pure hend).elim

/-- A chain performs what belongs to its own control only. -/
theorem Stands.control {policy : Policy} {contract : PluginKey} {control id : ControlId}
    {hooks : List UpdateSnap} {change : PreparedChange} {events : List Performed} {op : Op}
    (h : Stands policy contract control hooks change events op) (hop : controlOf op = some id) :
    id = control := by
  cases h with
  | elsewhere hnone => cases hnone.symm.trans hop
  | tail | hands => exact (Option.some.inj hop).symm

/-- A control's own operations come after it has its flag. -/
theorem began_of_control {policy : Policy} {contract : PluginKey} {target : Option ScopeNode}
    {change : PreparedChange} {events : List Performed} {op : Op} {id : ControlId}
    {next : op.Ret → Prog (Except InvocationFailure (Option PreparedChange))}
    (h : Arrives (control policy contract target change) events (.act op next))
    (hop : controlOf op = some id) : (⟨.newReached, id⟩ : Performed) ∈ events := by
  rcases arrives_bind h with ⟨_, hsnapshot, -⟩ | ⟨hooks, first, rest, rfl, -, hrest⟩
  · cases (arrives_perform hsnapshot).2
    cases hop
  rcases arrives_bind hrest with ⟨_, hnew, -⟩ | ⟨own, second, rest, rfl, hnew, hrest⟩
  · cases (arrives_perform hnew).2
    cases hop
  rw [runs_perform hnew]
  have hsame : id = own → (⟨.newReached, id⟩ : Performed) ∈ first ++ ([⟨.newReached, own⟩] ++ rest) := by
    rintro rfl
    simp
  apply hsame
  rcases arrives_bind hrest with ⟨_, hchain, -⟩ | ⟨result, _, last, -, -, hlast⟩
  · exact (stands_of_arrives hchain).control hop
  · cases result with
    | error failure => exact (arrives_pure hlast).elim
    | ok output =>
        rcases arrives_bind hlast with ⟨_, hload, -⟩ | ⟨_, _, _, -, -, hend⟩
        · cases (arrives_perform hload).2
          exact (Option.some.inj hop).symm
        · exact (arrives_pure hend).elim

theorem began_of_update {policy : Policy} {ctx : SettleCtx} {f : FiberId}
    {target : Option ScopeNode} {change : PreparedChange} {events : List Performed} {op : Op}
    {id : ControlId} {next : op.Ret → Prog UpdateResult}
    (h : Arrives (update policy ctx f target change) events (.act op next))
    (hop : controlOf op = some id) : (⟨.newReached, id⟩ : Performed) ∈ events := by
  rcases arrives_bind h with ⟨_, hrefuse, -⟩ | ⟨doomed, first, rest, rfl, -, hrest⟩
  · cases (arrives_perform hrefuse).2
    cases hop
  refine List.mem_append_right _ ?_
  cases doomed with
  | true => exact (arrives_pure hrest).elim
  | false =>
      rcases arrives_bind hrest with ⟨_, hload, -⟩ | ⟨alive, second, rest, rfl, -, hrest⟩
      · cases (arrives_perform hload).2
        cases hop
      refine List.mem_append_right _ ?_
      cases alive with
      | false => exact (arrives_pure hrest).elim
      | true =>
          rcases arrives_bind hrest with ⟨_, hcontract, -⟩ | ⟨contract, third, rest, rfl, -, hrest⟩
          · cases (arrives_perform hcontract).2
            cases hop
          refine List.mem_append_right _ ?_
          split at hrest
          · exact (arrives_pure hrest).elim
          · rcases arrives_bind hrest with ⟨_, hcontrol, -⟩ | ⟨outcome, _, last, rfl, -, hlast⟩
            · exact began_of_control hcontrol hop
            · have hlater : Apart op := by
                cases outcome with
                | error failure => exact (arrives_pure hlast).elim
                | ok accepted =>
                    cases accepted with
                    | none => exact (arrives_pure hlast).elim
                    | some output => exact Program.All.arrives hlast all_commitAccepted
              cases hlater.symm.trans hop

/-- What a party does on a routine other than an update's or a chain's belongs to no control. -/
theorem all_body (policy : Policy) {routine : Routine}
    (hupdate : ∀ ctx f target change, routine ≠ .update ctx f target change)
    (hchain : ∀ contract id hooks change, routine ≠ .chain contract id hooks change) :
    (body policy routine).All Apart := by
  cases routine with
  | lifecycle routine => exact .bind (all_lift _) fun _ => trivial
  | update ctx f target change => exact absurd rfl (hupdate ctx f target change)
  | chain contract id hooks change => exact absurd rfl (hchain contract id hooks change)
  | onUpdate | remove => exact ⟨rfl, fun _ => trivial⟩

/-! ## Whoever drives a chain was led there -/

/-- A dropped party goes on with lifecycle code at most. -/
theorem lifecycle_of_dropped {policy : Policy} {p : Party} {s s' : Updating} {guard : Routine}
    (h : (updating policy).dropped p s = some (s', some guard)) :
    ∃ routine, guard = .lifecycle routine := by
  simp only [updating, Option.map_eq_some_iff, Prod.mk.injEq] at h
  rcases h with ⟨_, -, -, routine, -, hguard⟩
  exact ⟨routine, hguard.symm⟩

theorem all_of_dropped {policy : Policy} {p : Party} {s s' : Updating} {guard : Routine}
    (h : (updating policy).dropped p s = some (s', some guard)) :
    ((updating policy).body guard).All Apart := by
  rcases lifecycle_of_dropped h with ⟨routine, rfl⟩
  exact Program.All.bind (all_lift _) fun _ => trivial

/-- What holds between the tasks of a run and the chains they were given. -/
structure Driven (policy : Policy)
    (cfg : Config (Recorded Updating Op Op.Ret Routine) Op Op.Ret Answer) : Prop where
  origin : ∀ {q contract id hooks change},
    cfg.shared.origin q = some (.chain contract id hooks change) →
      ∃ p, (p, (⟨.spawnChain contract id hooks change, q⟩ : Performed)) ∈ cfg.shared.history
  led : ∀ {p q contract id hooks change},
    (p, (⟨.spawnChain contract id hooks change, q⟩ : Performed)) ∈ cfg.shared.history →
      cfg.pool q ≠ none ∧ (updating policy).Led Apart cfg.shared q
        (.chain contract id hooks change)
  owned : Owned cfg.shared.history

/-- Whoever is about to perform what belongs to a control drives its chain. -/
theorem Driven.drives {policy : Policy}
    {ok : Machine.Condition (Recorded Updating Op Op.Ret Routine) Op Runtime.Choice}
    {cfg : Config (Recorded Updating Op Op.Ret Routine) Op Op.Ret Answer}
    (hreach : (updating policy).recorded.Reachable ok cfg) (h : Driven policy cfg) {p : Party}
    {op : Op} {next : op.Ret → Prog Answer} (hpool : cfg.pool p = some (.act op next))
    {id : ControlId} (hop : controlOf op = some id) : Drives cfg.shared.history p id := by
  rcases Machine.follows_of_reachable hreach hpool with ⟨routine, horigin, hpath⟩ | ⟨-, hgone⟩
  · by_cases hchain : ∃ contract control hooks change,
      routine = .chain contract control hooks change
    · rcases hchain with ⟨contract, control, hooks, change, rfl⟩
      rcases h.origin horigin with ⟨q, hspawned⟩
      have hcontrol := (stands_of_body hpath).control hop
      exact .inr ⟨q, contract, hooks, change, hcontrol ▸ hspawned⟩
    · by_cases hupdate : ∃ ctx f target change, routine = .update ctx f target change
      · rcases hupdate with ⟨ctx, f, target, change, rfl⟩
        have hupdate : (⟨.newReached, id⟩ : Performed) ∈ cfg.shared.log p := by
          rcases arrives_bind hpath with ⟨_, hupdate, -⟩ | ⟨_, _, _, -, -, hend⟩
          · exact began_of_update hupdate hop
          · exact (arrives_pure hend).elim
        exact .inl (Machine.mem_history_of_log hreach hupdate)
      · have hall := all_body policy
          (fun ctx f target change heq => hupdate ⟨ctx, f, target, change, heq⟩)
          fun contract control hooks change heq => hchain ⟨contract, control, hooks, change, heq⟩
        have hnone : Apart op := Program.All.arrives hpath hall
        cases hnone.symm.trans hop
  · cases hgone

/-- The spawned task is the one that is given the rest. -/
theorem forks_eq {policy : Policy} {self fresh : Party} {choice : Runtime.Choice} {op : Op}
    {routine : Routine} {s s' : Updating} {r : op.Ret}
    (hforks : (updating policy).forks op = some routine)
    (h : (updating policy).exec self fresh choice op s = some (s', r)) :
    (∃ lifecycle, routine = .lifecycle lifecycle) ∨ ∃ contract id hooks change,
      routine = .chain contract id hooks change ∧
        (⟨op, r⟩ : Performed) = ⟨.spawnChain contract id hooks change, fresh⟩ := by
  cases op with
  | lifecycle op =>
      simp only [updating, forks, Option.map_eq_some_iff] at hforks
      rcases hforks with ⟨inner, -, rfl⟩
      exact .inl ⟨inner, rfl⟩
  | spawnChain contract id hooks change =>
      cases hforks
      cases h
      exact .inr ⟨contract, id, hooks, change, rfl, rfl⟩
  | _ => cases hforks

theorem driven_of_reachable {policy : Policy}
    {ok : Machine.Condition (Recorded Updating Op Op.Ret Routine) Op Runtime.Choice}
    {cfg : Config (Recorded Updating Op Op.Ret Routine) Op Op.Ret Answer}
    (h : (updating policy).recorded.Reachable ok cfg) : Driven policy cfg := by
  induction h with
  | start => exact ⟨nofun, nofun, trivial⟩
  | @step cfg cfg' label hreach _ moves ih =>
      have hmove := Machine.moves_of_step moves
      -- a chain that was started keeps to its own program
      have hled : ∀ {p q contract id hooks change},
          (p, (⟨.spawnChain contract id hooks change, q⟩ : Performed)) ∈ cfg.shared.history →
            cfg'.pool q ≠ none ∧ (updating policy).Led Apart cfg'.shared q
              (.chain contract id hooks change) := by
        intro p q contract id hooks change hrow
        have hbefore := ih.led hrow
        exact ⟨hmove.born hbefore.1, hbefore.2.step all_of_dropped hreach hmove hbefore.1⟩
      cases hmove with
      | @performed p _ _ op next state r hpool hforks hexec =>
          refine ⟨fun horigin => ?_, fun hrow => ?_, ?_, ih.owned⟩
          · rcases ih.origin horigin with ⟨q, hrow⟩
            exact ⟨q, List.mem_cons_of_mem _ hrow⟩
          · rcases List.mem_cons.mp hrow with hnew | hold
            · cases hnew
              cases hforks
            · exact hled hold
          · exact fun id hop => ih.drives hreach hpool hop
      | @forked p q _ op next state r routine hpool hforks hne hunborn hexec =>
          -- only a lifecycle call and a chain are ever forked
          have hfork := forks_eq hforks hexec
          refine ⟨fun {other contract id hooks change} horigin => ?_, fun hrow => ?_, ?_, ih.owned⟩
          · by_cases hq : other = q
            · subst hq
              have hroutine : routine = .chain contract id hooks change := by
                simpa [Recorded.begin] using horigin
              rcases hfork with ⟨_, hlifecycle⟩ | ⟨_, _, _, _, hchain, hevent⟩
              · cases hlifecycle.symm.trans hroutine
              · cases hchain.symm.trans hroutine
                exact ⟨p, hevent ▸ List.mem_cons_self⟩
            · have hothers := Machine.begin_others
                ((cfg.shared.move state).record p ⟨op, r⟩) (some routine) hq
              rcases ih.origin (hothers.1 ▸ horigin) with ⟨owner, hrow⟩
              exact ⟨owner, List.mem_cons_of_mem _ hrow⟩
          · rcases List.mem_cons.mp hrow with hnew | hold
            -- the new party was not born, so it performed nothing before
            · have hnothing : ((cfg.shared.move state).record p ⟨op, r⟩).performed q = [] :=
                (Machine.performed_record_others _ _ hne).trans
                  ((Machine.traced_of_reachable hreach q).unborn hunborn)
              cases hnew
              cases hforks
              cases hexec
              exact ⟨by simp, Machine.led_begin hnothing _⟩
            · exact hled hold
          · exact fun id hop => ih.drives hreach hpool hop
      | unfolded => exact ⟨ih.origin, hled, ih.owned⟩
      | @entered p routine state hunborn henter =>
          refine ⟨fun {other contract id hooks change} horigin => ?_, hled, ih.owned⟩
          by_cases hp : other = p
          · subst hp
            have hroutine : routine = .chain contract id hooks change := by
              simpa [Recorded.begin] using horigin
            subst hroutine
            -- nobody enters a chain from outside
            cases henter
          · exact ih.origin ((Machine.begin_others _ (some routine) hp).1 ▸ horigin)
      | @dropped p op next state routine hpool hawaits hdropped =>
          refine ⟨fun {other contract id hooks change} horigin => ?_, hled, ih.owned⟩
          by_cases hp : other = p
          · subst hp
            have hroutine : routine = some (.chain contract id hooks change) := by
              simpa [Recorded.begin] using horigin
            -- what a drop leaves behind is a lifecycle call
            rcases lifecycle_of_dropped (hroutine ▸ hdropped) with ⟨_, hlifecycle⟩
            cases hlifecycle
          · exact ih.origin ((Machine.begin_others _ routine hp).1 ▸ horigin)

/-! ## Back from the tail -/

theorem tailReached_eq_true {id : ControlId} {history : History} :
    tailReached id history = true ↔
      ∃ p, (p, (⟨.storeReached id, ()⟩ : Performed)) ∈ history := by
  induction history with
  | nil => exact ⟨nofun, fun ⟨_, h⟩ => nomatch h⟩
  | cons row history ih =>
      rcases row with ⟨q, op, r⟩
      have hother : (∀ control, op ≠ .storeReached control) →
          (tailReached id ((q, ⟨op, r⟩) :: history) = tailReached id history) := by
        intro hop
        cases op <;> first | rfl | exact absurd rfl (hop _)
      by_cases hop : ∃ control, op = .storeReached control
      · rcases hop with ⟨control, rfl⟩
        simp only [tailReached, Bool.or_eq_true, decide_eq_true_eq, ih, List.mem_cons]
        constructor
        · rintro (rfl | ⟨p, hp⟩)
          · exact ⟨q, .inl rfl⟩
          · exact ⟨p, .inr hp⟩
        · rintro ⟨p, hnew | hold⟩
          · cases hnew
            exact .inl rfl
          · exact .inr ⟨p, hold⟩
      · rw [hother fun control heq => hop ⟨control, heq⟩, ih]
        constructor
        · rintro ⟨p, hp⟩
          exact ⟨p, List.mem_cons_of_mem _ hp⟩
        · rintro ⟨p, hp⟩
          rcases List.mem_cons.mp hp with hnew | hold
          · cases hnew
            exact absurd ⟨id, rfl⟩ hop
          · exact ⟨p, hold⟩

/-- Every control has a flag of its own. -/
theorem Explained.lt_controls {history : History} (h : Explained history) {p : Party}
    {id : ControlId} (hnew : (p, (⟨.newReached, id⟩ : Performed)) ∈ history) :
    id < controls history := by
  induction history with
  | nil => cases hnew
  | cons row history ih =>
      have hle : controls history ≤ controls (row :: history) := by
        rcases row with ⟨q, op, r⟩
        cases op <;> first | exact Nat.le_refl _ | exact Nat.le_succ _
      rcases List.mem_cons.mp hnew with rfl | hold
      · have hid : id = controls history := h.1
        rw [hid]
        exact Nat.lt_succ_self _
      · exact Nat.lt_of_lt_of_le (ih h.2 hold) hle

theorem Explained.unique {history : History} (h : Explained history) {p q : Party}
    {id : ControlId} (hp : (p, (⟨.newReached, id⟩ : Performed)) ∈ history)
    (hq : (q, (⟨.newReached, id⟩ : Performed)) ∈ history) : p = q := by
  induction history with
  | nil => cases hp
  | cons row history ih =>
      have hlater : ∀ {party other : Party}, row = (party, ⟨.newReached, id⟩) →
          (other, (⟨.newReached, id⟩ : Performed)) ∈ history → False := by
        rintro party other rfl hold
        have hid : id = controls history := h.1
        exact Nat.ne_of_lt (h.2.lt_controls hold) hid
      rcases List.mem_cons.mp hp with hnewp | holdp
      · rcases List.mem_cons.mp hq with hnewq | holdq
        · exact congrArg Prod.fst (hnewp.trans hnewq.symm)
        · exact (hlater hnewp.symm holdq).elim
      · rcases List.mem_cons.mp hq with hnewq | holdq
        · exact (hlater hnewq.symm holdp).elim
        · exact ih h.2 holdp holdq

theorem Explained.suffix {history earlier : History} (h : Explained history)
    (hsuffix : earlier <:+ history) : Explained earlier := by
  rcases hsuffix with ⟨later, rfl⟩
  induction later with
  | nil => exact h
  | cons row later ih => exact ih h.2

theorem Owned.suffix {history earlier : History} (h : Owned history)
    (hsuffix : earlier <:+ history) : Owned earlier := by
  rcases hsuffix with ⟨later, rfl⟩
  induction later with
  | nil => exact h
  | cons row later ih => exact ih h.2

theorem performedBy_prefix {history earlier : History} (hsuffix : earlier <:+ history)
    (p : Party) : performedBy p earlier <+: performedBy p history := by
  rcases hsuffix with ⟨later, rfl⟩
  simp only [performedBy, List.filter_append, List.map_append, List.reverse_append]
  exact List.prefix_append _ _

/-- A task that was given a chain whose event leads to the tail comes to the tail. -/
theorem Driven.handed {policy : Policy}
    {ok : Machine.Condition (Recorded Updating Op Op.Ret Routine) Op Runtime.Choice}
    {cfg : Config (Recorded Updating Op Op.Ret Routine) Op Op.Ret Answer}
    (hreach : (updating policy).recorded.Reachable ok cfg) (h : Driven policy cfg)
    {earlier : History} (hsuffix : earlier <:+ cfg.shared.history) {p q : Party}
    {contract : PluginKey} {id : ControlId} {hooks : List UpdateSnap} {change : PreparedChange}
    (hspawned : (p, (⟨.spawnChain contract id hooks change, q⟩ : Performed)) ∈ earlier)
    {event : Performed} (hevent : (q, event) ∈ earlier) (hleads : Leads policy earlier id event) :
    Reaches policy contract id earlier (performedBy q earlier) hooks change := by
  have hled := h.led (hsuffix.subset hspawned)
  rcases hled.2.path hreach hled.1 with ⟨before, after, y, hall, hpath, hafter⟩
  rcases performedBy_prefix hsuffix q with ⟨more, hmore⟩
  have hsplit : performedBy q earlier ++ more = before ++ after := hmore.trans hall
  have hmem := mem_performedBy.mpr hevent
  rcases List.append_eq_append_iff.mp hsplit with ⟨rest, rfl, -⟩ | ⟨rest, hearlier, hrest⟩
  · rcases hpath.front with ⟨z, hfront, -⟩
    exact hleads.reaches hmem hfront stands_of_body
  · -- it was dropped in between, and did nothing of the chain any more
    rw [hearlier] at hmem ⊢
    have hbefore : event ∈ before := by
      rcases List.mem_append.mp hmem with hbefore | hlater
      · exact hbefore
      · have hapart := hafter event (hrest ▸ List.mem_append_left _ hlater)
        cases hapart.symm.trans hleads.controlOf_eq
    exact (hleads.reaches hbefore hpath stands_of_body).later rest

/-- Followed back through the tasks that drove it, a chain that came to the tail began with the
control that owns the flag. -/
theorem Driven.reaches {policy : Policy}
    {ok : Machine.Condition (Recorded Updating Op Op.Ret Routine) Op Runtime.Choice}
    {cfg : Config (Recorded Updating Op Op.Ret Routine) Op Op.Ret Answer}
    (hreach : (updating policy).recorded.Reachable ok cfg) (h : Driven policy cfg)
    {earlier : History} (hsuffix : earlier <:+ cfg.shared.history) (hexplained : Explained earlier)
    {p : Party} {contract : PluginKey} {id : ControlId} {hooks : List UpdateSnap}
    {change : PreparedChange} {chain : List Performed} {y : Prog ControlResult}
    (hnew : (p, (⟨.newReached, id⟩ : Performed)) ∈ earlier)
    (hpath : Arrives (runChain policy contract id hooks change) chain y)
    (hown : ∀ {event}, (p, event) ∈ earlier → controlOf event.1 = some id → event ∈ chain)
    {q : Party} {event : Performed} {newer older : History}
    (hsplit : earlier = newer ++ (q, event) :: older) (hleads : Leads policy earlier id event) :
    Reaches policy contract id earlier chain hooks change := by
  -- the chain was given away before the task it was given to performed anything
  induction hn : older.length using Nat.strongRecOn generalizing q event newer older with
  | ind n ih =>
      have howned : Drives older q id :=
        (hsplit ▸ h.owned.suffix hsuffix : Owned (newer ++ (q, event) :: older)).split
          hleads.controlOf_eq
      have hevent : (q, event) ∈ earlier := hsplit ▸ List.mem_append_right _ List.mem_cons_self
      have hsub : ∀ {row}, row ∈ older → row ∈ earlier := fun hrow =>
        hsplit ▸ List.mem_append_right _ (List.mem_cons_of_mem _ hrow)
      rcases howned with hfirst | ⟨giver, other, rest, next, hgiven⟩
      · obtain rfl := hexplained.unique hnew (hsub hfirst)
        exact hleads.reaches (hown hevent hleads.controlOf_eq) hpath stands_of_arrives
      · have hrest := h.handed hreach hsuffix (hsub hgiven) hevent hleads
        rcases List.append_of_mem hgiven with ⟨between, oldest, hold⟩
        have hshorter : oldest.length < n := by
          rw [← hn, hold, List.length_append, List.length_cons]
          omega
        have hlonger : earlier = (newer ++ (q, event) :: between) ++
            (giver, ⟨.spawnChain other id rest next, q⟩) :: oldest := by
          rw [hsplit, hold, List.append_assoc, List.cons_append]
        exact ih _ hshorter hlonger (.handed hrest) rfl

/-- An update performs everything itself: it was entered, and is not what a dropped party goes on
with. -/
theorem performed_eq_log {policy : Policy}
    {ok : Machine.Condition (Recorded Updating Op Op.Ret Routine) Op Runtime.Choice}
    {cfg : Config (Recorded Updating Op Op.Ret Routine) Op Op.Ret Answer}
    (hreach : (updating policy).recorded.Reachable ok cfg) {p : Party} {ctx : SettleCtx}
    {f : FiberId} {target : Option ScopeNode} {change : PreparedChange}
    (horigin : cfg.shared.origin p = some (.update ctx f target change)) :
    cfg.shared.performed p = cfg.shared.log p := by
  rcases Machine.traced_of_reachable hreach p with ⟨-, -, hnone⟩ | ⟨-, older, hpast, hall⟩
  · cases horigin.symm.trans hnone
  · rw [horigin] at hpast
    cases hpast with
    | entered => exact hall
    | forked => exact hall
    | dropped _ _ _ hdropped =>
        rcases lifecycle_of_dropped hdropped with ⟨_, hlifecycle⟩
        cases hlifecycle

/-- No chain looks at its flag. -/
theorem loadReached_notMem {policy : Policy} {contract : PluginKey} {control id : ControlId}
    {hooks : List UpdateSnap} {change : PreparedChange} {chain : List Performed}
    {y : Prog ControlResult} (h : Arrives (runChain policy contract control hooks change) chain y)
    {reached : Bool} : (⟨.loadReached id, reached⟩ : Performed) ∉ chain := by
  intro hmem
  rcases h.found hmem with ⟨before, _, next, -, hbefore, -⟩
  have hstands := stands_of_arrives hbefore
  dsimp only at hstands
  cases hstands with
  | elsewhere hop => cases hop

/-- The flag that an update loads tells whether its own chain came to the tail. -/
theorem loads_of_reachable {policy : Policy}
    {ok : Machine.Condition (Recorded Updating Op Op.Ret Routine) Op Runtime.Choice}
    {cfg : Config (Recorded Updating Op Op.Ret Routine) Op Op.Ret Answer}
    (hreach : (updating policy).recorded.Reachable ok cfg) {p : Party} {ctx : SettleCtx}
    {f : FiberId} {target : Option ScopeNode} {change : PreparedChange}
    (horigin : cfg.shared.origin p = some (.update ctx f target change)) :
    Loads policy cfg.shared.history p target change (cfg.shared.log p) := by
  intro looked hooks id chain output reached after hlog hchain hothers
  have hperformed : performedBy p cfg.shared.history = _ :=
    (performed_eq_log hreach horigin).trans hlog
  have hload : (p, (⟨.loadReached id, reached⟩ : Performed)) ∈ cfg.shared.history := by
    rw [← mem_performedBy, hperformed]
    simp
  rcases List.append_of_mem hload with ⟨newer, earlier, hhistory⟩
  have hsuffix : earlier <:+ cfg.shared.history :=
    ⟨newer ++ [(p, ⟨.loadReached id, reached⟩)], by rw [hhistory]; simp⟩
  have hexplained := (told_of_reachable hreach).explained
  have hanswered : reached = tailReached id earlier :=
    (hexplained.suffix ⟨newer, hhistory.symm⟩).1
  -- the load comes once in all that the update performed
  have hbefore : performedBy p earlier =
      looked ++ ⟨.snapshot change.contract target, hooks⟩ :: ⟨.newReached, id⟩ :: chain := by
    have hall : (looked ++ ⟨.snapshot change.contract target, hooks⟩ :: ⟨.newReached, id⟩ :: chain) ++
        (⟨.loadReached id, reached⟩ : Performed) :: after =
          performedBy p earlier ++ ⟨.loadReached id, reached⟩ :: performedBy p newer := by
      rw [List.append_assoc, List.cons_append, List.cons_append, ← hperformed, hhistory]
      simp [performedBy]
    have hapart : ∀ {events : List Performed}, (∀ event ∈ events, Apart event.1) →
        (⟨.loadReached id, reached⟩ : Performed) ∉ events := fun h hevent => by
      cases h _ hevent
    refine ((List.append_cons_inj_of_notMem ?_ ?_).mp hall).1.symm
    · simp only [List.mem_append, List.mem_cons, not_or]
      refine ⟨hapart fun event hevent => hothers event (List.mem_append_left _ hevent), ?_, ?_,
        loadReached_notMem hchain⟩
      · exact fun h => by cases h
      · exact fun h => by cases h
    · exact hapart fun event hevent => hothers event (List.mem_append_right _ hevent)
  refine ⟨earlier, ⟨newer, hhistory.symm⟩, ?_⟩
  rw [hanswered, tailReached_eq_true]
  constructor
  · rintro ⟨q, hstored⟩
    rcases List.append_of_mem hstored with ⟨between, older, hsplit⟩
    have hnew : (p, (⟨.newReached, id⟩ : Performed)) ∈ earlier := by
      rw [← mem_performedBy, hbefore]
      simp
    refine (driven_of_reachable hreach).reaches hreach hsuffix (hexplained.suffix hsuffix) hnew
      hchain ?_ hsplit .stored
    intro event hevent hcontrol
    have hmem := mem_performedBy.mpr hevent
    rw [hbefore] at hmem
    simp only [List.mem_append, List.mem_cons] at hmem
    rcases hmem with hlooked | rfl | rfl | hmem
    · cases (hothers event (List.mem_append_left _ hlooked)).symm.trans hcontrol
    · cases hcontrol
    · cases hcontrol
    · exact hmem
  · refine fun hreaches => hreaches.stored fun event hevent => ⟨p, ?_⟩
    rw [← mem_performedBy, hbefore]
    simp [hevent]

/-! ## Updates decide before they commit -/

theorem lastCommitted_of_append {f : FiberId} {p : Party} {output : PreparedChange}
    {later earlier : History} (h : ∀ row ∈ later, replaces f row.2.1 = false) :
    lastCommitted f (later ++ (p, ⟨.commit f output, ()⟩) :: earlier) = some output := by
  induction later with
  | nil => exact if_pos rfl
  | cons row later ih =>
      have hlater := ih fun other hother => h other (List.mem_cons_of_mem _ hother)
      have hrow := h row List.mem_cons_self
      rcases row with ⟨q, op, r⟩
      cases op with
      | lifecycle op =>
          rw [List.cons_append, lastCommitted_lifecycle, hlater]
          refine if_neg fun hop => ?_
          subst hop
          exact absurd hrow (by simp [replaces])
      | commit g change =>
          have hg : ¬f = g := fun hg => absurd hrow (by simp [replaces, hg])
          exact (if_neg hg).trans hlater
      | _ => exact hlater

/-- What an update answered, it decided by the fold over the hooks it could claim, and what it
refused it left alone; a committed candidate stays the input until another one is committed. -/
theorem update_decides (policy : Policy)
    {cfg : Config (Recorded Updating Op Op.Ret Routine) Op Op.Ret Answer}
    (h : (updating policy).recorded.Reachable Machine.anyRun cfg) :
    (∀ {p f result}, cfg.pool p = some (.pure (.updated f result)) →
      ∃ ctx target change, cfg.shared.origin p = some (.update ctx f target change) ∧
        Decision policy cfg.shared.history p f target change (cfg.shared.log p) result) ∧
    (∀ {p x contract id hooks change}, cfg.pool p = some x →
      cfg.shared.origin p = some (.chain contract id hooks change) →
        ∀ event ∈ cfg.shared.log p, Passive event.1) ∧
    (∀ p, cfg.shared.log p <:+ cfg.shared.performed p) ∧
    Explained cfg.shared.history ∧
    ∀ {f p output later earlier},
      cfg.shared.history = later ++ (p, ⟨.commit f output, ()⟩) :: earlier →
        (∀ row ∈ later, replaces f row.2.1 = false) →
          cfg.shared.state.inputOf f = some output := by
  have htold := told_of_reachable h
  refine ⟨?_, ?_, Machine.log_suffix_performed h, htold.explained, ?_⟩
  · intro p f result hpool
    rcases Machine.follows_of_reachable h hpool with ⟨routine, horigin, hpath⟩ | ⟨-, hgone⟩
    · cases routine with
      | update ctx g target change =>
          rcases runs_bind hpath with ⟨answer, before, last, hlog, hupdate, hlast⟩
          have hend := runs_pure hlast
          cases hend.2
          refine ⟨ctx, target, change, horigin, ?_⟩
          have hloads := loads_of_reachable h horigin
          rw [hlog, hend.1, List.append_nil] at hloads ⊢
          exact decision_of_runs hloads hupdate
      | lifecycle | chain | onUpdate | remove =>
          rcases runs_bind hpath with ⟨_, _, _, -, -, hlast⟩
          cases (runs_pure hlast).2
    · cases hgone
  · intro p x contract id hooks change hpool horigin event hevent
    rcases Machine.follows_of_reachable h hpool with ⟨routine, horigin', hpath⟩ | ⟨hnone, -⟩
    · cases horigin.symm.trans horigin'
      have hchain : ((updating policy).body (.chain contract id hooks change)).Built
          (fun op => passive op = true) fun _ _ => False :=
        .bind passive_runChain fun _ => .pure _
      exact passive_of_passive
        (Program.All.events hpath (hchain.all fun hno => hno.elim) event hevent)
    · cases horigin.symm.trans hnone
  · intro f p output later earlier hhistory hlater
    rw [htold.input f, hhistory]
    exact lastCommitted_of_append hlater

/-! ## A run -/

/-- The mapper doubles; the callback around it adds one on the way in and one on the way out. -/
def doubling : Policy where
  mapper _ _ input := .returned (.ok (input * 2))
  around _ _ input := .calls (input + 1) fun downstream =>
    match downstream with
    | .ok output => .returned (.ok (output + 1))
    | .error failure => .returned (.error (.failure failure))

def globalHook (id : ListenerRegistrationId) (kind : UpdateKind) : UpdateHook :=
  { id := id, prepend := true, isGlobal := true, scope := none, once := false, kind := kind }

def stretch (p : Party) (n : Nat) (choice : Runtime.Choice := .no) :
    List (Label Routine Runtime.Choice) :=
  List.replicate n (.step p 99 choice)

/-- A Plugin is spawned, two hooks are added, and an update commits whose apply fails. -/
def failedApply : List (Label Routine Runtime.Choice) :=
  [.enter 1 (.lifecycle (.spawn 0 5 []))] ++ stretch 1 24 ++ stretch 1 1 (.apply .succeeded) ++
    stretch 1 27 ++
    [.enter 2 (.onUpdate 5 (globalHook 1 .mapper))] ++ stretch 2 1 ++
    [.enter 3 (.onUpdate 5 (globalHook 2 .around))] ++ stretch 3 1 ++
    [.enter 4 (.update {} 1 none { contract := 5, input := 3 })] ++ stretch 4 42 ++
    stretch 4 1 (.apply (.returned "boom")) ++ stretch 4 21

/-- The state after that run. -/
def failedApplied : Config (Recorded Updating Op Op.Ret Routine) Op Op.Ret Answer :=
  ((updating doubling).recorded.run (fun _ _ _ _ => true) failedApply
    (updating doubling).recorded.start).get (by decide +kernel)

/-- The answer of an update that is over. -/
def answerOf : Option (Prog Answer) → Option (FiberId × UpdateResult)
  | some (.pure (.updated f result)) => some (f, result)
  | _ => none

theorem pool_of_answerOf {x : Option (Prog Answer)} {f : FiberId} {result : UpdateResult}
    (h : answerOf x = some (f, result)) : x = some (.pure (.updated f result)) := by
  unfold answerOf at h
  split at h
  · cases h
    rfl
  · cases h

theorem update_decides_failedApply :
    ∃ ctx target change,
      failedApplied.shared.origin 4 = some (.update ctx 1 target change) ∧
        Decision doubling failedApplied.shared.history 4 1 target change
          (failedApplied.shared.log 4)
          (.error (.refused (.apply { kind := .returnedError, diagnostic := "boom" }))) ∧
        failedApplied.shared.state.inputOf 1 = some { contract := 5, input := 9 } := by
  have hreach : (updating doubling).recorded.Reachable Machine.anyRun failedApplied :=
    Machine.Reachable.of_run _ (fun _ _ _ _ _ => trivial) failedApply .start
      (Option.some_get _).symm
  have hpool : failedApplied.pool 4 = some (.pure (.updated 1
      (.error (.refused (.apply { kind := .returnedError, diagnostic := "boom" }))))) :=
    pool_of_answerOf (by decide +kernel)
  rcases (update_decides doubling hreach).1 hpool with ⟨ctx, target, change, horigin, hdecision⟩
  exact ⟨ctx, target, change, horigin, hdecision, by decide +kernel⟩

end Update
end CordisCore
