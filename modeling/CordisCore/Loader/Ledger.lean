import CordisCore.Interleaving.Past
import CordisCore.Loader.Outcomes

/-!
# Ledger — what the shared state says about what was performed

The buffer and the guard of a party are replays of its own events, and the
counters are ahead of every realm that was ever handed out, to whomever.
-/

namespace CordisCore
namespace Loader

open Interleaving
open Axes (Contracts Context RealmMembership ServiceRealm)
open CordisCore.Runtime (FiberId)

variable {C : Contracts}

/-! ## Replays -/

def bufferStep : Option (List EntryOutcome) → Event (Op C) Op.Ret → Option (List EntryOutcome)
  | _, ⟨.withCapacity, _⟩ => some []
  | buffer, ⟨.push outcome, _⟩ => buffer.map (· ++ [outcome])
  | _, ⟨.finish, _⟩ => none
  | buffer, _ => buffer

/-- The `ResultHandoff` buffer after these events. -/
def buffer (events : Events C) : Option (List EntryOutcome) :=
  events.foldl bufferStep none

def armedStep : Option FiberId → Event (Op C) Op.Ret → Option FiberId
  | _, ⟨.spawnStart _ _, .created fiber⟩ => some fiber
  | _, ⟨.spawnEnd _, _⟩ => none
  | armed, _ => armed

/-- The fiber of the armed guard after these events. -/
def armed (events : Events C) : Option FiberId :=
  events.foldl armedStep none

theorem buffer_snoc (events : Events C) (event : Event (Op C) Op.Ret) :
    buffer (events ++ [event]) = bufferStep (buffer events) event := by
  simp [buffer, List.foldl_append]

theorem armed_snoc (events : Events C) (event : Event (Op C) Op.Ret) :
    armed (events ++ [event]) = armedStep (armed events) event := by
  simp [armed, List.foldl_append]

/-! ## What one operation changes -/

/-- One operation of `p`: its own buffer and guard are replayed, nobody else's move, and a realm
that is handed out is counted first. -/
structure Steps (p : Party) (s s' : Shared) (event : Event (Op C) Op.Ret) : Prop where
  handoffs : ∀ q, s'.handoffs q =
    if q = p then bufferStep (s.handoffs p) event else s.handoffs q
  guards : ∀ q, s'.guards q = if q = p then armedStep (s.guards p) event else s.guards q
  finished : ∀ entries, event = ⟨.finish, entries⟩ → entries = (s.handoffs p).getD []
  admitted : Admits event.1 event.2
  counted : ∀ realm, realmOf event = some realm →
    (s.sn realm.membership).realm < realm.key.key ∧
      realm.key.key ≤ (s'.sn realm.membership).realm
  grows : ∀ membership, (s.sn membership).realm ≤ (s'.sn membership).realm

theorem ite_self_eq {α : Type} (f : Party → α) (p q : Party) :
    f q = if q = p then f p else f q := by
  split
  · rename_i h
    rw [h]
  · rfl

/-- Operations that leave buffers, guards and counters alone. -/
theorem Steps.of_same {p : Party} {s s' : Shared} {event : Event (Op C) Op.Ret}
    (hhandoffs : s'.handoffs = s.handoffs) (hguards : s'.guards = s.guards) (hsn : s'.sn = s.sn)
    (hbuffer : ∀ b, bufferStep b event = b) (harmed : ∀ g, armedStep g event = g)
    (hfinish : ∀ entries, event ≠ ⟨.finish, entries⟩) (hadmits : Admits event.1 event.2)
    (hrealm : realmOf event = none) : Steps p s s' event where
  handoffs q := by
    rw [hhandoffs, hbuffer]
    exact ite_self_eq s.handoffs p q
  guards q := by
    rw [hguards, harmed]
    exact ite_self_eq s.guards p q
  finished entries h := absurd h (hfinish entries)
  admitted := hadmits
  counted realm h := by
    rw [hrealm] at h
    cases h
  grows membership := Nat.le_of_eq (by rw [hsn])

theorem guards_fireGuard (s : Shared) (p q : Party) :
    (s.fireGuard p).guards q = if q = p then none else s.guards q := by
  unfold Shared.fireGuard
  split
  · rfl
  · rename_i hnone
    rw [← hnone]
    exact ite_self_eq s.guards p q

theorem fireGuard_others (s : Shared) (p : Party) :
    (s.fireGuard p).handoffs = s.handoffs ∧ (s.fireGuard p).sn = s.sn := by
  unfold Shared.fireGuard
  split <;> exact ⟨rfl, rfl⟩

theorem steps_of_exec {p : Party} {choice : Choice} {op : Op C} {s s' : Shared} {r : op.Ret}
    (h : exec p choice op s = some (s', r)) : Steps p s s' ⟨op, r⟩ := by
  cases op with
  | withCapacity =>
      cases h
      refine ⟨fun q => rfl, fun q => ite_self_eq s.guards p q, by rintro _ ⟨⟩, trivial, by rintro _ ⟨⟩,
        fun _ => Nat.le_refl _⟩
  | newServiceRealm membership =>
      simp only [exec] at h
      split at h
      · rename_i sn key hnext
        simp only [Axes.SnCounters.nextRealmKey, Option.ite_none_right_eq_some, Option.some.injEq,
          Prod.mk.injEq] at hnext
        -- the key is the next number of its membership
        rcases hnext with ⟨-, rfl, rfl⟩
        cases h
        refine ⟨fun q => ite_self_eq s.handoffs p q, fun q => ite_self_eq s.guards p q, by rintro _ ⟨⟩,
          ?_, ?_, ?_⟩
        · rintro realm heq
          rw [← Option.some.inj heq]
        · rintro realm heq
          obtain rfl := Option.some.inj heq
          simp
        · intro m
          by_cases hm : m = membership
          · simp [hm]
          · simp [hm]
      · cases h
        exact .of_same rfl rfl rfl (fun _ => rfl) (fun _ => rfl) (by rintro _ ⟨⟩) (by rintro _ ⟨⟩) rfl
  | resolve request =>
      cases h
      exact .of_same rfl rfl rfl (fun _ => rfl) (fun _ => rfl) (by rintro _ ⟨⟩) trivial rfl
  | spawnStart placed prepared =>
      simp only [exec] at h
      split at h <;> cases h
      · exact .of_same rfl rfl rfl (fun _ => rfl) (fun _ => rfl) (by rintro _ ⟨⟩) trivial rfl
      · exact .of_same rfl rfl rfl (fun _ => rfl) (fun _ => rfl) (by rintro _ ⟨⟩) trivial rfl
      · exact ⟨fun q => ite_self_eq s.handoffs p q, fun q => rfl, by rintro _ ⟨⟩, trivial, by rintro _ ⟨⟩,
          fun _ => Nat.le_refl _⟩
  | spawnEnd fiber =>
      simp only [exec] at h
      split at h <;> cases h
      · exact ⟨fun q => ite_self_eq s.handoffs p q, fun q => rfl, by rintro _ ⟨⟩, trivial, by rintro _ ⟨⟩,
          fun _ => Nat.le_refl _⟩
      · exact ⟨fun q => ite_self_eq s.handoffs p q, fun q => rfl, by rintro _ ⟨⟩, trivial, by rintro _ ⟨⟩,
          fun _ => Nat.le_refl _⟩
      -- an interrupted creation is left to its guard, which disposes of its fiber
      · have hothers := fireGuard_others s p
        refine ⟨fun q => ?_, guards_fireGuard s p, by rintro _ ⟨⟩, trivial, by rintro _ ⟨⟩, fun m => ?_⟩
        · rw [hothers.1]
          exact ite_self_eq s.handoffs p q
        · exact Nat.le_of_eq (by rw [hothers.2])
  | push outcome =>
      cases h
      exact ⟨fun q => rfl, fun q => ite_self_eq s.guards p q, by rintro _ ⟨⟩, trivial, by rintro _ ⟨⟩,
        fun _ => Nat.le_refl _⟩
  | finish =>
      cases h
      refine ⟨fun q => rfl, fun q => ite_self_eq s.guards p q, ?_, trivial, by rintro _ ⟨⟩,
        fun _ => Nat.le_refl _⟩
      intro entries heq
      cases heq
      rfl
  | unwind => cases h
  | disposeStart fiber =>
      cases h
      exact .of_same rfl rfl rfl (fun _ => rfl) (fun _ => rfl) (by rintro _ ⟨⟩) trivial rfl
  | disposeEnd fiber =>
      cases h
      exact .of_same rfl rfl rfl (fun _ => rfl) (fun _ => rfl) (by rintro _ ⟨⟩) trivial rfl

/-! ## The ledger -/

abbrev Record (C : Contracts) := Recorded Shared (Op C) Op.Ret (Routine C)

/-- The realms handed out so far, to whomever, the latest first. -/
def granted (s : Record C) : List (Party × ServiceRealm) :=
  s.collected realmOf

structure Ledger (s : Record C) : Prop where
  handoffs : ∀ p, s.state.handoffs p = buffer (s.log p)
  guards : ∀ p, s.state.guards p = armed (s.log p)
  finished : ∀ p before entries after, s.log p = before ++ ⟨.finish, entries⟩ :: after →
    entries = (buffer before).getD []
  admitted : ∀ p, ∀ event ∈ s.log p, Admits event.1 event.2
  unique : ((granted s).map Prod.snd).Nodup
  counted : ∀ row ∈ granted s, row.2.key.key ≤ (s.state.sn row.2.membership).realm

namespace Ledger

theorem init : Ledger ({ state := {} } : Record C) where
  handoffs _ := rfl
  guards _ := rfl
  finished p before entries after h := by
    cases before <;> cases h
  admitted := nofun
  unique := .nil
  counted := nofun

variable {s : Record C}

theorem record (h : Ledger s) {p : Party} {state : Shared} {event : Event (Op C) Op.Ret}
    (hstep : Steps p s.state state event) : Ledger ((s.move state).record p event) := by
  have hlog : ∀ q, ((s.move state).record p event).log q =
      if q = p then s.log p ++ [event] else s.log q := fun _ => rfl
  have hgranted : granted ((s.move state).record p event) =
      ((realmOf event).map fun realm => (p, realm)).toList ++ granted s :=
    Recorded.collected_record realmOf (s.move state) p event
  constructor
  case handoffs =>
    intro q
    rw [hlog]
    refine (hstep.handoffs q).trans ?_
    split
    · rw [h.handoffs, buffer_snoc]
    · exact h.handoffs q
  case guards =>
    intro q
    rw [hlog]
    refine (hstep.guards q).trans ?_
    split
    · rw [h.guards, armed_snoc]
    · exact h.guards q
  case finished =>
    intro q before entries after hsplit
    rw [hlog] at hsplit
    split at hsplit
    -- the finish is the event just recorded, or an earlier one
    · rcases List.eq_nil_or_concat after with rfl | ⟨after', last, rfl⟩
      · have hends := List.append_inj' hsplit rfl
        rw [← hends.1, ← h.handoffs]
        exact hstep.finished entries (by simpa using hends.2)
      · have hregroup : s.log p ++ [event] =
            (before ++ ⟨.finish, entries⟩ :: after') ++ [last] := by
          rw [hsplit]
          simp
        exact h.finished p before entries after' (List.append_inj' hregroup rfl).1
    · exact h.finished q before entries after hsplit
  case admitted =>
    intro q other hother
    rw [hlog] at hother
    split at hother
    · rcases List.mem_append.mp hother with hold | hnew
      · exact h.admitted p other hold
      · rw [List.mem_singleton.mp hnew]
        exact hstep.admitted
    · exact h.admitted q other hother
  case unique =>
    rw [hgranted]
    cases hrealm : realmOf event with
    | none => exact h.unique
    | some realm =>
        -- a fresh realm lies beyond the counter that bounds all the earlier ones
        refine List.nodup_cons.mpr ⟨fun hmem => ?_, h.unique⟩
        rcases List.mem_map.mp hmem with ⟨row, hrow, heq⟩
        have hold := h.counted row hrow
        have hnew := (hstep.counted realm hrealm).1
        simp only at heq
        rw [heq] at hold
        exact Nat.lt_irrefl _ (Nat.lt_of_lt_of_le hnew hold)
  case counted =>
    intro row hrow
    rw [hgranted] at hrow
    rcases List.mem_append.mp hrow with hnew | hold
    · cases hrealm : realmOf event with
      | none =>
          rw [hrealm] at hnew
          cases hnew
      | some realm =>
          rw [hrealm] at hnew
          obtain rfl : row = (p, realm) := by simpa using hnew
          exact (hstep.counted realm hrealm).2
    · exact Nat.le_trans (h.counted row hold) (hstep.grows _)

/-- A party begins a routine and owns nothing. -/
theorem begin (h : Ledger s) {p : Party} {state : Shared} {routine : Option (Routine C)}
    (hhandoffs : ∀ q, state.handoffs q = if q = p then none else s.state.handoffs q)
    (hguards : ∀ q, state.guards q = if q = p then none else s.state.guards q)
    (hsn : state.sn = s.state.sn) : Ledger ((s.move state).begin p routine) := by
  have hlog : ∀ q, ((s.move state).begin p routine).log q =
      if q = p then [] else s.log q := fun _ => rfl
  constructor
  case handoffs =>
    intro q
    rw [hlog]
    refine (hhandoffs q).trans ?_
    split
    · rfl
    · exact h.handoffs q
  case guards =>
    intro q
    rw [hlog]
    refine (hguards q).trans ?_
    split
    · rfl
    · exact h.guards q
  case finished =>
    intro q before entries after hsplit
    rw [hlog] at hsplit
    split at hsplit
    · cases before <;> cases hsplit
    · exact h.finished q before entries after hsplit
  case admitted =>
    intro q other hother
    rw [hlog] at hother
    split at hother
    · cases hother
    · exact h.admitted q other hother
  case unique => exact h.unique
  case counted =>
    intro row hrow
    have hold := h.counted row hrow
    rw [← hsn] at hold
    exact hold

theorem of_reachable {ok : Machine.Condition (Record C) (Op C) Choice}
    {cfg : Config (Record C) (Op C) Op.Ret Answer} (h : (machine C).recorded.Reachable ok cfg) :
    Ledger cfg.shared := by
  refine Machine.Reachable.invariant (machine C).recorded init ?_ ?_ ?_ h
  · intro p q choice op s s' r hs hexec
    simp only [Machine.recorded, machine, Option.map_eq_some_iff, Prod.mk.injEq] at hexec
    rcases hexec with ⟨⟨state, answer⟩, hexec, rfl, rfl⟩
    exact hs.record (steps_of_exec hexec)
  · intro p routine s s' hs henter
    simp only [Machine.recorded, Option.map_eq_some_iff] at henter
    rcases henter with ⟨state, henter, rfl⟩
    obtain rfl : state = (s.state.setGuard p none).setHandoff p none := by
      cases routine <;> simp [machine] at henter <;> exact henter.symm
    exact hs.begin (fun _ => rfl) (fun _ => rfl) rfl
  · intro p s s' next hs hdrop
    simp only [Machine.recorded, machine, dropped, Option.map_map, Option.map_eq_some_iff,
      Function.comp_apply, Prod.mk.injEq] at hdrop
    rcases hdrop with ⟨entries, -, rfl, rfl⟩
    have hothers := fireGuard_others s.state p
    refine hs.begin (fun q => ?_) (guards_fireGuard s.state p) hothers.2
    simp only [Shared.setHandoff, hothers.1]

end Ledger

/-! ## Realms of one party -/

theorem Ledger.nodup_performed {s : Record C} (h : Ledger s) (p : Party) :
    (realmsOf (s.performed p)).Nodup :=
  Recorded.nodup_filterMap_performed h.unique p

/-- A realm is handed out to one party only. -/
theorem Ledger.party_unique {s : Record C} (h : Ledger s) {p q : Party} {realm : ServiceRealm}
    (hp : realm ∈ realmsOf (s.performed p)) (hq : realm ∈ realmsOf (s.performed q)) : p = q :=
  Recorded.party_unique h.unique hp hq

/-! ## The rows that come back -/

theorem buffer_allocations {membership : RealmMembership} {allocs : Events C}
    (h : Allocations membership allocs) (b : Option (List EntryOutcome)) :
    allocs.foldl bufferStep b = b := by
  induction allocs generalizing b with
  | nil => rfl
  | cons event allocs ih =>
      rcases h event (List.mem_cons_self ..) with ⟨answer, rfl⟩
      exact ih (fun other hother => h other (List.mem_cons_of_mem _ hother)) b

/-- What happens for an entry before its push leaves the buffer alone. -/
theorem Classified.buffer_kept {plan : LoadPlan} {membership : RealmMembership} {ctx : Context C}
    {node : PlanNode} {events : Events C} {rows : List Placement} {outcome : EntryOutcome}
    (h : Classified plan membership ctx node events rows outcome)
    (b : Option (List EntryOutcome)) : events.foldl bufferStep b = b := by
  cases h with
  | pruned | group | disabled | resolverFailed | unresolved => rfl
  | refused _ _ _ _ _ hallocs _ | spawnFailed _ _ _ _ _ hallocs _
  | spawned _ _ _ _ _ hallocs _ =>
      rw [List.foldl_append, List.foldl_cons]
      exact congrArg (fun kept => List.foldl bufferStep kept _) (buffer_allocations hallocs _)

/-- The buffer holds one outcome for every account, in order. -/
theorem buffer_accounts {plan : LoadPlan} {membership : RealmMembership} {ctx : Context C}
    {accounts : List (Account C)} (h : ∀ account ∈ accounts, Classified plan membership ctx
      account.node account.performed account.rows account.outcome) (done : List EntryOutcome) :
    (accounts.flatMap Account.events).foldl bufferStep (some done) =
      some (done ++ accounts.map Account.outcome) := by
  induction accounts generalizing done with
  | nil => simp
  | cons account accounts ih =>
      have hround : account.events.foldl bufferStep (some done) =
          some (done ++ [account.outcome]) := by
        rw [Account.events, List.foldl_append,
          (h account (List.mem_cons_self ..)).buffer_kept]
        rfl
      rw [List.flatMap_cons, List.foldl_append, hround,
        ih (fun other hother => h other (List.mem_cons_of_mem _ hother))]
      simp

/-! ## Every entry once -/

/-- A complete load: one account per entry in preorder, and the rows that came back. -/
structure Complete (plan : LoadPlan) (membership : RealmMembership) (ctx : Context C)
    (log : Events C) (entries : List EntryOutcome) (order : List Nat)
    (accounts : List (Account C)) : Prop where
  preorder : Forest.Preorder (descendants plan.nodes) (childrenOf plan.nodes none) order
  every : order.Perm (List.range plan.nodes.length)
  nodes : accounts.map (fun account => some account.node) = order.map (plan.nodes[·]?)
  rows : entries = accounts.map Account.outcome
  log_eq : log = ⟨.withCapacity, ()⟩ :: accounts.flatMap Account.events ++ [⟨.finish, entries⟩]
  classified : ∀ account ∈ accounts, Classified plan membership ctx account.node
    account.performed account.rows account.outcome
  meet : (accounts.flatMap Account.rows).Pairwise Rendezvous

/-- A load ends, unless a panic leaves it, and then every entry is classified once; two of its
rows meet exactly under one shared label, and none of its realms is anybody else's. -/
theorem load_classifies {plan : LoadPlan} {membership : RealmMembership} {ctx : Context C}
    {cfg : Config (Record C) (Op C) Op.Ret Answer} {p : Party} {entries : List EntryOutcome}
    (h : (machine C).recorded.Reachable Machine.anyRun cfg)
    (horigin : cfg.shared.origin p = some (.load plan membership ctx))
    (hdone : cfg.pool p = some (.pure (.loaded entries))) :
    Program.Along Admits Guarded (load plan membership ctx)
        (fun answer _ => answer = .unwound ∨ ∃ entries, answer = .loaded entries) [] ∧
      ∃ order accounts, Complete plan membership ctx (cfg.shared.log p) entries order accounts ∧
        ∀ row ∈ accounts.flatMap Account.rows, row.2 ∈ realmsOf (cfg.shared.performed p) ∧
          ∀ q, q ≠ p → row.2 ∉ realmsOf (cfg.shared.performed q) := by
  have hledger := Ledger.of_reachable h
  rcases along_load plan membership ctx with ⟨order, -, hpreorder, hperm, halong⟩
  refine ⟨halong.mono ?_, ?_⟩
  · rintro answer events (hunwound | ⟨_, _, _, entries, hloaded, -⟩)
    · exact .inl hunwound
    · exact .inr ⟨entries, hloaded⟩
  have hpath : (load plan membership ctx).Runs (cfg.shared.log p) (.loaded entries) := by
    rcases Machine.follows_of_reachable h hdone with ⟨routine, hroutine, hruns⟩ | ⟨hnone, -⟩
    · rw [horigin, Option.some.injEq] at hroutine
      subst hroutine
      exact hruns
    · rw [horigin] at hnone
      cases hnone
  have hend := halong.arrives hpath (hledger.admitted p)
  rw [List.nil_append] at hend
  rcases hend with hunwound | ⟨accounts, locals, events, returned, hreturned, htold, hnodes, hlog⟩
  · cases hunwound
  obtain rfl : entries = returned := by simpa using hreturned
  rw [List.nil_append] at htold
  have hbuffer : buffer events = some (accounts.map Account.outcome) := by
    rw [htold.log]
    exact buffer_accounts htold.classified []
  have hentries : entries = accounts.map Account.outcome := by
    have hfinished := hledger.finished p events entries [] hlog
    rw [hbuffer] at hfinished
    exact hfinished
  have hrealms : realmsOf (cfg.shared.log p) = realmsOf events := by
    rw [hlog, realmsOf_append]
    exact List.append_nil _
  -- the realms of this load are among those its party ever got
  have hsuffix : realmsOf (cfg.shared.log p) <:+ realmsOf (cfg.shared.performed p) := by
    rcases Machine.log_suffix_performed h p with ⟨older, holder⟩
    exact ⟨realmsOf older, by rw [← holder, realmsOf_append]⟩
  -- no realm was handed out twice, so rows meet under one label only
  have hnodup : (realmsOf events).Nodup :=
    hrealms ▸ (hledger.nodup_performed p).sublist hsuffix.sublist
  have hplaced := htold.placing.placed hnodup
  refine ⟨order, accounts, ⟨hpreorder, hperm, hnodes, hentries, ?_, htold.classified,
    hplaced.meet⟩, ?_⟩
  · rw [hlog, htold.log]
  · intro row hrow
    have hown : row.2 ∈ realmsOf (cfg.shared.performed p) :=
      hsuffix.subset (hrealms ▸ hplaced.known row hrow)
    exact ⟨hown, fun q hq hmem => hq (hledger.party_unique hmem hown)⟩

/-! ### A group with a placed plugin, a disabled subtree and an unknown key -/

/-- Five entries: a group over a plugin, a disabled plugin over another, and one more. -/
def sample : LoadPlan where
  lineage := 0
  nodes :=
    [{ id := ⟨0, 0⟩, parent := none, entry := .group },
      { id := ⟨0, 1⟩, parent := none
        entry := .plugin { key := some "off", config := 0, disabled := true } },
      { id := ⟨0, 2⟩, parent := some ⟨0, 1⟩, entry := .plugin { name := some "below", config := 0 } },
      { id := ⟨0, 3⟩, parent := some ⟨0, 0⟩
        entry := .plugin
          { key := some "cache", config := 0
            isolate := [{ service := "cache", policy := .shared "tenant" }] } },
      { id := ⟨0, 4⟩, parent := none, entry := .plugin { key := some "unknown", config := 0 } }]
  unique := by decide
  complete := by decide

/-- Party 0 loads the sample: one creation succeeds, one key is unknown. -/
def sampleRun : List (Label (Routine Axes.numbered) Choice) :=
  [.enter 0 (.load sample 7 Context.root), .step 0 1 {}, .step 0 1 {},
    .step 0 1 { resolution := .returned (some 3) }, .step 0 1 {},
    .step 0 1 { start := .created 0 }, .step 0 1 {}, .step 0 1 {}, .step 0 1 {}, .step 0 1 {},
    .step 0 1 { resolution := .returned none }, .step 0 1 {}, .step 0 1 {}]

theorem sampleRun_enabled : ((machine Axes.numbered).recorded.run (fun _ _ _ _ => true) sampleRun
    (machine Axes.numbered).recorded.start).isSome = true := by
  decide +kernel

def sampled : Config (Record Axes.numbered) (Op Axes.numbered) Op.Ret Answer :=
  ((machine Axes.numbered).recorded.run (fun _ _ _ _ => true) sampleRun
    (machine Axes.numbered).recorded.start).get sampleRun_enabled

def sampleRows : List EntryOutcome :=
  [.group ⟨0, 0⟩, .spawned ⟨0, 3⟩ "cache" 0, .disabled ⟨0, 1⟩, .pruned ⟨0, 2⟩ ⟨0, 1⟩,
    .failed ⟨0, 4⟩ "unknown" (.unresolvedKey "unknown")]

def answerOf : Option (Prog C Answer) → Option Answer
  | some (.pure answer) => some answer
  | _ => none

theorem pool_of_answerOf {x : Option (Prog C Answer)} {answer : Answer}
    (h : answerOf x = some answer) : x = some (.pure answer) := by
  unfold answerOf at h
  split at h
  · cases h
    rfl
  · cases h

theorem load_classifies_sample : ∃ order accounts,
    Complete sample 7 Context.root (sampled.shared.log 0) sampleRows order accounts := by
  have hreach : (machine Axes.numbered).recorded.Reachable Machine.anyRun sampled :=
    Machine.Reachable.of_run _ (fun _ _ _ _ _ => trivial) sampleRun .start
      (Option.some_get _).symm
  have hpool : sampled.pool 0 = some (.pure (.loaded sampleRows)) :=
    pool_of_answerOf (by decide +kernel)
  rcases (load_classifies hreach rfl hpool).2 with ⟨order, accounts, hcomplete, -⟩
  exact ⟨order, accounts, hcomplete⟩

end Loader
end CordisCore
