import CordisCore.Loader.Rollback

/-!
# Abandonment — who disposes of what a load obtained

A rollback is what a dropped load left behind: it takes over the buffer and
nothing but the buffer, and no other party ever holds these fibers.  A load that
returned leaves no rollback.
-/

namespace CordisCore
namespace Loader

open Interleaving
open Axes (Contracts Context RealmMembership)
open CordisCore.Runtime (FiberId)

variable {C : Contracts}

/-! ## Fibers are fresh -/

/-- Every committed creation so far is counted, and no fiber was created twice. -/
structure Fresh (s : Record C) : Prop where
  below : ∀ row ∈ s.collected createdOf, row.2 < s.state.fibers
  unique : ((s.collected createdOf).map Prod.snd).Nodup

theorem fibers_fireGuard (s : Shared) (p : Party) : (s.fireGuard p).fibers = s.fibers := by
  unfold Shared.fireGuard
  split <;> rfl

theorem fibers_of_exec {p : Party} {choice : Choice} {op : Op C} {s s' : Shared} {r : op.Ret}
    (h : exec p choice op s = some (s', r)) :
    s.fibers ≤ s'.fibers ∧
      ∀ fiber, createdOf ⟨op, r⟩ = some fiber → fiber = s.fibers ∧ s.fibers < s'.fibers := by
  cases op with
  | spawnStart placed prepared =>
      simp only [exec] at h
      split at h
      · cases h
        exact ⟨Nat.le_refl _, by rintro _ ⟨⟩⟩
      · cases h
        exact ⟨Nat.le_refl _, by rintro _ ⟨⟩⟩
      · cases h
        refine ⟨Nat.le_succ _, fun fiber heq => ⟨?_, Nat.lt_succ_self _⟩⟩
        exact (Option.some.inj heq).symm
  | newServiceRealm membership =>
      simp only [exec] at h
      split at h <;> cases h <;> exact ⟨Nat.le_refl _, by rintro _ ⟨⟩⟩
  | spawnEnd fiber =>
      simp only [exec] at h
      split at h
      · cases h
        exact ⟨Nat.le_refl _, by rintro _ ⟨⟩⟩
      · cases h
        exact ⟨Nat.le_refl _, by rintro _ ⟨⟩⟩
      · cases h
        exact ⟨Nat.le_of_eq (fibers_fireGuard s p).symm, by rintro _ ⟨⟩⟩
  | unwind => cases h
  | withCapacity | resolve | push | finish | disposeStart | disposeEnd =>
      cases h
      exact ⟨Nat.le_refl _, by rintro _ ⟨⟩⟩

namespace Fresh

theorem move {s : Record C} (h : Fresh s) {state : Shared} (hfibers : s.state.fibers ≤ state.fibers) :
    Fresh (s.move state) where
  below row hrow := Nat.lt_of_lt_of_le (h.below row hrow) hfibers
  unique := h.unique

theorem of_reachable {ok : Machine.Condition (Record C) (Op C) Choice}
    {cfg : Config (Record C) (Op C) Op.Ret Answer} (h : (machine C).recorded.Reachable ok cfg) :
    Fresh cfg.shared := by
  refine Machine.recorded_invariant (I := Fresh) ⟨nofun, .nil⟩ ?_ ?_ ?_ ?_ h
  · intro s p q choice op s' r hs hexec
    have hcount := fibers_of_exec hexec
    have hcollected := Recorded.collected_record createdOf (s.move s') p ⟨op, r⟩
    cases hcreated : createdOf ⟨op, r⟩ with
    | none =>
        rw [hcreated] at hcollected
        refine ⟨fun row hrow => ?_, ?_⟩
        · rw [hcollected] at hrow
          exact Nat.lt_of_lt_of_le (hs.below row hrow) hcount.1
        · rw [hcollected]
          exact hs.unique
    | some fiber =>
        have hnew := hcount.2 fiber hcreated
        rw [hcreated] at hcollected
        refine ⟨fun row hrow => ?_, ?_⟩
        · rw [hcollected] at hrow
          rcases List.mem_cons.mp hrow with rfl | hold
          · exact hnew.1 ▸ hnew.2
          · exact Nat.lt_of_lt_of_le (hs.below row hold) hcount.1
        · rw [hcollected]
          refine List.nodup_cons.mpr ⟨fun hmem => ?_, hs.unique⟩
          rcases List.mem_map.mp hmem with ⟨row, hrow, heq⟩
          have hbelow := hs.below row hrow
          simp only at heq
          rw [heq, hnew.1] at hbelow
          exact Nat.lt_irrefl _ hbelow
  · exact fun hs => ⟨hs.below, hs.unique⟩
  · intro s p routine s' hs henter
    refine hs.move (Nat.le_of_eq ?_)
    cases routine <;> simp [machine] at henter <;> rw [← henter] <;> rfl
  · intro s p s' next hs hdrop
    simp only [machine, dropped, Option.map_eq_some_iff, Prod.mk.injEq] at hdrop
    rcases hdrop with ⟨entries, -, rfl, -⟩
    exact hs.move (Nat.le_of_eq (fibers_fireGuard s.state p).symm)

end Fresh

/-! ## Nobody takes a fiber from its guard back -/

theorem cleaned_stable (fiber : FiberId) :
    (machine C).Stable fun s => fiber ∈ s.cleaned := by
  have hfire : ∀ {s : Shared} {p : Party}, fiber ∈ s.cleaned → fiber ∈ (s.fireGuard p).cleaned := by
    intro s p h
    unfold Shared.fireGuard
    split
    · exact List.mem_cons_of_mem _ h
    · exact h
  constructor
  case exec =>
    intro p q choice op s s' r hs hexec
    change exec p choice op s = some (s', r) at hexec
    cases op with
    | newServiceRealm membership =>
        simp only [exec] at hexec
        split at hexec <;> cases hexec <;> exact hs
    | spawnStart placed prepared =>
        simp only [exec] at hexec
        split at hexec <;> cases hexec <;> exact hs
    | spawnEnd fiber =>
        simp only [exec] at hexec
        split at hexec
        · cases hexec
          exact hs
        · cases hexec
          exact hs
        · cases hexec
          exact hfire hs
    | unwind => cases hexec
    | withCapacity | resolve | push | finish | disposeStart | disposeEnd =>
        cases hexec
        exact hs
  case enter =>
    intro p routine s s' hs henter
    cases routine <;> simp [machine] at henter <;> rw [← henter] <;> exact hs
  case dropped =>
    intro p s s' next hs hdrop
    simp only [machine, dropped, Option.map_eq_some_iff, Prod.mk.injEq] at hdrop
    rcases hdrop with ⟨entries, -, rfl, -⟩
    exact hfire hs

/-! ## Routines that own nothing -/

/-- What a party does that is not a load. -/
def Bare : Op C → Prop
  | .newServiceRealm _ => True
  | .disposeStart _ => True
  | .disposeEnd _ => True
  | _ => False

theorem bare_rollbackFrom (entries : List EntryOutcome) :
    (rollbackFrom entries : Prog C Answer).All Bare := by
  induction entries with
  | nil => trivial
  | cons entry entries ih =>
      cases entry with
      | spawned id key handle =>
          have hend : (rollbackFrom entries : Prog C Answer).All Bare := ih
          exact ⟨trivial, fun _ => ⟨trivial, fun _ => hend⟩⟩
      | group | disabled | pruned | failed => exact ih

theorem bare_body {routine : Routine C}
    (h : ∀ plan membership ctx, routine ≠ .load plan membership ctx) :
    ((machine C).body routine).All Bare := by
  cases routine with
  | load plan membership ctx => exact absurd rfl (h plan membership ctx)
  | rollback entries => exact bare_rollbackFrom entries.reverse
  | discard entries => trivial
  | newServiceRealm membership => exact ⟨trivial, fun _ => trivial⟩

theorem buffer_bare {events : Events C} (h : ∀ event ∈ events, Bare event.1) :
    buffer events = none := by
  unfold buffer
  induction events with
  | nil => rfl
  | cons event events ih =>
      have hbare := h event (List.mem_cons_self ..)
      have hkept : bufferStep none event = none := by
        rcases event with ⟨op, r⟩
        cases op <;> first | rfl | cases hbare
      rw [List.foldl_cons, hkept]
      exact ih fun other hother => h other (List.mem_cons_of_mem _ hother)

/-! ## Where a load stands -/

/-- Whatever a party waits for can come. -/
def waitAnswer : (op : Op C) → awaits op = true → op.Ret
  | .spawnEnd _, _ => .delivered
  | .unwind, _ => ()
  | .disposeEnd _, _ => true

section Standing

variable {cfg : Config (Record C) (Op C) Op.Ret Answer} {p : Party}

/-- A drop always leaves a routine, so a party that started is on the path of one. -/
theorem origin_of_pool (h : (machine C).recorded.Reachable Machine.anyRun cfg) {x : Prog C Answer}
    (hpool : cfg.pool p = some x) : ∃ routine, cfg.shared.origin p = some routine ∧
      ((machine C).body routine).Arrives (cfg.shared.log p) x := by
  rcases Machine.follows_of_reachable h hpool with hroutine | ⟨hnowhere, -⟩
  · exact hroutine
  rcases Machine.traced_of_reachable h p with ⟨hnone, -⟩ | ⟨-, older, hpast, -⟩
  · rw [hpool] at hnone
    cases hnone
  · rw [hnowhere] at hpast
    cases hpast with
    | dropped _ _ _ hdropped =>
        simp [machine, dropped] at hdropped

/-- A party that performs something else than the others do is a load. -/
theorem load_of_not_bare (h : (machine C).recorded.Reachable Machine.anyRun cfg) {op : Op C}
    {next : op.Ret → Prog C Answer} (hpool : cfg.pool p = some (.act op next)) (r : op.Ret)
    (hnot : ¬ ((∀ event ∈ cfg.shared.log p, Bare event.1) ∧ Bare op)) :
    ∃ plan membership ctx, cfg.shared.origin p = some (.load plan membership ctx) ∧
      (load plan membership ctx).Arrives (cfg.shared.log p) (.act op next) := by
  rcases origin_of_pool h hpool with ⟨routine, horigin, harrives⟩
  by_cases hload : ∃ plan membership ctx, routine = .load plan membership ctx
  · rcases hload with ⟨plan, membership, ctx, rfl⟩
    exact ⟨plan, membership, ctx, horigin, harrives⟩
  · have hbare := bare_body fun plan membership ctx heq => hload ⟨plan, membership, ctx, heq⟩
    have hall := (hbare.events (harrives.step r))
    refine absurd ⟨fun event hevent => hall event ?_, hall ⟨op, r⟩ ?_⟩ hnot
    · exact List.mem_append_left _ hevent
    · exact List.mem_append_right _ (List.mem_singleton_self _)

theorem settled_of_load (h : (machine C).recorded.Reachable Machine.anyRun cfg) {plan : LoadPlan}
    {membership : RealmMembership} {ctx : Context C} {x : Prog C Answer}
    (harrives : (load plan membership ctx).Arrives (cfg.shared.log p) x) :
    Program.Along Admits Settled x (fun _ _ => True) (cfg.shared.log p) :=
  (settled_load plan membership ctx).arrives harrives ((Ledger.of_reachable h).admitted p)

/-- A party that was not dropped has performed nothing before its routine. -/
theorem performed_of_entered (h : (machine C).recorded.Reachable Machine.anyRun cfg)
    (hentered : ∀ entries, cfg.shared.origin p ≠ some (.rollback entries)) :
    cfg.shared.performed p = cfg.shared.log p := by
  rcases Machine.traced_of_reachable h p with ⟨-, hnothing, -⟩ | ⟨-, older, hpast, hall⟩
  · have hsuffix := Machine.log_suffix_performed h p
    rw [hnothing] at hsuffix ⊢
    exact (List.suffix_nil.mp hsuffix).symm
  · generalize hroutine : cfg.shared.origin p = routine at hpast
    cases hpast with
    | entered => exact hall
    | forked => exact hall
    | dropped _ _ _ hdropped =>
        simp only [machine, dropped, Option.map_eq_some_iff, Prod.mk.injEq] at hdropped
        rcases hdropped with ⟨entries, -, -, rfl⟩
        exact absurd hroutine (hentered entries)

/-- A rollback is what the drop of a load left. -/
theorem dropped_of_rollback (h : (machine C).recorded.Reachable Machine.anyRun cfg)
    {entries : List EntryOutcome} (horigin : cfg.shared.origin p = some (.rollback entries)) :
    ∃ cfg₀ op next plan membership ctx,
      (machine C).recorded.Reachable Machine.anyRun cfg₀ ∧
        (load plan membership ctx).Arrives (cfg₀.shared.log p) (.act op next) ∧
          awaits op = true ∧ buffer (cfg₀.shared.log p) = some entries ∧
            cfg.shared.performed p = cfg₀.shared.log p ++ cfg.shared.log p ∧
              ∀ fiber, armed (cfg₀.shared.log p) = some fiber →
                fiber ∈ cfg.shared.state.cleaned := by
  rcases Machine.traced_of_reachable h p with ⟨-, -, hnowhere⟩ | ⟨-, older, hpast, hall⟩
  · rw [horigin] at hnowhere
    cases hnowhere
  rw [horigin] at hpast
  cases hpast with
  | entered henter => cases henter
  | forked hforks => cases hforks
  | @dropped cfg₀ op next state _ hreached hpool hawaits hdropped hsince =>
      simp only [machine, dropped, Option.map_eq_some_iff, Prod.mk.injEq] at hdropped
      rcases hdropped with ⟨held, hheld, rfl, hrollback⟩
      obtain rfl : held = entries := by simpa using hrollback
      have hledger := Ledger.of_reachable hreached
      have hbuffer : buffer (cfg₀.shared.log p) = some held := by
        rw [← hledger.handoffs, hheld]
      have hload : ∃ plan membership ctx,
          cfg₀.shared.origin p = some (.load plan membership ctx) ∧
            (load plan membership ctx).Arrives (cfg₀.shared.log p) (.act op next) := by
        refine load_of_not_bare hreached hpool (waitAnswer op hawaits) fun hbare => ?_
        rw [buffer_bare hbare.1] at hbuffer
        cases hbuffer
      rcases hload with ⟨plan, membership, ctx, hload, harrives⟩
      have hperformed : cfg₀.shared.performed p = cfg₀.shared.log p := by
        refine performed_of_entered hreached fun entries heq => ?_
        rw [hload] at heq
        cases heq
      refine ⟨cfg₀, op, next, plan, membership, ctx, hreached, harrives, hawaits, hbuffer, ?_, ?_⟩
      · rw [hall, hperformed]
      · intro fiber harmed
        refine hsince _ (cleaned_stable fiber) ?_
        have hguard : cfg₀.shared.state.guards p = some fiber := by
          rw [hledger.guards, harmed]
        simp [Shared.setHandoff, Shared.fireGuard, hguard]

/-- A creation that a panic leaves is left to its guard. -/
theorem cleaned_of_unwound (h : (machine C).recorded.Reachable Machine.anyRun cfg)
    {fiber : FiberId} (hmem : ⟨.spawnEnd fiber, .unwound⟩ ∈ cfg.shared.performed p) :
    fiber ∈ cfg.shared.state.cleaned := by
  have hrow : (p, ⟨.spawnEnd fiber, .unwound⟩) ∈ cfg.shared.history := by
    simp only [Recorded.performed, List.mem_reverse, List.mem_map, List.mem_filter,
      decide_eq_true_eq] at hmem
    rcases hmem with ⟨⟨q, event⟩, ⟨hrow, rfl⟩, rfl⟩
    exact hrow
  rcases Machine.happened_of_reachable h _ hrow with
    ⟨cfg₀, q, choice, state, next, hreached, hpool, hexec, hsince⟩
  refine hsince _ (cleaned_stable fiber) ?_
  rcases load_of_not_bare hreached hpool .unwound fun hbare => hbare.2 with
    ⟨plan, membership, ctx, -, harrives⟩
  have hcreating : Creating (cfg₀.shared.log p) fiber := (settled_of_load hreached harrives).1
  have hguard : cfg₀.shared.state.guards p = some fiber := by
    rw [(Ledger.of_reachable hreached).guards, hcreating.1]
  change exec p choice (.spawnEnd fiber) cfg₀.shared.state = some (state, .unwound) at hexec
  simp only [exec] at hexec
  split at hexec <;> cases hexec
  simp [Shared.fireGuard, hguard]

end Standing

/-! ## Who disposes -/

/-- Neither half of a disposal of the fiber is among the events. -/
def Untouched (events : Events C) (fiber : FiberId) : Prop :=
  ∀ event ∈ events, event.1 ≠ .disposeStart fiber ∧ event.1 ≠ .disposeEnd fiber

theorem settled_body {routine : Routine C} (h : ∀ entries, routine ≠ .rollback entries) :
    Program.Along Admits Settled ((machine C).body routine) (fun _ _ => True) [] := by
  cases routine with
  | load plan membership ctx => exact settled_load plan membership ctx
  | rollback entries => exact absurd rfl (h entries)
  | discard entries => trivial
  | newServiceRealm membership => exact ⟨trivial, fun _ _ => trivial⟩

theorem untouched_of_settled {events : Events C} (fiber : FiberId)
    (h : ∀ {before event after}, events = before ++ event :: after → Settled before event.1) :
    Untouched events fiber := by
  intro event hevent
  rcases List.append_of_mem hevent with ⟨before, after, hsplit⟩
  have hat := h hsplit
  constructor <;> intro heq <;> rw [heq] at hat <;> exact hat

theorem untouched_of_script {events : Events C} {fibers : List FiberId} {fiber : FiberId}
    (h : events.map Sigma.fst <+: script C fibers) (hnot : fiber ∉ fibers) :
    Untouched events fiber := by
  intro event hevent
  have hop : event.1 ∈ script C fibers := h.subset (List.mem_map_of_mem hevent)
  rcases List.mem_flatMap.mp hop with ⟨other, hother, hpair⟩
  have hne : other ≠ fiber := fun heq => hnot (heq ▸ hother)
  rcases List.mem_cons.mp hpair with hstart | hend
  · rw [hstart]
    exact ⟨fun heq => hne (Op.disposeStart.inj heq), nofun⟩
  · rw [List.mem_singleton.mp hend]
    exact ⟨nofun, fun heq => hne (Op.disposeEnd.inj heq)⟩

/-- The books of a load where it waits or unwinds. -/
theorem books_of_settled {events : Events C} {op : Op C} (h : Settled events op)
    (hawaits : awaits op = true) : ∃ entries rest, buffer events = some entries ∧
      entries.filterMap EntryOutcome.fiberHandle = delivered events ∧
        created events = (ends events).map Prod.fst ++ rest ∧
          ∀ fiber, op = .spawnEnd fiber → rest = [fiber] ∧ armed events = some fiber := by
  cases op with
  | spawnEnd fiber =>
      rcases h with ⟨harmed, entries, hentries, hhandles, hall⟩
      refine ⟨entries, [fiber], hentries, hhandles, hall, ?_⟩
      rintro other ⟨⟩
      exact ⟨rfl, harmed⟩
  | unwind =>
      rcases h with ⟨entries, hentries, hhandles, hall⟩
      exact ⟨entries, [], hentries, hhandles, hall.trans (List.append_nil _).symm, nofun⟩
  | disposeEnd fiber => exact h.elim
  | withCapacity | newServiceRealm | resolve | spawnStart | push | finish | disposeStart =>
      cases hawaits

theorem delivered_sublist (events : Events C) :
    (delivered events).Sublist ((ends events).map Prod.fst) := by
  unfold delivered
  induction ends events with
  | nil => exact .slnil
  | cons row rows ih =>
      rcases row with ⟨fiber, ending⟩
      cases ending with
      | delivered => exact ih.cons_cons fiber
      | failed | unwound => exact ih.cons fiber

theorem mem_ends {events : Events C} {fiber : FiberId} {ending : SpawnEnd} :
    (fiber, ending) ∈ ends events ↔ ⟨.spawnEnd fiber, ending⟩ ∈ events := by
  unfold ends
  rw [List.mem_filterMap]
  constructor
  · rintro ⟨⟨op, r⟩, hevent, heq⟩
    cases op with
    | spawnEnd other =>
        cases heq
        exact hevent
    | withCapacity | newServiceRealm | resolve | spawnStart | push | finish | unwind | disposeStart
    | disposeEnd => cases heq
  · intro hevent
    exact ⟨_, hevent, rfl⟩

theorem mem_delivered {events : Events C} {fiber : FiberId} :
    fiber ∈ delivered events ↔ ⟨.spawnEnd fiber, .delivered⟩ ∈ events := by
  rw [← mem_ends, delivered, List.mem_filterMap]
  constructor
  · rintro ⟨⟨other, ending⟩, hrow, heq⟩
    cases ending with
    | delivered =>
        cases heq
        exact hrow
    | failed | unwound => cases heq
  · intro hrow
    exact ⟨_, hrow, rfl⟩

/-- The creation of a fiber that was handed to a load is on its own path. -/
theorem created_of_delivered {events : Events C} {fiber : FiberId}
    (h : ∀ {before event after}, events = before ++ event :: after → Settled before event.1)
    (hmem : fiber ∈ delivered events) : fiber ∈ created events := by
  rcases List.append_of_mem (mem_delivered.mp hmem) with ⟨before, after, hsplit⟩
  have hcreating : Creating before fiber := h hsplit
  rcases hcreating with ⟨-, -, -, -, hall⟩
  rw [hsplit, created_append, hall]
  simp

section Parties

variable {cfg : Config (Record C) (Op C) Op.Ret Answer} {p q : Party}

/-- A party that is no rollback performed its log, and every step of it was settled. -/
theorem settled_performed (h : (machine C).recorded.Reachable Machine.anyRun cfg)
    (hentered : ∀ entries, cfg.shared.origin p ≠ some (.rollback entries)) :
    ∀ {before event after}, cfg.shared.performed p = before ++ event :: after →
      Settled before event.1 := by
  intro before event after hsplit
  cases hpool : cfg.pool p with
  | none =>
      have hnothing := (Machine.traced_of_reachable h p).unborn hpool
      rw [hsplit] at hnothing
      cases before <;> cases hnothing
  | some x =>
      rw [performed_of_entered h hentered] at hsplit
      rcases origin_of_pool h hpool with ⟨routine, horigin, harrives⟩
      have hbody := settled_body fun entries heq => hentered entries (heq ▸ horigin)
      exact hbody.held harrives ((Ledger.of_reachable h).admitted p) hsplit

theorem created_unique (h : (machine C).recorded.Reachable Machine.anyRun cfg) {fiber : FiberId}
    (hp : fiber ∈ created (cfg.shared.performed p))
    (hq : fiber ∈ created (cfg.shared.performed q)) : p = q :=
  Recorded.party_unique (Fresh.of_reachable h).unique hp hq

theorem created_nodup (h : (machine C).recorded.Reachable Machine.anyRun cfg) (p : Party) :
    (created (cfg.shared.performed p)).Nodup :=
  Recorded.nodup_filterMap_performed (Fresh.of_reachable h).unique p

end Parties

/-! ## A dropped load -/

/-- What became of a load that was left at `op` after the events `before`. -/
structure Abandoned (cfg : Config (Record C) (Op C) Op.Ret Answer) (p : Party)
    (before : Events C) (op : Op C) : Prop where
  load : ∃ plan membership ctx next, (load plan membership ctx).Arrives before (.act op next)
  awaits : awaits op = true
  performed : cfg.shared.performed p = before ++ cfg.shared.log p
  /-- Every handle was obtained once. -/
  once : (delivered before).Nodup
  /-- The disposals so far: the last one obtained first, each ended before the next starts. -/
  begun : (cfg.shared.log p).map Sigma.fst <+: script C (delivered before).reverse
  /-- All of them are done, or the next operation can go on whatever the one before answered. -/
  goes : (cfg.pool p = some (.pure .rolledBack) ∧
      (cfg.shared.log p).map Sigma.fst = script C (delivered before).reverse) ∨
    ∃ op next, cfg.pool p = some (.act op next) ∧
      ∀ choice, exec p choice op cfg.shared.state ≠ none
  /-- Nobody drops a detached task. -/
  kept : (machine C).dropped p cfg.shared.state = none
  /-- The creation that was under way was never obtained and is left to its own guard. -/
  guarded : ∀ fiber, op = .spawnEnd fiber ∨ ⟨.spawnEnd fiber, .unwound⟩ ∈ before →
    fiber ∈ created before ∧ fiber ∉ delivered before ∧ fiber ∈ cfg.shared.state.cleaned

section Dropped

variable {cfg : Config (Record C) (Op C) Op.Ret Answer} {p q : Party}

theorem abandoned_of_rollback (h : (machine C).recorded.Reachable Machine.anyRun cfg)
    {entries : List EntryOutcome} (horigin : cfg.shared.origin p = some (.rollback entries)) :
    ∃ before op, Abandoned cfg p before op ∧
      ∀ {first event rest}, before = first ++ event :: rest → Settled first event.1 := by
  rcases dropped_of_rollback h horigin with
    ⟨cfg₀, op, next, plan, membership, ctx, hreached, harrives, hawaits, hbuffer, hall, hcleaned⟩
  have hat : Settled (cfg₀.shared.log p) op := (settled_of_load hreached harrives).1
  rcases books_of_settled hat hawaits with ⟨held, rest, hheld, hhandles, hcreated, hopen⟩
  obtain rfl : held = entries := by
    rw [hbuffer] at hheld
    exact (Option.some.inj hheld).symm
  have hnodup : (created (cfg₀.shared.log p)).Nodup := by
    have hperformed := created_nodup h p
    rw [hall, created_append] at hperformed
    exact (List.nodup_append.mp hperformed).1
  have hends : ((ends (cfg₀.shared.log p)).map Prod.fst).Nodup := by
    rw [hcreated] at hnodup
    exact (List.nodup_append.mp hnodup).1
  have hadmitted := (Ledger.of_reachable h).admitted p
  have hpool : ∃ x, cfg.pool p = some x := by
    cases hpool : cfg.pool p with
    | some x => exact ⟨x, rfl⟩
    | none =>
        rcases Machine.traced_of_reachable h p with ⟨-, -, hnowhere⟩ | ⟨hsome, -⟩
        · rw [horigin] at hnowhere
          cases hnowhere
        · exact absurd hpool hsome
  rcases hpool with ⟨x, hpool⟩
  have harrived : (rollback held : Prog C Answer).Arrives (cfg.shared.log p) x := by
    rcases origin_of_pool h hpool with ⟨routine, hroutine, harrived⟩
    rw [horigin, Option.some.injEq] at hroutine
    subst hroutine
    exact harrived
  have hrest := (along_rollback held).arrives harrived hadmitted
  rw [hhandles, List.nil_append] at hrest
  refine ⟨cfg₀.shared.log p, op, ⟨⟨plan, membership, ctx, next, harrives⟩, hawaits, hall,
    (delivered_sublist _).nodup hends, ?_, ?_, ?_, ?_⟩, ?_⟩
  · cases x with
    | pure answer => exact hrest.2 ▸ List.prefix_refl _
    | act op' next' => exact (List.prefix_append _ _).trans hrest.1
    | loop => exact hrest.elim
  · cases x with
    | pure answer =>
        obtain rfl := hrest.1
        exact .inl ⟨hpool, hrest.2⟩
    | act op' next' =>
        refine .inr ⟨op', next', hpool, fun choice => ?_⟩
        have hop : op' ∈ script C (delivered (cfg₀.shared.log p)).reverse :=
          hrest.1.subset (List.mem_append_right _ (List.mem_singleton_self _))
        rcases List.mem_flatMap.mp hop with ⟨fiber, -, hpair⟩
        rcases List.mem_cons.mp hpair with rfl | hend
        · exact Option.some_ne_none _
        · obtain rfl := List.mem_singleton.mp hend
          exact Option.some_ne_none _
    | loop => exact hrest.elim
  · have hnone : cfg.shared.state.handoffs p = none := by
      rw [(Ledger.of_reachable h).handoffs]
      exact buffer_bare ((bare_rollbackFrom held.reverse).events harrived)
    simp [machine, dropped, hnone]
  · intro fiber hcase
    rcases hcase with hop | hunwound
    · rcases hopen fiber hop with ⟨rfl, harmed⟩
      rw [hcreated] at hnodup ⊢
      refine ⟨by simp, fun hmem => ?_, hcleaned fiber harmed⟩
      have hend := (delivered_sublist _).subset hmem
      exact (List.nodup_append.mp hnodup).2.2 _ hend _ (List.mem_singleton_self _) rfl
    · have hrow := mem_ends.mpr hunwound
      refine ⟨?_, fun hmem => ?_, ?_⟩
      · rw [hcreated]
        exact List.mem_append_left _ (List.mem_map_of_mem hrow)
      · -- one creation ends once
        have hother := mem_ends.mpr (mem_delivered.mp hmem)
        have heq := List.inj_on_of_nodup_map hends hrow hother rfl
        cases heq
      · apply cleaned_of_unwound h (p := p)
        rw [hall]
        exact List.mem_append_left _ hunwound
  · exact fun hsplit => (settled_load plan membership ctx).held harrives
      ((Ledger.of_reachable hreached).admitted p) hsplit

/-- What `q` was given is disposed of by nobody else. -/
theorem untouched_of_other (h : (machine C).recorded.Reachable Machine.anyRun cfg)
    {fiber : FiberId} (hcreated : fiber ∈ created (cfg.shared.performed q)) (hq : q ≠ p) :
    Untouched (cfg.shared.performed p) fiber := by
  by_cases hrollback : ∃ entries, cfg.shared.origin p = some (.rollback entries)
  · rcases hrollback with ⟨entries, horigin⟩
    rcases abandoned_of_rollback h horigin with ⟨before, op, hleft, hsettled⟩
    have hnot : fiber ∉ (delivered before).reverse := by
      intro hmem
      refine hq (created_unique h hcreated ?_)
      rw [hleft.performed, created_append]
      exact List.mem_append_left _ (created_of_delivered hsettled (List.mem_reverse.mp hmem))
    intro event hevent
    rw [hleft.performed] at hevent
    rcases List.mem_append.mp hevent with hbefore | hlog
    · exact untouched_of_settled fiber hsettled event hbefore
    · exact untouched_of_script hleft.begun hnot event hlog
  · exact untouched_of_settled fiber
      (settled_performed h fun entries horigin => hrollback ⟨entries, horigin⟩)

/-- A load that waits or unwinds owns its buffer, so its drop leaves a rollback. -/
theorem drop_of_load (h : (machine C).recorded.Reachable Machine.anyRun cfg) {plan : LoadPlan}
    {membership : RealmMembership} {ctx : Context C} {op : Op C} {next : op.Ret → Prog C Answer}
    (horigin : cfg.shared.origin p = some (.load plan membership ctx))
    (hpool : cfg.pool p = some (.act op next)) (hawaits : awaits op = true) :
    ∃ cfg' entries, (machine C).recorded.step cfg (.drop p) = some cfg' ∧
      cfg'.shared.origin p = some (.rollback entries) := by
  rcases origin_of_pool h hpool with ⟨routine, hroutine, harrives⟩
  rw [horigin, Option.some.injEq] at hroutine
  subst hroutine
  have hat : Settled (cfg.shared.log p) op := (settled_of_load h harrives).1
  rcases books_of_settled hat hawaits with ⟨entries, -, hentries, -⟩
  have hheld : cfg.shared.state.handoffs p = some entries := by
    rw [(Ledger.of_reachable h).handoffs, hentries]
  simp [Machine.step, hpool, hawaits, Machine.recorded, machine, dropped, hheld, Recorded.begin]

/-- A load that is left, wherever it waits or unwinds, has its handles disposed of by one rollback,
each once and the last one first, and the creation under way is left to its own guard; a load that
is not left, the returned one included, has none of its handles disposed of by anybody. -/
theorem load_abandonment (h : (machine C).recorded.Reachable Machine.anyRun cfg) (p : Party) :
    (∀ entries, cfg.shared.origin p = some (.rollback entries) →
      ∃ before op, Abandoned cfg p before op ∧
        ∀ q, q ≠ p → ∀ fiber ∈ delivered before, Untouched (cfg.shared.performed q) fiber) ∧
    ∀ plan membership ctx, cfg.shared.origin p = some (.load plan membership ctx) →
      (∀ q, ∀ fiber ∈ delivered (cfg.shared.log p), Untouched (cfg.shared.performed q) fiber) ∧
        ∀ op next, cfg.pool p = some (.act op next) → awaits op = true →
          ∃ cfg' entries, (machine C).recorded.step cfg (.drop p) = some cfg' ∧
            cfg'.shared.origin p = some (.rollback entries) := by
  constructor
  · intro entries horigin
    rcases abandoned_of_rollback h horigin with ⟨before, op, hleft, hsettled⟩
    refine ⟨before, op, hleft, fun q hq fiber hfiber => untouched_of_other h ?_ (Ne.symm hq)⟩
    rw [hleft.performed, created_append]
    exact List.mem_append_left _ (created_of_delivered hsettled hfiber)
  · intro plan membership ctx horigin
    have hentered : ∀ entries, cfg.shared.origin p ≠ some (.rollback entries) := by
      intro entries heq
      rw [horigin] at heq
      cases heq
    have hsettled : ∀ {before event after}, cfg.shared.performed p = before ++ event :: after →
        Settled before event.1 := settled_performed h hentered
    refine ⟨fun q fiber hfiber => ?_, fun op next => drop_of_load h horigin⟩
    by_cases hq : q = p
    · exact hq ▸ untouched_of_settled fiber hsettled
    · rw [← performed_of_entered h hentered] at hfiber
      exact untouched_of_other h (created_of_delivered hsettled hfiber) (Ne.symm hq)

end Dropped

/-! ### A load dropped during its third creation -/

/-- Three plugins side by side. -/
def trio : LoadPlan where
  lineage := 0
  nodes :=
    [{ id := ⟨0, 0⟩, parent := none, entry := .plugin { key := some "a", config := 0 } },
      { id := ⟨0, 1⟩, parent := none, entry := .plugin { key := some "b", config := 0 } },
      { id := ⟨0, 2⟩, parent := none, entry := .plugin { key := some "c", config := 0 } }]
  unique := by decide
  complete := by decide

/-- Party 0 loads the three and is dropped while the third creation is under way; the two fibers
it obtained are disposed of, both in vain. -/
def droppedRun : List (Label (Routine Axes.numbered) Choice) :=
  .enter 0 (.load trio 7 Context.root) ::
    List.replicate 11 (.step 0 1 { resolution := .returned (some 3), start := .created 0 }) ++
    .drop 0 :: List.replicate 4 (.step 0 1 { disposed := false })

theorem droppedRun_enabled : ((machine Axes.numbered).recorded.run (fun _ _ _ _ => true) droppedRun
    (machine Axes.numbered).recorded.start).isSome = true := by
  decide +kernel

def abandoned : Config (Record Axes.numbered) (Op Axes.numbered) Op.Ret Answer :=
  ((machine Axes.numbered).recorded.run (fun _ _ _ _ => true) droppedRun
    (machine Axes.numbered).recorded.start).get droppedRun_enabled

theorem load_abandonment_sample :
    ((abandoned.shared.log 0).map Sigma.fst =
      [.disposeStart 1, .disposeEnd 1, .disposeStart 0, .disposeEnd 0] ∧
      abandoned.shared.state.cleaned = [2]) ∧
      ∃ before op, Abandoned abandoned 0 before op := by
  have hreach : (machine Axes.numbered).recorded.Reachable Machine.anyRun abandoned :=
    Machine.Reachable.of_run _ (fun _ _ _ _ _ => trivial) droppedRun .start
      (Option.some_get _).symm
  have horigin : abandoned.shared.origin 0 = some (.rollback
      [.spawned ⟨0, 0⟩ "a" 0, .spawned ⟨0, 1⟩ "b" 1]) := rfl
  rcases (load_abandonment hreach 0).1 _ horigin with ⟨before, op, hleft, -⟩
  exact ⟨⟨rfl, rfl⟩, before, op, hleft⟩

end Loader
end CordisCore
