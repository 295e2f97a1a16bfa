import CordisCore.Events.Journals
import CordisCore.Events.Orderly
import Mathlib.Data.List.Induction

/-!
# Exclusive claims — one remover, one report, one invocation

The ledger says who unregistered an occurrence, the order of accesses says what
follows from it in the routine of whoever did.
-/

namespace CordisCore
namespace Events

open Interleaving

variable {V : Type}

/-! ## Along one path -/

/-- Every operation of the events was performed in order, with an admitted answer. -/
structure OrderlyPath (events : List (Performed V)) : Prop where
  orderly : ∀ before event after, events = before ++ event :: after → Orderly before event.1
  admitted : ∀ event ∈ events, Admits event.1 event.2

theorem OrderlyPath.init {events : List (Performed V)} {event : Performed V}
    (h : OrderlyPath (events ++ [event])) : OrderlyPath events where
  orderly := by
    intro before other after hsplit
    apply h.orderly before other (after ++ [event])
    rw [hsplit]
    simp
  admitted other hother := h.admitted other (List.mem_append_left _ hother)

theorem OrderlyPath.last {events : List (Performed V)} {event : Performed V}
    (h : OrderlyPath (events ++ [event])) : Orderly events event.1 :=
  h.orderly events event [] rfl

/-- What is removed is not reported by the same access, and needs that nothing is owed. -/
theorem Orderly.removed {events : List (Performed V)} {event : Performed V}
    (h : Orderly events event.1) (hremoved : removedOf event ≠ none) :
    owed events = none ∧ unregisteredOf event = none := by
  rcases event with ⟨op, r⟩
  cases op with
  | claim | remove => exact ⟨h.1, rfl⟩
  | preflight | publish | call | ended | moved | resumed | tail | tailEnded | discard
  | unreachable | pushGated | removeDisposable | tokens | deliver | reported | setGate =>
      exact absurd rfl hremoved

/-- What is reported is owed. -/
theorem Orderly.unregistered {events : List (Performed V)} {event : Performed V}
    (h : Orderly events event.1) {occurrence : String × ListenerRegistrationId}
    (hreport : unregisteredOf event = some occurrence) : owed events = some occurrence := by
  rcases event with ⟨op, r⟩
  cases op with
  | publish record =>
      cases record with
      | dispatchCompleted => cases hreport
      | listenerRegistration change listener =>
          cases change with
          | registered => cases hreport
          | unregistered =>
              cases hreport
              exact h.1
  | claim | remove | preflight | call | ended | moved | resumed | tail | tailEnded
  | discard | unreachable | pushGated | removeDisposable | tokens | deliver | reported | setGate =>
      cases hreport

/-- What was unregistered is what was reported, and what is owed. -/
theorem reported_and_owed (events : List (Performed V)) (h : OrderlyPath events) :
    events.filterMap removedOf = events.filterMap unregisteredOf ++ (owed events).toList := by
  induction events using List.reverseRecOn with
  | nil => rfl
  | append_singleton events event ih =>
      have hbefore := ih h.init
      rw [List.filterMap_append, List.filterMap_append, owed_snoc, hbefore]
      simp only [owedStep, List.filterMap_cons, List.filterMap_nil]
      cases hremoved : removedOf event with
      | some occurrence =>
          have hfree := h.last.removed (by rw [hremoved]; simp)
          rw [hfree.1, hfree.2]
          simp
      | none =>
          cases hreport : unregisteredOf event with
          | none => simp
          | some occurrence =>
              rw [h.last.unregistered hreport]
              simp

theorem Orderly.called {events : List (Performed V)} {event : Performed V}
    (h : Orderly events event.1) (hcalled : calledOf event ≠ none) :
    called (events ++ [event]) <+: granted (events ++ [event]) := by
  rcases event with ⟨op, r⟩
  cases op with
  | call hook payload =>
      rw [called_snoc, granted_snoc]
      simpa [calledOf, grantedOf] using h.2
  | claim | remove | preflight | publish | ended | moved | resumed | tail | tailEnded
  | discard | unreachable | pushGated | removeDisposable | tokens | deliver | reported | setGate =>
      exact absurd rfl hcalled

/-- Whoever is called won a claim, in this order. -/
theorem called_initial_granted (events : List (Performed V)) (h : OrderlyPath events) :
    called events <+: granted events := by
  induction events using List.reverseRecOn with
  | nil => exact List.prefix_refl _
  | append_singleton events event ih =>
      cases hcalled : calledOf event with
      | some id => exact h.last.called (by rw [hcalled]; nofun)
      | none =>
          rw [called_snoc, granted_snoc, hcalled, Option.toList_none, List.append_nil]
          exact (ih h.init).trans (List.prefix_append _ _)

/-- The hooks that were tried begin the snapshot, and no hook is in it twice. -/
theorem reached_initial_selected (events : List (Performed V)) (h : OrderlyPath events) :
    reached events <+: (selected events).map HookSnap.id ∧
      ((selected events).map HookSnap.id).Nodup := by
  induction events using List.reverseRecOn with
  | nil => exact ⟨List.prefix_refl _, .nil⟩
  | append_singleton events event ih =>
      have hbefore := ih h.init
      have hlast := h.last
      have hadmits := h.admitted event (List.mem_append_right _ (List.mem_singleton_self _))
      rw [reached_snoc, selected_snoc]
      rcases event with ⟨op, r⟩
      cases op with
      | preflight E routing operation =>
          -- the only snapshot so far
          have hfirst : events = [] := hlast.2
          have hnothing : selected events = [] := by
            rw [hfirst]
            rfl
          rw [hnothing] at hbefore ⊢
          have hreached : reached events = [] := List.prefix_nil.mp hbefore.1
          rw [hreached]
          cases r with
          | error error => exact ⟨List.prefix_refl _, .nil⟩
          | ok hooks => exact ⟨ List.nil_prefix, hadmits.1⟩
      | claim event id =>
          refine ⟨?_, ?_⟩
          · simpa [reachedOf, selectedOf] using hlast.2
          · simpa [selectedOf] using hbefore.2
      | remove | publish | call | ended | moved | resumed | tail | tailEnded | discard
      | unreachable | pushGated | removeDisposable | tokens | deliver | reported | setGate =>
          simpa [reachedOf, selectedOf] using hbefore

theorem granted_sublist_reached (events : List (Performed V)) :
    (granted events).Sublist (reached events) := by
  induction events with
  | nil => exact .slnil
  | cons event events ih =>
      unfold granted reached at ih ⊢
      rw [List.filterMap_cons, List.filterMap_cons]
      rcases event with ⟨op, r⟩
      cases op with
      | claim event id =>
          rcases r with ⟨claimed, unregistered⟩
          cases claimed
          · exact ih.cons id
          · exact ih.cons_cons id
      | remove | preflight | publish | call | ended | moved | resumed | tail | tailEnded
      | discard | unreachable | pushGated | removeDisposable | tokens | deliver | reported
      | setGate => exact ih

/-- A dispatch has one snapshot: that of the preflight it begins with. -/
theorem selected_of_preflight {events : List (Performed V)} (h : OrderlyPath events) {E : Event}
    {routing : Routing} {operation : EventOperation}
    {answer : Op.Ret (.preflight E routing operation : Op V)}
    (hmem : ⟨.preflight E routing operation, answer⟩ ∈ events) :
    selected events = selectedOf (V := V) ⟨.preflight E routing operation, answer⟩ := by
  rcases List.append_of_mem hmem with ⟨before, after, rfl⟩
  have hfirst : before = [] := (h.orderly before _ after rfl).2
  subst hfirst
  have hnothing : ∀ event ∈ after, selectedOf event = [] := by
    intro event hevent
    rcases List.append_of_mem hevent with ⟨between, rest, rfl⟩
    have horderly := h.orderly (⟨.preflight E routing operation, answer⟩ :: between) event rest rfl
    rcases event with ⟨op, r⟩
    cases op with
    | preflight => cases horderly.2
    | claim | remove | publish | call | ended | moved | resumed | tail | tailEnded
    | discard | unreachable | pushGated | removeDisposable | tokens | deliver | reported
    | setGate => rfl
  unfold selected
  rw [List.nil_append, List.flatMap_cons, List.flatMap_eq_nil_iff.mpr hnothing, List.append_nil]

/-- Whoever is called was selected. -/
theorem called_subset_selected {events : List (Performed V)} (h : OrderlyPath events) :
    called events ⊆ (selected events).map HookSnap.id :=
  fun _ hid => (reached_initial_selected events h).1.subset
    ((granted_sublist_reached events).subset ((called_initial_granted events h).subset hid))

/-! ## Where the parties stand -/

section Parties

variable {cfg : Config (Record V) (Op V) Op.Ret (Answer V)}

/-- What every party performed is in order, and so is what it goes on with. -/
theorem along_of_reachable (h : (machine V).recorded.Reachable Machine.anyRun cfg) (p : Party) :
    OrderlyPath (cfg.shared.performed p) ∧
      ((cfg.pool p = none ∧ cfg.shared.performed p = []) ∨
        ∃ x, Keeps x (fun _ more => Settled more) (cfg.shared.performed p) ∧
          (cfg.pool p = some x ∨ ∃ op next, x = .act op next ∧ awaits op = true)) := by
  have hadmitted : ∀ event ∈ cfg.shared.performed p, Admits event.1 event.2 := fun event hevent =>
    (Ledger.of_reachable h).admitted (p, event) (Recorded.mem_performed.mp hevent)
  have hgone : ∀ {p s s' next}, (machine V).dropped p s = some (s', next) → next = none := by
    intro p s s' next hdrop
    simp only [machine, Option.some.injEq, Prod.mk.injEq] at hdrop
    exact hdrop.2.symm
  rcases Machine.path_of_reachable hgone h p with hunborn | ⟨routine, x, harrives, hstands⟩
  · refine ⟨⟨fun before event after hsplit => ?_, hadmitted⟩, .inl hunborn⟩
    rw [hunborn.2] at hsplit
    cases before <;> cases hsplit
  · refine ⟨⟨fun before event after hsplit => ?_, hadmitted⟩, .inr ⟨x, ?_, hstands⟩⟩
    · exact (keeps_body routine).held harrives hadmitted hsplit
    · exact (keeps_body routine).arrives harrives hadmitted

/-- The party waits, has returned, was dropped, or never started. -/
def Rests (cfg : Config (Record V) (Op V) Op.Ret (Answer V)) (p : Party) : Prop :=
  ∀ op next, cfg.pool p = some (.act op next) → awaits op = true

theorem called_of_rests (h : (machine V).recorded.Reachable Machine.anyRun cfg) {p : Party}
    (hrests : Rests cfg p) :
    called (cfg.shared.performed p) = granted (cfg.shared.performed p) := by
  have hawait : ∀ {op : Op V}, awaits op = true → Orderly (cfg.shared.performed p) op →
      called (cfg.shared.performed p) = granted (cfg.shared.performed p) := by
    intro op hop horderly
    cases op with
    | ended | moved | resumed | tailEnded | reported => exact horderly.2 rfl
    | preflight | claim | publish | call | tail | discard | unreachable | pushGated | remove
    | removeDisposable | tokens | deliver | setGate => cases hop
  rcases (along_of_reachable h p).2 with ⟨-, hnothing⟩ | ⟨x, hkeeps, hstands⟩
  · rw [hnothing]
    rfl
  · cases x with
    | pure answer => exact hkeeps.won
    | loop => exact hkeeps.elim
    | act op next =>
        rcases hstands with hpool | ⟨other, rest, heq, hawaits⟩
        · exact hawait (hrests op next hpool) hkeeps.1
        · cases heq
          exact hawait hawaits hkeeps.1

/-- Whoever owes a report is about to give it. -/
theorem publishing_of_owed (h : (machine V).recorded.Reachable Machine.anyRun cfg) {p : Party}
    {occurrence : String × ListenerRegistrationId}
    (howed : owed (cfg.shared.performed p) = some occurrence) :
    ∃ listener next, cfg.pool p =
        some (.act (.publish (.listenerRegistration .unregistered listener)) next) ∧
      (listener.event, listener.id) = occurrence := by
  rcases (along_of_reachable h p).2 with ⟨-, hnothing⟩ | ⟨x, hkeeps, hstands⟩
  · rw [hnothing] at howed
    cases howed
  · cases x with
    | pure answer =>
        have hpaid := hkeeps.paid
        rw [howed] at hpaid
        cases hpaid
    | loop => exact hkeeps.elim
    | act op next =>
        have hreport : ∃ listener, op = .publish (.listenerRegistration .unregistered listener) ∧
            (listener.event, listener.id) = occurrence := by
          have horder := hkeeps.1.1
          rw [howed] at horder
          split at horder
          · rename_i listener
            exact ⟨listener, rfl, (Option.some.inj horder).symm⟩
          · cases horder
        rcases hreport with ⟨listener, rfl, heq⟩
        rcases hstands with hpool | ⟨other, rest, hact, hawaits⟩
        · exact ⟨listener, next, hpool, heq⟩
        · cases hact
          cases hawaits

end Parties

/-! ## Exclusiveness -/

def unregisteredRecord : RuntimeObservation → Option (String × ListenerRegistrationId)
  | .listenerRegistration .unregistered listener => some (listener.event, listener.id)
  | _ => none

theorem unregisteredOf_eq (event : Performed V) :
    unregisteredOf event = (publishedOf event).bind unregisteredRecord := by
  rcases event with ⟨op, r⟩
  cases op with
  | publish record =>
      cases record with
      | dispatchCompleted => rfl
      | listenerRegistration change listener => cases change <;> rfl
  | claim | remove | preflight | call | ended | moved | resumed | tail | tailEnded
  | discard | unreachable | pushGated | removeDisposable | tokens | deliver | reported | setGate =>
      rfl

/-- What holds of all registered occurrences in a state of a run. -/
structure Exclusive (cfg : Config (Record V) (Op V) Op.Ret (Answer V)) : Prop where
  /-- No identity is registered twice. -/
  fresh : ((registrations cfg.shared.history).map fun row => row.2.id).Nodup
  /-- One access of all removals, claims and cleanups reports that it removed the entry. -/
  once : (removals cfg.shared.history).Nodup
  /-- What is registered is in the store, or one access removed it. -/
  accounted : ∀ name hook, (name, hook) ∈ registrations cfg.shared.history →
    ((cfg.shared.state.events.find name hook.id).isSome ↔
      (name, hook.id) ∉ removals cfg.shared.history)
  /-- A claim is won exactly by what is registered and not removed when it is made. -/
  claimed : ∀ later p name id answer earlier,
    cfg.shared.history = later ++ (p, ⟨.claim name id, answer⟩) :: earlier →
      (answer.1 = true ↔ ∃ hook, hook.id = id ∧ Live earlier name hook)
  /-- A listener that a dispatch reaches is invoked by it if and only if its claim was won. -/
  invoked : ∀ p, Rests cfg p → ∀ name id answer,
    ⟨.claim name id, answer⟩ ∈ cfg.shared.performed p →
      (id ∈ called (cfg.shared.performed p) ↔ answer.1 = true)
  /-- Nobody invokes a listener twice in one dispatch, or without a claim. -/
  justified : ∀ p, (called (cfg.shared.performed p)).Nodup ∧
    ∀ id ∈ called (cfg.shared.performed p), id ∈ granted (cfg.shared.performed p)
  /-- A once listener is invoked by the one dispatch whose claim unregistered it. -/
  onceInvoked : ∀ name hook, (name, hook) ∈ registrations cfg.shared.history → hook.once = true →
    ∀ p, hook.id ∈ called (cfg.shared.performed p) →
      ⟨.claim name hook.id, (true, true)⟩ ∈ cfg.shared.performed p ∧
        ∀ q, hook.id ∈ called (cfg.shared.performed q) → q = p
  /-- A removal that is over leaves nothing of its listener in the store or in the journal; it
  answers what its own access to the store answered. -/
  removed : ∀ p registration answer,
    cfg.shared.origin p = some (.removeRegistration registration) →
      cfg.pool p = some (.pure (.removed answer)) →
        (⟨.remove registration.listener.event registration.listener.id, answer⟩ : Performed V) ∈
            cfg.shared.log p ∧
          (registration.listener.event, registration.listener.id) ∈
            removals cfg.shared.history ∧
          cfg.shared.state.events.find registration.listener.event registration.listener.id =
            none ∧
          Gone cfg.shared.state registration.owner registration.cleanup
  /-- A drain that is over has removed whatever its fiber had registered when it looked, or another
  drain that took the cleanup is about to. -/
  drained : ∀ p owner, cfg.shared.origin p = some (.drainDisposables owner) →
    cfg.pool p = some (.pure .drained) → ∃ later earlier, ∃ tokens : List DisposableToken,
      cfg.shared.history = later ++ (p, ⟨.tokens owner, tokens⟩) :: earlier ∧
      ∀ registration ∈ issues earlier, registration.owner = owner →
        Gone cfg.shared.state owner registration.cleanup ∧
        ((registration.listener.event, registration.listener.id) ∈ removals cfg.shared.history ∨
          ∃ q next, cfg.pool q =
            some (.act (.remove registration.listener.event registration.listener.id) next))
  /-- Nothing is reported twice. -/
  reportedOnce : (cfg.shared.state.records.filterMap unregisteredRecord).Nodup
  /-- What was removed, and nothing else, is reported, or its remover is about to. -/
  reported : ∀ occurrence, occurrence ∈ removals cfg.shared.history ↔
    occurrence ∈ cfg.shared.state.records.filterMap unregisteredRecord ∨
      ∃ p listener next, owed (cfg.shared.performed p) = some occurrence ∧
        (listener.event, listener.id) = occurrence ∧ cfg.pool p =
          some (.act (.publish (.listenerRegistration .unregistered listener)) next)

theorem removals_eq_collected (s : Record V) :
    removals s.history = (s.collected removedOf).map Prod.snd := by
  unfold removals Recorded.collected
  rw [List.map_filterMap]
  congr 1
  funext row
  cases removedOf row.2 <;> rfl

theorem reports_eq_collected {s : Record V} (h : Ledger s) :
    s.state.records.filterMap unregisteredRecord = (s.collected unregisteredOf).map Prod.snd := by
  rw [h.records, List.filterMap_filterMap]
  unfold Recorded.collected
  rw [List.map_filterMap]
  congr 1
  funext row
  rw [unregisteredOf_eq]
  cases (publishedOf row.2).bind unregisteredRecord <;> rfl

theorem mem_removals_iff {s : Record V} {occurrence : String × ListenerRegistrationId} :
    occurrence ∈ removals s.history ↔
      ∃ p, occurrence ∈ (s.performed p).filterMap removedOf := by
  rw [removals_eq_collected, List.mem_map]
  constructor
  · rintro ⟨⟨p, found⟩, hrow, rfl⟩
    exact ⟨p, Recorded.mem_filterMap_performed.mpr hrow⟩
  · rintro ⟨p, hmem⟩
    exact ⟨(p, occurrence), Recorded.mem_filterMap_performed.mp hmem, rfl⟩

theorem mem_reports_iff {s : Record V} (h : Ledger s)
    {occurrence : String × ListenerRegistrationId} :
    occurrence ∈ s.state.records.filterMap unregisteredRecord ↔
      ∃ p, occurrence ∈ (s.performed p).filterMap unregisteredOf := by
  rw [reports_eq_collected h, List.mem_map]
  constructor
  · rintro ⟨⟨p, found⟩, hrow, rfl⟩
    exact ⟨p, Recorded.mem_filterMap_performed.mpr hrow⟩
  · rintro ⟨p, hmem⟩
    exact ⟨(p, occurrence), Recorded.mem_filterMap_performed.mp hmem, rfl⟩

/-- Two members that yield the same are the same where nothing is yielded twice. -/
theorem eq_of_nodup_filterMap {α β : Type} {f : α → Option β} {l : List α}
    (h : (l.filterMap f).Nodup) {a b : α} (ha : a ∈ l) (hb : b ∈ l) {x : β} (hfa : f a = some x)
    (hfb : f b = some x) : a = b := by
  induction l with
  | nil => cases ha
  | cons c l ih =>
      have hrest : ∀ {d}, d ∈ l → f d = some x → x ∈ l.filterMap f := fun hd hfd =>
        List.mem_filterMap.mpr ⟨_, hd, hfd⟩
      rcases List.mem_cons.mp ha with rfl | ha'
      · rcases List.mem_cons.mp hb with rfl | hb'
        · rfl
        · rw [List.filterMap_cons_some hfa] at h
          exact absurd (hrest hb' hfb) (List.nodup_cons.mp h).1
      · rcases List.mem_cons.mp hb with rfl | hb'
        · rw [List.filterMap_cons_some hfb] at h
          exact absurd (hrest ha' hfa) (List.nodup_cons.mp h).1
        · have hsub : (l.filterMap f).Sublist ((c :: l).filterMap f) :=
            (List.sublist_cons_self c l).filterMap f
          exact ih (h.sublist hsub) ha' hb'

theorem mem_granted_iff {events : List (Performed V)} {id : ListenerRegistrationId} :
    id ∈ granted events ↔ ∃ name unregistered,
      ⟨.claim name id, (true, unregistered)⟩ ∈ events := by
  unfold granted
  rw [List.mem_filterMap]
  constructor
  · rintro ⟨⟨op, r⟩, hevent, hgranted⟩
    cases op with
    | claim name other =>
        rcases r with ⟨claimed, unregistered⟩
        cases claimed
        · cases hgranted
        · cases hgranted
          exact ⟨name, unregistered, hevent⟩
    | remove | preflight | publish | call | ended | moved | resumed | tail | tailEnded
    | discard | unreachable | pushGated | removeDisposable | tokens | deliver | reported
    | setGate => cases hgranted
  · rintro ⟨name, unregistered, hevent⟩
    exact ⟨_, hevent, rfl⟩

/-- In every run claims are exclusive, and every removal is reported once. -/
theorem claims_exclusive {cfg : Config (Record V) (Op V) Op.Ret (Answer V)}
    (h : (machine V).recorded.Reachable Machine.anyRun cfg) : Exclusive cfg := by
  have hledger := Ledger.of_reachable h
  have hpath := fun p => (along_of_reachable h p).1
  have hcalled : ∀ p, ∀ id ∈ called (cfg.shared.performed p),
      id ∈ granted (cfg.shared.performed p) := fun p =>
    (called_initial_granted _ (hpath p)).subset
  have hreached : ∀ p, (reached (cfg.shared.performed p)).Nodup := fun p =>
    have hselected := reached_initial_selected _ (hpath p)
    hselected.2.sublist hselected.1.sublist
  have hgranted : ∀ p, (granted (cfg.shared.performed p)).Nodup := fun p =>
    (hreached p).sublist (granted_sublist_reached _)
  have hremoved : ((cfg.shared.collected removedOf).map Prod.snd).Nodup := by
    rw [← removals_eq_collected]
    exact hledger.once
  have hinitial : ∀ p, (cfg.shared.performed p).filterMap unregisteredOf <+:
      (cfg.shared.performed p).filterMap removedOf := fun p =>
    ⟨_, (reported_and_owed _ (hpath p)).symm⟩
  constructor
  case fresh => exact hledger.fresh
  case once => exact hledger.once
  case accounted =>
    intro name hook hmem
    rw [Option.isSome_iff_exists]
    constructor
    · rintro ⟨found, hfind⟩
      have hlive := (hledger.find name hook.id found).mp hfind
      rw [← hlive.1]
      exact hlive.2.2
    · intro hnot
      exact ⟨hook, (hledger.find name hook.id hook).mpr ⟨rfl, hmem, hnot⟩⟩
  case claimed =>
    exact fun later p name id answer earlier hsplit =>
      (hledger.claimed later p name id answer earlier hsplit).1
  case invoked =>
    intro p hrests name id answer hmem
    rw [called_of_rests h hrests, mem_granted_iff]
    constructor
    · rintro ⟨other, unregistered, hother⟩
      -- a dispatch tries a hook once, so this is the same claim
      have hsame := eq_of_nodup_filterMap (f := reachedOf) (hreached p) hmem hother rfl rfl
      cases hsame
      rfl
    · intro hwon
      rcases answer with ⟨claimed, unregistered⟩
      obtain rfl : claimed = true := hwon
      exact ⟨name, unregistered, hmem⟩
  case justified =>
    exact fun p => ⟨(hgranted p).sublist (called_initial_granted _ (hpath p)).sublist, hcalled p⟩
  case onceInvoked =>
    intro name hook hmem honce
    -- a claim that is won on a once hook is the one that removes it
    have hclaim : ∀ p, hook.id ∈ called (cfg.shared.performed p) →
        ⟨.claim name hook.id, (true, true)⟩ ∈ cfg.shared.performed p := by
      intro p hinvoked
      rcases mem_granted_iff.mp (hcalled p _ hinvoked) with ⟨other, unregistered, hother⟩
      rcases List.append_of_mem (Recorded.mem_performed.mp hother) with ⟨later, earlier, hsplit⟩
      have hanswer := hledger.claimed later p other hook.id _ earlier hsplit
      rcases hanswer.1.mp rfl with ⟨found, hid, hlive⟩
      have hfound : (other, found) ∈ registrations cfg.shared.history := by
        rw [hsplit, registrations, List.filterMap_append]
        refine List.mem_append_right _ ?_
        exact ((List.sublist_cons_self _ earlier).filterMap _).subset hlive.1
      rcases hledger.hook_unique hfound hmem hid with ⟨rfl, rfl⟩
      have hgone := hanswer.2 found hid hlive
      simp only [honce] at hgone
      rw [hgone] at hother
      exact hother
    intro p hinvoked
    refine ⟨hclaim p hinvoked, fun q hother => ?_⟩
    have hp : (name, hook.id) ∈ (cfg.shared.performed p).filterMap removedOf :=
      List.mem_filterMap.mpr ⟨_, hclaim p hinvoked, rfl⟩
    have hq : (name, hook.id) ∈ (cfg.shared.performed q).filterMap removedOf :=
      List.mem_filterMap.mpr ⟨_, hclaim q hother, rfl⟩
    exact Recorded.party_unique hremoved hq hp
  case removed => exact fun p registration answer => unregistered_of_removed h
  case drained => exact fun p owner => unregistered_of_drained h
  case reportedOnce =>
    rw [reports_eq_collected hledger]
    refine Recorded.nodup_collected (fun p => ?_) fun p q occurrence hp hq => ?_
    · exact (Recorded.nodup_filterMap_performed hremoved p).sublist (hinitial p).sublist
    · exact Recorded.party_unique hremoved ((hinitial p).subset hp) ((hinitial q).subset hq)
  case reported =>
    intro occurrence
    rw [mem_removals_iff, mem_reports_iff hledger]
    constructor
    · rintro ⟨p, hmem⟩
      rw [reported_and_owed _ (hpath p)] at hmem
      rcases List.mem_append.mp hmem with hdone | howed
      · exact .inl ⟨p, hdone⟩
      · have howes : owed (cfg.shared.performed p) = some occurrence := by simpa using howed
        rcases publishing_of_owed h howes with ⟨listener, next, hpool, heq⟩
        exact .inr ⟨p, listener, next, howes, heq, hpool⟩
    · rintro (⟨p, hdone⟩ | ⟨p, listener, next, howes, -⟩)
      · exact ⟨p, (hinitial p).subset hdone⟩
      · refine ⟨p, ?_⟩
        rw [reported_and_owed _ (hpath p), howes]
        simp

/-! ### Two dispatches and a removal compete for one once listener -/

def sampleEvent : Event where
  NAME := "ping"
  contract := { args := 0, output := 1 }

/-- An Around that gives back what its continuation gave it. -/
def passOn {V : Type} : Except InvocationFailure V → Finish V
  | .ok output => { ending := .returned output }
  | .error failure => { ending := .carried failure }

/-- User code that returns at once. -/
def idle : Choice Unit where
  ended
    | .observer => { ending := .returned () }
    | .responder => { ending := .returned none }
    | .mapper => { ending := .returned () }
    | .around => { ending := .returned () }
  moved := .ends { ending := .returned () }
  resumed := passOn
  tailEnded := .returned ()

def sampleRegistration : ListenerRegistration where
  listener :=
    { id := 0, event := "ping", role := .observer, scope := [], options := { once := true } }
  owner := 5
  cleanup := 1

/-- Both dispatches have the listener in their snapshot when the removal starts. -/
def claimsRun : List (Label (Routine Unit) (Choice Unit)) :=
  [.enter 0 (.setGate 5 true), .step 0 9 idle,
    .enter 1 (.registerListener 5 [] sampleEvent .observer { once := true }),
    .step 1 9 idle, .step 1 9 idle, .step 1 9 idle,
    .enter 2 (.emit 0 sampleEvent .unscoped ()), .step 2 9 idle,
    .enter 3 (.emitParallel 0 sampleEvent .unscoped ()), .step 3 9 idle,
    .enter 4 (.removeRegistration sampleRegistration),
    .step 3 9 idle, .step 2 9 idle, .step 4 9 idle, .step 3 9 idle, .step 2 9 idle,
    .step 3 9 idle, .step 4 9 idle, .step 2 9 idle]

theorem claimsRun_enabled : ((machine Unit).recorded.run (fun _ _ _ _ => true) claimsRun
    (machine Unit).recorded.start).isSome = true := by
  decide +kernel

theorem claims_exclusive_sample : Exclusive (((machine Unit).recorded.run (fun _ _ _ _ => true)
    claimsRun (machine Unit).recorded.start).get claimsRun_enabled) :=
  claims_exclusive (Machine.Reachable.of_run _ (fun _ _ _ _ _ => trivial) claimsRun .start
    (Option.some_get _).symm)

end Events
end CordisCore
