import CordisCore.Events.Effective
import CordisCore.Events.Endings

/-!
# Notifications and queries — the three loops against their references

For each listener of the snapshot, in effective order, stands what came of its
claim and of its callback.  A reference says which of them are tried and what
the dispatch answers.
-/

namespace CordisCore
namespace Events

open Interleaving

variable {V : Type}

/-! ## References -/

/-- A selected hook, whether its claim is won, and how its callback ends if it is invoked. -/
structure Listener (V : Type) where
  hook : HookSnap
  claimable : Bool
  outcome : Except InvocationFailure (hook.kind.role.Value V)

namespace Listener

/-- The failure that the dispatch sees: it names the hook unless it names another already. -/
def failure? (listener : Listener V) : Option InvocationFailure :=
  match listener.outcome with
  | .ok _ => none
  | .error failure => some (failure.correlate listener.hook.id)

def answer? (listener : Listener V) : Option V :=
  match listener.outcome with
  | .ok value =>
      match adapt listener.hook.kind.role value with
      | .responder answer => answer
      | _ => none
  | .error _ => none

/-- What ends an `emit` here: a failure. -/
def emitVerdict (listener : Listener V) : Option (Except DispatchError Unit) :=
  listener.failure?.map fun failure => .error (.invocation failure)

/-- What ends a `query` here: a failure, or an answer. -/
def queryVerdict (listener : Listener V) : Option (Except DispatchError (QueryOutcome V)) :=
  match listener.failure? with
  | some failure => some (.error (.invocation failure))
  | none => listener.answer?.map fun output => .ok (.answer output)

theorem queryVerdict_none {hook : HookSnap} (claimable : Bool) {value : hook.kind.role.Value V}
    (h : adapt hook.kind.role value = .observer ∨
      adapt hook.kind.role value = .responder none) :
    queryVerdict ⟨hook, claimable, .ok value⟩ = none := by
  rcases h with h | h <;> simp [queryVerdict, failure?, answer?, h]

theorem queryVerdict_some {hook : HookSnap} (claimable : Bool) {value : hook.kind.role.Value V}
    {output : V} (h : adapt hook.kind.role value = .responder (some output)) :
    queryVerdict ⟨hook, claimable, .ok value⟩ = some (.ok (.answer output)) := by
  simp [queryVerdict, failure?, answer?, h]

/-- A hook that was not invoked; its callback might have ended in any way. -/
def unasked (hook : HookSnap) : Listener V where
  hook := hook
  claimable := false
  outcome := .error (.returned "")

end Listener

/-- The listeners that are still registered when the dispatch comes to them. -/
def live (listeners : List (Listener V)) : List (Listener V) :=
  listeners.filter Listener.claimable

/-- The dispatch ends at this listener. -/
def decides {α : Type} (verdict : Listener V → Option α) (listener : Listener V) : Bool :=
  listener.claimable && (verdict listener).isSome

/-- The list up to and including the first member that stops. -/
def upTo {α : Type} (stops : α → Bool) : List α → List α
  | [] => []
  | a :: l => if stops a then [a] else a :: upTo stops l

/-- The first verdict decides. -/
def firstVerdict {α : Type} (verdict : Listener V → Option α) (otherwise : α)
    (listeners : List (Listener V)) : α :=
  ((live listeners).findSome? verdict).getD otherwise

/-- All failures, in effective order. -/
def emitParallelReference (listeners : List (Listener V)) : Except DispatchError Unit :=
  match (live listeners).filterMap Listener.failure? with
  | [] => .ok ()
  | failures => .error (.parallel failures)

/-! ## What the accesses of a dispatch say -/

/-- Who was tried to be claimed, and with what result. -/
def claimOf : Performed V → Option (ListenerRegistrationId × Bool)
  | ⟨.claim _ id, answer⟩ => some (id, answer.1)
  | _ => none

/-- Who was invoked with what. -/
def callOf : Performed V → Option (HookSnap × V)
  | ⟨.call hook payload, _⟩ => some (hook, payload)
  | _ => none

/-- How the callback of a hook ended. -/
def endingOf : Performed V →
    Option ((hook : HookSnap) × Except InvocationFailure (hook.kind.role.Value V))
  | ⟨.ended hook, finish⟩ => some ⟨hook, Finish.outcome finish⟩
  | _ => none

/-- These listeners were claimed in this order, and those that could be were invoked in it. -/
structure Tries (args : V) (listeners : List (Listener V)) (events : List (Performed V)) :
    Prop where
  claims : events.filterMap claimOf =
    listeners.map fun listener => (listener.hook.id, listener.claimable)
  calls : events.filterMap callOf = (live listeners).map fun listener => (listener.hook, args)
  endings : events.filterMap endingOf =
    (live listeners).map fun listener => ⟨listener.hook, listener.outcome⟩

/-- The selected listeners up to the first verdict were tried, and that is the answer. -/
def Delivers {α : Type} (verdict : Listener V → Option α) (otherwise : α) (args : V)
    (hooks : List HookSnap) (result : α) (events : List (Performed V)) : Prop :=
  ∃ listeners : List (Listener V), listeners.map Listener.hook = hooks ∧
    Tries args (upTo (decides verdict) listeners) events ∧
      result = firstVerdict verdict otherwise listeners

/-- All were claimed and then all invoked. -/
structure DeliversAll (args : V) (hooks : List HookSnap) (result : Except DispatchError Unit)
    (events : List (Performed V)) : Prop where
  tries : ∃ listeners : List (Listener V), listeners.map Listener.hook = hooks ∧
    Tries args listeners events ∧ result = emitParallelReference listeners
  claimedFirst : ∃ before after, events = before ++ after ∧ before.filterMap callOf = [] ∧
    after.filterMap claimOf = []

/-! ### Lists of listeners -/

theorem live_append (listeners more : List (Listener V)) :
    live (listeners ++ more) = live listeners ++ live more :=
  List.filter_append ..

theorem live_cons (listener : Listener V) (listeners : List (Listener V)) :
    live (listener :: listeners) =
      if listener.claimable then listener :: live listeners else live listeners := by
  unfold live
  rw [List.filter_cons]

namespace Tries

theorem append {args : V} {listeners more : List (Listener V)} {events after : List (Performed V)}
    (h : Tries args listeners events) (h' : Tries args more after) :
    Tries args (listeners ++ more) (events ++ after) where
  claims := by rw [List.filterMap_append, h.claims, h'.claims, List.map_append]
  calls := by rw [List.filterMap_append, h.calls, h'.calls, live_append, List.map_append]
  endings := by rw [List.filterMap_append, h.endings, h'.endings, live_append, List.map_append]

/-- Destroying snapshots tries nobody. -/
theorem discard (args : V) (hooks : List HookSnap) (said : List String) :
    Tries args [] [⟨.discard hooks, said⟩] :=
  ⟨rfl, rfl, rfl⟩

theorem unclaimed (args : V) (event : String) (hook : HookSnap) (unregistered : Bool) :
    Tries args [Listener.unasked hook] (claimPath event hook false unregistered) := by
  cases unregistered <;> exact ⟨rfl, rfl, rfl⟩

theorem invoked (args : V) (event : String) (hook : HookSnap) (unregistered : Bool)
    (finish : Finish (hook.kind.role.Value V)) :
    Tries args [⟨hook, true, finish.outcome⟩] (claimPath event hook true unregistered ++
      [⟨.call hook args, ()⟩, ⟨.ended hook, finish⟩]) := by
  cases unregistered <;> exact ⟨rfl, rfl, rfl⟩

end Tries

/-! ### The loops that end at a verdict -/

namespace Delivers

variable {α : Type} {verdict : Listener V → Option α} {otherwise result : α} {args : V}
variable {hook : HookSnap} {hooks : List HookSnap} {events : List (Performed V)}

theorem nil : Delivers verdict otherwise args [] otherwise [] :=
  ⟨[], rfl, ⟨rfl, rfl, rfl⟩, rfl⟩

/-- A listener without a verdict is passed over. -/
theorem cons {listener : Listener V} {first : List (Performed V)}
    (h : Delivers verdict otherwise args hooks result events)
    (hfirst : Tries args [listener] first) (hnot : decides verdict listener = false) :
    Delivers verdict otherwise args (listener.hook :: hooks) result (first ++ events) := by
  rcases h with ⟨listeners, rfl, htries, rfl⟩
  refine ⟨listener :: listeners, rfl, ?_, ?_⟩
  · rw [upTo, if_neg (by rw [hnot]; nofun)]
    exact hfirst.append htries
  · unfold firstVerdict
    rw [live_cons]
    split
    · rename_i hclaimable
      have hnone : verdict listener = none := by
        simpa [decides, hclaimable] using hnot
      rw [List.findSome?_cons, hnone]
    · rfl

/-- The first verdict leaves the rest alone. -/
theorem stop {listener : Listener V} {first : List (Performed V)}
    (hfirst : Tries args [listener] first) (hclaimable : listener.claimable = true)
    (hverdict : verdict listener = some result) (hooks : List HookSnap) :
    Delivers verdict otherwise args (listener.hook :: hooks) result first := by
  refine ⟨listener :: hooks.map Listener.unasked, ?_, ?_, ?_⟩
  · rw [List.map_cons, List.map_map]
    congr 1
    exact List.map_id'' (fun _ => rfl) hooks
  · have hdecides : decides verdict listener = true := by simp [decides, hclaimable, hverdict]
    rw [upTo, if_pos hdecides]
    exact hfirst
  · unfold firstVerdict
    rw [live_cons, if_pos hclaimable, List.findSome?_cons, hverdict]
    rfl

end Delivers

theorem ends_invokeListener (hook : HookSnap) (payload : V) (before : List (Performed V)) :
    Ends (invokeListener hook payload) (fun outcome all => ∃ finish,
      outcome = correlated hook.id (Finish.outcome finish) ∧
        all = before ++ [⟨.call hook payload, ()⟩, ⟨.ended hook, finish⟩]) before := by
  refine Program.Along.bind (Program.Along.bind (ends_perform fun () => ?_))
  refine Program.Along.bind (ends_perform fun finish => ?_)
  refine ⟨finish, rfl, ?_⟩
  simp

/-- What is left of a loop that has performed `before`. -/
abbrev Loops {α : Type} (verdict : Listener V → Option α) (otherwise : α) (args : V)
    (hooks : List HookSnap) (before : List (Performed V)) (result : α)
    (all : List (Performed V)) : Prop :=
  ∃ events, all = before ++ events ∧ Delivers verdict otherwise args hooks result events

section Loops

variable {α : Type} {verdict : Listener V → Option α} {otherwise : α} {args : V}
variable {hooks : List HookSnap}

/-- The first listener was passed over and the loop goes on. -/
theorem ends_passed {listener : Listener V} {x : Prog V α} {before first : List (Performed V)}
    (h : Ends x (Loops verdict otherwise args hooks (before ++ first)) (before ++ first))
    (hfirst : Tries args [listener] first) (hnot : decides verdict listener = false) :
    Ends x (Loops verdict otherwise args (listener.hook :: hooks) before) (before ++ first) := by
  refine h.mono ?_
  rintro result _ ⟨events, rfl, hdelivers⟩
  exact ⟨first ++ events, List.append_assoc .., hdelivers.cons hfirst hnot⟩

theorem ends_unclaimed (event : String) (hook : HookSnap) {x : Prog V α}
    (before : List (Performed V)) (unregistered : Bool)
    (h : ∀ before, Ends x (Loops verdict otherwise args hooks before) before) :
    Ends (do dropUnclaimedHooks [hook]; x) (Loops verdict otherwise args (hook :: hooks) before)
      (before ++ claimPath event hook false unregistered) := by
  refine Program.Along.bind (Program.Along.bind (ends_perform fun said => ?_))
  have hfirst := (Tries.unclaimed args event hook unregistered).append
    (Tries.discard args [hook] said)
  have hrest := h (before ++ (claimPath event hook false unregistered ++ [⟨.discard [hook], said⟩]))
  rw [List.append_assoc]
  have hpassed : decides verdict (Listener.unasked hook) = false := rfl
  exact ends_passed hrest hfirst hpassed

/-- The first listener has the verdict and the snapshots of the others are destroyed. -/
theorem ends_stopped {listener : Listener V} {result : α} {before first : List (Performed V)}
    (hfirst : Tries args [listener] first) (hclaimable : listener.claimable = true)
    (hverdict : verdict listener = some result) :
    Ends (do dropUnclaimedHooks hooks; pure result)
      (Loops verdict otherwise args (listener.hook :: hooks) before) (before ++ first) := by
  refine Program.Along.bind (Program.Along.bind (ends_perform fun said => ?_))
  have hstop := hfirst.append (Tries.discard args hooks said)
  exact ⟨_, List.append_assoc .., Delivers.stop hstop hclaimable hverdict hooks⟩

end Loops

theorem ends_emitHooks (event : String) (args : V) (hooks : List HookSnap) : ∀ before,
    Ends (emitHooks event args hooks) (Loops Listener.emitVerdict (.ok ()) args hooks before)
      before := by
  induction hooks with
  | nil => exact fun before => ⟨[], (List.append_nil _).symm, .nil⟩
  | cons hook hooks ih =>
      intro before
      refine Program.Along.bind ((ends_claimHook event hook before).mono ?_)
      rintro claimed _ ⟨unregistered, rfl⟩
      cases claimed with
      | false => exact ends_unclaimed event hook before unregistered ih
      | true =>
          simp only [if_true]
          split
          · exact ends_unreachable
          · refine Program.Along.bind ((ends_invokeListener hook args _).mono ?_)
            rintro _ _ ⟨finish, rfl, rfl⟩
            have hfirst := Tries.invoked args event hook unregistered finish
            rw [List.append_assoc]
            cases hout : Finish.outcome finish with
            | error failure =>
                rw [hout] at hfirst
                exact ends_stopped hfirst rfl rfl
            | ok value =>
                rw [hout] at hfirst
                exact ends_passed (ih _) hfirst rfl

/-- The loop of `query` goes on past an observer and past a responder without an answer. -/
theorem ends_answered {α : Type} {role : ListenerRole} {fed : CallbackValue V} {pass : Prog V α}
    {answer : V → Prog V α} {post : α → List (Performed V) → Prop} {before : List (Performed V)}
    (hpass : fed = .observer ∨ fed = .responder none → Ends pass post before)
    (hanswer : ∀ output, fed = .responder (some output) → Ends (answer output) post before) :
    Ends (match role, fed with
      | .observer, .observer => pass
      | .responder, .responder none => pass
      | .responder, .responder (some output) => answer output
      | _, _ => unreachable) post before := by
  split
  · exact hpass (.inl rfl)
  · exact hpass (.inr rfl)
  · exact hanswer _ rfl
  · exact ends_unreachable

theorem ends_queryHooks (event : String) (args : V) (hooks : List HookSnap) : ∀ before,
    Ends (queryHooks event args hooks)
      (Loops Listener.queryVerdict (.ok .miss) args hooks before) before := by
  induction hooks with
  | nil => exact fun before => ⟨[], (List.append_nil _).symm, .nil⟩
  | cons hook hooks ih =>
      intro before
      refine Program.Along.bind ((ends_claimHook event hook before).mono ?_)
      rintro claimed _ ⟨unregistered, rfl⟩
      cases claimed with
      | false => exact ends_unclaimed event hook before unregistered ih
      | true =>
          simp only [if_true]
          split
          · exact ends_unreachable
          · rename_i role hplain
            refine Program.Along.bind ((ends_invokeListener hook args _).mono ?_)
            rintro _ _ ⟨finish, rfl, rfl⟩
            have hfirst := Tries.invoked args event hook unregistered finish
            rw [List.append_assoc]
            cases hout : Finish.outcome finish with
            | error failure =>
                rw [hout] at hfirst
                exact ends_stopped hfirst rfl rfl
            | ok value =>
                rw [hout] at hfirst
                refine ends_answered (fun hadapt => ?_) fun output hadapt => ?_
                · have hverdict := Listener.queryVerdict_none true hadapt
                  exact ends_passed (ih _) hfirst (by simp [decides, hverdict])
                · exact ends_stopped hfirst rfl (Listener.queryVerdict_some true hadapt)

/-! ### The dispatch that claims and invokes all -/

/-- How a callback ended, and which. -/
abbrev Ended (V : Type) := (hook : HookSnap) × Except InvocationFailure (hook.kind.role.Value V)

/-- The claims of all hooks, with what came of them. -/
structure ClaimsAll (hooks : List HookSnap) (flags : List (HookSnap × Bool))
    (events : List (Performed V)) : Prop where
  hooks : flags.map Prod.fst = hooks
  claims : events.filterMap claimOf = flags.map fun flag => (flag.1.id, flag.2)
  calls : events.filterMap callOf = []
  endings : events.filterMap endingOf = []

theorem ends_claimHooks (event : String) (hooks : List HookSnap) : ∀ before : List (Performed V),
    Ends (claimHooks event hooks) (fun claimed all => ∃ flags events, all = before ++ events ∧
      claimed = (flags.filter Prod.snd).map Prod.fst ∧ ClaimsAll hooks flags events) before := by
  induction hooks with
  | nil => exact fun before => ⟨[], [], (List.append_nil _).symm, rfl, rfl, rfl, rfl, rfl⟩
  | cons hook hooks ih =>
      intro before
      refine Program.Along.bind ((ends_claimHook event hook before).mono ?_)
      rintro claimed _ ⟨unregistered, rfl⟩
      cases claimed with
      | true =>
          refine Program.Along.bind ((ih _).mono ?_)
          rintro _ _ ⟨flags, events, rfl, rfl, hall⟩
          refine ⟨(hook, true) :: flags, claimPath event hook true unregistered ++ events,
            List.append_assoc .., rfl, ?_⟩
          constructor
          case hooks => rw [List.map_cons, hall.hooks]
          case claims =>
            rw [List.filterMap_append, hall.claims]
            cases unregistered <;> rfl
          case calls =>
            rw [List.filterMap_append, hall.calls]
            cases unregistered <;> rfl
          case endings =>
            rw [List.filterMap_append, hall.endings]
            cases unregistered <;> rfl
      | false =>
          refine Program.Along.bind (Program.Along.bind (ends_perform fun said => ?_))
          refine (ih _).mono ?_
          rintro _ _ ⟨flags, events, rfl, rfl, hall⟩
          refine ⟨(hook, false) :: flags,
            claimPath event hook false unregistered ++ (⟨.discard [hook], said⟩ :: events), ?_, rfl,
            ?_⟩
          · simp
          constructor
          case hooks => rw [List.map_cons, hall.hooks]
          case claims =>
            rw [List.filterMap_append, List.filterMap_cons_none rfl, hall.claims]
            cases unregistered <;> rfl
          case calls =>
            rw [List.filterMap_append, List.filterMap_cons_none rfl, hall.calls]
            cases unregistered <;> rfl
          case endings =>
            rw [List.filterMap_append, List.filterMap_cons_none rfl, hall.endings]
            cases unregistered <;> rfl

/-- The calls of these hooks. -/
structure CallsAll (args : V) (hooks : List HookSnap) (events : List (Performed V)) : Prop where
  claims : events.filterMap claimOf = []
  calls : events.filterMap callOf = hooks.map fun hook => (hook, args)
  endings : events.filterMap endingOf = []

theorem ends_callHooks (args : V) (hooks : List HookSnap) : ∀ before,
    Ends (callHooks args hooks)
      (fun _ all => ∃ events, all = before ++ events ∧ CallsAll args hooks events) before := by
  induction hooks with
  | nil => exact fun before => ⟨[], (List.append_nil _).symm, rfl, rfl, rfl⟩
  | cons hook hooks ih =>
      intro before
      unfold callHooks
      split
      · exact ends_unreachable
      · refine Program.Along.bind (ends_perform fun () => (ih _).mono ?_)
        rintro _ _ ⟨events, rfl, hall⟩
        refine ⟨⟨.call hook args, ()⟩ :: events, List.append_assoc .., ?_, ?_, ?_⟩
        · rw [List.filterMap_cons_none rfl, hall.claims]
        · exact congrArg ((hook, args) :: ·) hall.calls
        · rw [List.filterMap_cons_none rfl, hall.endings]

def failureOf (ended : Ended V) : Option InvocationFailure :=
  Listener.failure? ⟨ended.1, true, ended.2⟩

theorem failureOf_ended (listener : Listener V) :
    failureOf ⟨listener.hook, listener.outcome⟩ = listener.failure? := by
  unfold failureOf Listener.failure?
  cases listener.outcome <;> rfl

/-- The endings of these hooks, and the failures among them. -/
structure AwaitsAll (hooks : List HookSnap) (failures : List InvocationFailure)
    (events : List (Performed V)) : Prop where
  hooks : (events.filterMap endingOf).map Sigma.fst = hooks
  claims : events.filterMap claimOf = []
  calls : events.filterMap callOf = []
  failures : failures = (events.filterMap endingOf).filterMap failureOf

theorem endings_cons (hook : HookSnap) (finish : Op.Ret (.ended hook : Op V))
    (events : List (Performed V)) : (⟨.ended hook, finish⟩ :: events).filterMap endingOf =
      ⟨hook, Finish.outcome finish⟩ :: events.filterMap endingOf :=
  rfl

theorem AwaitsAll.cons {hook : HookSnap} {hooks : List HookSnap}
    {failures : List InvocationFailure} {events : List (Performed V)}
    (h : AwaitsAll hooks failures events) (finish : Op.Ret (.ended hook : Op V)) :
    AwaitsAll (hook :: hooks) ((failureOf ⟨hook, Finish.outcome finish⟩).toList ++ failures)
      (⟨.ended hook, finish⟩ :: events) where
  hooks := by
    rw [endings_cons, List.map_cons, h.hooks]
  claims := by
    rw [List.filterMap_cons_none rfl, h.claims]
  calls := by
    rw [List.filterMap_cons_none rfl, h.calls]
  failures := by
    rw [h.failures, endings_cons]
    cases hfailure : failureOf ⟨hook, Finish.outcome finish⟩ with
    | none => exact (List.filterMap_cons_none hfailure).symm
    | some failure => exact (List.filterMap_cons_some hfailure).symm

theorem ends_awaitHooks (hooks : List HookSnap) : ∀ before : List (Performed V),
    Ends (awaitHooks hooks) (fun failures all => ∃ events,
      all = before ++ events ∧ AwaitsAll hooks failures events) before := by
  induction hooks with
  | nil => exact fun before => ⟨[], (List.append_nil _).symm, rfl, rfl, rfl, rfl⟩
  | cons hook hooks ih =>
      intro before
      refine Program.Along.bind (ends_perform fun finish => ?_)
      refine Program.Along.bind ((ih _).mono ?_)
      rintro failures _ ⟨events, rfl, hall⟩
      have hcons := hall.cons finish
      cases hout : Finish.outcome finish with
      | ok value =>
          rw [hout] at hcons
          exact ⟨_, List.append_assoc .., hcons⟩
      | error failure =>
          rw [hout] at hcons
          exact ⟨_, List.append_assoc .., hcons⟩

/-- Claims and endings of the same hooks are one list of listeners. -/
theorem exists_listeners (flags : List (HookSnap × Bool)) : ∀ outcomes : List (Ended V),
    outcomes.map Sigma.fst = (flags.filter Prod.snd).map Prod.fst →
      ∃ listeners : List (Listener V),
        listeners.map (fun listener => (listener.hook, listener.claimable)) = flags ∧
        (live listeners).map (fun listener => ⟨listener.hook, listener.outcome⟩) = outcomes := by
  induction flags with
  | nil =>
      intro outcomes h
      exact ⟨[], rfl, (List.map_eq_nil_iff.mp h).symm⟩
  | cons flag flags ih =>
      rcases flag with ⟨hook, claimable⟩
      intro outcomes h
      cases claimable with
      | false =>
          rcases ih outcomes h with ⟨listeners, rfl, hlive⟩
          exact ⟨Listener.unasked hook :: listeners, rfl, hlive⟩
      | true =>
          cases outcomes with
          | nil => cases h
          | cons outcome outcomes =>
              rcases outcome with ⟨other, outcome⟩
              rw [List.filter_cons_of_pos rfl, List.map_cons, List.map_cons, List.cons.injEq] at h
              rcases h with ⟨hsame, hrest⟩
              subst hsame
              rcases ih outcomes hrest with ⟨listeners, rfl, rfl⟩
              exact ⟨⟨other, true, outcome⟩ :: listeners, rfl, rfl⟩

/-- Claim all, invoke all, collect the failures. -/
theorem ends_claimedHooks (event : String) (args : V) (hooks : List HookSnap)
    (before : List (Performed V)) :
    Ends (do
      let claimed ← claimHooks event hooks
      callHooks args claimed
      let failures ← awaitHooks claimed
      if failures.isEmpty then pure (.ok ()) else pure (.error (.parallel failures)))
      (fun result all => ∃ events, all = before ++ events ∧ DeliversAll args hooks result events)
      before := by
  refine Program.Along.bind ((ends_claimHooks event hooks before).mono ?_)
  rintro _ _ ⟨flags, claims, rfl, rfl, hclaims⟩
  refine Program.Along.bind ((ends_callHooks args _ _).mono ?_)
  rintro _ _ ⟨calls, rfl, hcalls⟩
  refine Program.Along.bind ((ends_awaitHooks _ _).mono ?_)
  rintro failures _ ⟨endings, rfl, hendings⟩
  rcases exists_listeners flags _ hendings.hooks with ⟨listeners, rfl, hlive⟩
  have hcalled : (((listeners.map fun listener => (listener.hook, listener.claimable)).filter
      Prod.snd).map Prod.fst) = (live listeners).map Listener.hook := by
    rw [List.filter_map, List.map_map]
    rfl
  -- each phase contributes one kind of event: claims, calls, endings
  have htries : Tries args listeners (claims ++ (calls ++ endings)) := by
    constructor
    case claims =>
      rw [List.filterMap_append, List.filterMap_append, hclaims.claims, hcalls.claims,
        hendings.claims, List.append_nil, List.append_nil, List.map_map]
      rfl
    case calls =>
      rw [List.filterMap_append, List.filterMap_append, hclaims.calls, hcalls.calls,
        hendings.calls, hcalled, List.nil_append, List.append_nil, List.map_map]
      rfl
    case endings =>
      rw [List.filterMap_append, List.filterMap_append, hclaims.endings, hcalls.endings,
        List.nil_append, List.nil_append, ← hlive]
  have hfailures : failures = (live listeners).filterMap Listener.failure? := by
    rw [hendings.failures, ← hlive, List.filterMap_map]
    exact List.filterMap_congr fun listener _ => failureOf_ended listener
  have hdelivers : ∀ result, result = emitParallelReference listeners →
      ∃ events, ((before ++ claims) ++ calls) ++ endings = before ++ events ∧
        DeliversAll args hooks result events := by
    rintro _ rfl
    refine ⟨claims ++ (calls ++ endings), by simp, ⟨listeners, ?_, htries, rfl⟩, claims,
      calls ++ endings, rfl, hclaims.calls, ?_⟩
    · rw [← hclaims.hooks, List.map_map]
      rfl
    · rw [List.filterMap_append, hcalls.claims, hendings.claims]
      rfl
  cases hnone : failures with
  | nil =>
      refine hdelivers (.ok ()) ?_
      rw [emitParallelReference, ← hfailures, hnone]
  | cons failure rest =>
      refine hdelivers (.error (.parallel (failure :: rest))) ?_
      rw [emitParallelReference, ← hfailures, hnone]

/-! ## Finished dispatches -/

/-- What a dispatch that returned has performed: its preflight refused, or it delivered to the
hooks that the preflight selected. -/
inductive Finished (membership : Nat) (E : Event) (routing : Routing) (operation : EventOperation)
    {α : Type} (result : Except DispatchError α) (outcome : DispatchOutcomeKind)
    (delivers : List HookSnap → List (Performed V) → Prop) (log : List (Performed V)) : Prop where
  | refused (error : DispatchError) (first : List (Performed V))
      (preflighted : Preflighted membership E routing operation (.error error) first)
      (returned : result = .error error)
      (performed : log =
        first ++ [⟨.publish (.dispatchCompleted operation E.NAME routing .failed), ()⟩])
  | delivered (hooks : List HookSnap) (events : List (Performed V))
      (own : ∀ scope, routing = .scoped scope → scope.membership = membership)
      (performed : log = ⟨.preflight E routing operation, .ok hooks⟩ ::
        (events ++ [⟨.publish (.dispatchCompleted operation E.NAME routing outcome), ()⟩]))
      (delivery : delivers hooks events)

/-- A dispatch is a preflight, a delivery and a record of how it went. -/
theorem ends_dispatch (membership : Nat) (E : Event) (routing : Routing)
    (operation : EventOperation) {α : Type} (deliver : List HookSnap → Prog V (Except DispatchError α))
    (outcome : Except DispatchError α → DispatchOutcomeKind)
    (hfailed : ∀ error, outcome (.error error) = .failed)
    (delivers : Except DispatchError α → List HookSnap → List (Performed V) → Prop)
    (hdeliver : ∀ hooks before, Ends (deliver hooks) (fun result all => ∃ events,
      all = before ++ events ∧ delivers result hooks events) before) :
    Ends (do
      let result ← (do
        match ← preflight membership E routing operation with
        | .error error => pure (.error error)
        | .ok hooks => deliver hooks)
      perform (.publish (.dispatchCompleted operation E.NAME routing (outcome result)))
      pure result) (fun result log => Finished membership E routing operation result
        (outcome result) (delivers result) log) [] := by
  refine Program.Along.bind (Program.Along.bind ((ends_preflight ..).mono ?_))
  intro chosen first hfirst
  cases chosen with
  | error error =>
      refine Program.Along.bind (ends_perform fun () => ?_)
      refine .refused error first hfirst rfl ?_
      rw [hfailed]
  | ok hooks =>
      cases hfirst with
      | answered _ hown =>
          refine (hdeliver hooks _).mono ?_
          rintro result _ ⟨events, rfl, hdelivers⟩
          refine Program.Along.bind (ends_perform fun () => ?_)
          exact .delivered hooks events hown rfl hdelivers

theorem ends_emit (membership : Nat) (E : Event) (routing : Routing) (args : V) :
    Ends (emit membership E routing args) (fun result log => Finished membership E routing .emit
      result (completion result) (fun hooks events =>
        Delivers Listener.emitVerdict (.ok ()) args hooks result events) log) [] :=
  ends_dispatch membership E routing .emit (emitHooks E.NAME args) completion (fun _ => rfl)
    (fun result hooks events => Delivers Listener.emitVerdict (.ok ()) args hooks result events)
    (ends_emitHooks E.NAME args)

theorem ends_query (membership : Nat) (E : Event) (routing : Routing) (args : V) :
    Ends (query membership E routing args) (fun result log => Finished membership E routing .query
      result (queryCompletion result) (fun hooks events =>
        Delivers Listener.queryVerdict (.ok .miss) args hooks result events) log) [] :=
  ends_dispatch membership E routing .query (queryHooks E.NAME args) queryCompletion (fun _ => rfl)
    (fun result hooks events => Delivers Listener.queryVerdict (.ok .miss) args hooks result events)
    (ends_queryHooks E.NAME args)

theorem ends_emitParallel (membership : Nat) (E : Event) (routing : Routing) (args : V) :
    Ends (emitParallel membership E routing args) (fun result log =>
      Finished membership E routing .emitParallel result (completion result)
        (fun hooks events => DeliversAll args hooks result events) log) [] :=
  ends_dispatch membership E routing .emitParallel _ completion (fun _ => rfl)
    (fun result hooks events => DeliversAll args hooks result events)
    (ends_claimedHooks E.NAME args)

/-! ## In every run -/

/-- What is in the order was registered. -/
theorem mem_order {name : String} {hook : Hook} {history : History V}
    (h : hook ∈ order name history) : (name, hook) ∈ registrations history := by
  induction history with
  | nil => cases h
  | cons row history ih =>
      change hook ∈ orderStep name row.2 (order name history) at h
      rw [Ledger.registrations_cons]
      unfold orderStep at h
      cases hregistered : hookOf row.2 with
      | some registered =>
          rcases registered with ⟨other, new⟩
          rw [hregistered] at h
          simp only at h
          split at h
          · rename_i hname
            subst hname
            have hnew : hook = new ∨ hook ∈ order name history := by
              split at h
              · exact List.mem_cons.mp h
              · exact (List.mem_append.mp h).symm.imp_left List.mem_singleton.mp
            rcases hnew with rfl | hold
            · exact List.mem_cons_self ..
            · exact List.mem_cons_of_mem _ (ih hold)
          · exact List.mem_cons_of_mem _ (ih h)
      | none =>
          rw [hregistered] at h
          simp only at h
          refine List.mem_append_right _ (ih ?_)
          split at h
          · split at h
            · exact (List.mem_filter.mp h).1
            · exact h
          · exact h

/-- What holds of every dispatch of a run. -/
structure References (cfg : Config (Record V) (Op V) Op.Ret (Answer V)) : Prop where
  /-- A preflight answers with the eligible hooks in effective order, or refuses. -/
  selected : ∀ later p E routing operation answer earlier,
    cfg.shared.history = later ++ (p, ⟨.preflight E routing operation, answer⟩) :: earlier →
      answer = selection (boundContract E.NAME earlier) (order E.NAME earlier) E routing operation
  /-- A claim is won by what is still registered. -/
  claimed : ∀ later p name id answer earlier,
    cfg.shared.history = later ++ (p, ⟨.claim name id, answer⟩) :: earlier →
      (answer.1 = true ↔ ∃ hook, hook.id = id ∧ Live earlier name hook)
  emitted : ∀ p membership E routing args result,
    cfg.shared.origin p = some (.emit membership E routing args) →
    cfg.pool p = some (.pure (.emitted result)) →
      Finished membership E routing .emit result (completion result) (fun hooks events =>
        Delivers Listener.emitVerdict (.ok ()) args hooks result events) (cfg.shared.log p)
  emittedAll : ∀ p membership E routing args result,
    cfg.shared.origin p = some (.emitParallel membership E routing args) →
    cfg.pool p = some (.pure (.emitted result)) →
      Finished membership E routing .emitParallel result (completion result) (fun hooks events =>
        DeliversAll args hooks result events) (cfg.shared.log p)
  queried : ∀ p membership E routing args result,
    cfg.shared.origin p = some (.query membership E routing args) →
    cfg.pool p = some (.pure (.queried result)) →
      Finished membership E routing .query result (queryCompletion result) (fun hooks events =>
        Delivers Listener.queryVerdict (.ok .miss) args hooks result events) (cfg.shared.log p)
  /-- Nobody invokes a listener that was registered after its preflight. -/
  uninvited : ∀ later q owner E scope kind options id token earlier,
    cfg.shared.history =
      later ++ (q, ⟨.pushGated owner E scope kind options, .ok (id, token)⟩) :: earlier →
    ∀ p F routing operation answer,
      (p, ⟨.preflight F routing operation, answer⟩) ∈ earlier →
        id ∉ called (cfg.shared.performed p)

theorem notification_reference {cfg : Config (Record V) (Op V) Op.Ret (Answer V)}
    (h : (machine V).recorded.Reachable Machine.anyRun cfg) : References cfg := by
  have hledger := Ledger.of_reachable h
  have hordered := Ordered.of_reachable h
  constructor
  case selected => exact hordered.selected
  case claimed =>
    exact fun later p name id answer earlier hsplit =>
      (hledger.claimed later p name id answer earlier hsplit).1
  case emitted =>
    intro p membership E routing args result horigin hpool
    have hends : Ends ((machine V).body (.emit membership E routing args)) (fun answer log =>
        ∀ result, answer = .emitted result → Finished membership E routing .emit result
          (completion result) (fun hooks events =>
            Delivers Listener.emitVerdict (.ok ()) args hooks result events) log) [] := by
      refine Program.Along.bind ((ends_emit membership E routing args).mono ?_)
      rintro result log hfinished _ ⟨⟩
      exact hfinished
    exact ended_of_reachable h horigin hpool hends result rfl
  case emittedAll =>
    intro p membership E routing args result horigin hpool
    have hends : Ends ((machine V).body (.emitParallel membership E routing args))
        (fun answer log => ∀ result, answer = .emitted result →
          Finished membership E routing .emitParallel result (completion result)
            (fun hooks events => DeliversAll args hooks result events) log) [] := by
      refine Program.Along.bind ((ends_emitParallel membership E routing args).mono ?_)
      rintro result log hfinished _ ⟨⟩
      exact hfinished
    exact ended_of_reachable h horigin hpool hends result rfl
  case queried =>
    intro p membership E routing args result horigin hpool
    have hends : Ends ((machine V).body (.query membership E routing args)) (fun answer log =>
        ∀ result, answer = .queried result → Finished membership E routing .query result
          (queryCompletion result) (fun hooks events =>
            Delivers Listener.queryVerdict (.ok .miss) args hooks result events) log) [] := by
      refine Program.Along.bind ((ends_query membership E routing args).mono ?_)
      rintro result log hfinished _ ⟨⟩
      exact hfinished
    exact ended_of_reachable h horigin hpool hends result rfl
  case uninvited =>
    intro later q owner E scope kind options id token earlier hsplit p F routing operation answer
      hmem hcalled
    rcases List.append_of_mem hmem with ⟨between, before, rfl⟩
    have hperformed : ⟨.preflight F routing operation, answer⟩ ∈ cfg.shared.performed p := by
      rw [Recorded.mem_performed, hsplit]
      simp
    have hpath := (along_of_reachable h p).1
    have hchosen := called_subset_selected hpath hcalled
    rw [selected_of_preflight hpath hperformed] at hchosen
    have hwhole : cfg.shared.history =
        (later ++ (q, ⟨.pushGated owner E scope kind options, .ok (id, token)⟩) :: between) ++
          (p, ⟨.preflight F routing operation, answer⟩) :: before := by
      rw [hsplit, List.append_assoc, List.cons_append]
    have hanswer := hordered.selected _ p F routing operation answer before hwhole
    -- the selected hook was registered before the preflight, so it is another registration
    have hold : ∃ hook, hook.id = id ∧ (F.NAME, hook) ∈ registrations before := by
      cases answer with
      | error error => cases hchosen
      | ok hooks =>
          have hsnaps := eq_of_selection hanswer.symm
          rcases List.mem_map.mp hchosen with ⟨snap, hsnap, rfl⟩
          have hsnap' : snap ∈ hooks := hsnap
          rw [hsnaps] at hsnap'
          rcases List.mem_map.mp hsnap' with ⟨hook, hhook, rfl⟩
          exact ⟨hook, rfl, mem_order (List.mem_filter.mp hhook).1⟩
    rcases hold with ⟨hook, rfl, hregistered⟩
    have hfresh := hledger.fresh
    rw [hsplit, registrations, List.filterMap_append, List.map_append] at hfresh
    have hrest : (hook.id :: (registrations (between ++ (p, ⟨.preflight F routing operation,
        answer⟩) :: before)).map fun row => row.2.id).Nodup := (List.nodup_append.mp hfresh).2.1
    refine (List.nodup_cons.mp hrest).1 (List.mem_map.mpr ⟨(F.NAME, hook), ?_, rfl⟩)
    rw [registrations, List.filterMap_append]
    refine List.mem_append_right _ ?_
    exact ((List.sublist_cons_self _ before).filterMap _).subset hregistered

/-! ### A query that a prepended Responder answers -/

def answering : Choice Unit :=
  { idle with
    ended
      | .observer => { ending := .returned () }
      | .responder => { ending := .returned (some ()) }
      | .mapper => { ending := .returned () }
      | .around => { ending := .returned () } }

/-- An Observer is appended, a Responder prepended; another Observer comes too late. -/
def queryRun : List (Label (Routine Unit) (Choice Unit)) :=
  [.enter 0 (.setGate 5 true), .step 0 9 answering,
    .enter 1 (.registerListener 5 [] sampleEvent .observer {}),
    .step 1 9 answering, .step 1 9 answering, .step 1 9 answering,
    .enter 2 (.registerListener 5 [] sampleEvent .responder { prepend := true }),
    .step 2 9 answering, .step 2 9 answering, .step 2 9 answering,
    .enter 3 (.query 0 sampleEvent .unscoped ()), .step 3 9 answering,
    .enter 4 (.registerListener 5 [] sampleEvent .observer { prepend := true }),
    .step 4 9 answering, .step 3 9 answering, .step 3 9 answering, .step 3 9 answering,
    .step 3 9 answering, .step 3 9 answering]

theorem queryRun_enabled : ((machine Unit).recorded.run (fun _ _ _ _ => true) queryRun
    (machine Unit).recorded.start).isSome = true := by
  decide +kernel

def queryEnd : Config (Record Unit) (Op Unit) Op.Ret (Answer Unit) :=
  ((machine Unit).recorded.run (fun _ _ _ _ => true) queryRun
    (machine Unit).recorded.start).get queryRun_enabled

example : queryEnd.pool 3 = some (.pure (.queried (.ok (.answer ())))) :=
  rfl

theorem notification_reference_sample : References queryEnd :=
  notification_reference (Machine.Reachable.of_run _ (fun _ _ _ _ _ => trivial) queryRun .start
    (Option.some_get _).symm)

end Events
end CordisCore
