import CordisCore.Events.Ledger

/-!
# Order of accesses — what every routine owes after a claim or a removal

Whoever unregisters an occurrence reports it next, and whoever wins a claim calls
the hook before it waits for anything.  Both are facts about all paths through
the routines, so they hold in every interleaving.
-/

namespace CordisCore
namespace Events

open Interleaving
open Axes (ScopeNode)

variable {V : Type}

/-! ## Debts -/

def owedStep (owed : Option (String × ListenerRegistrationId)) (event : Performed V) :
    Option (String × ListenerRegistrationId) :=
  match removedOf event with
  | some occurrence => some occurrence
  | none => if (unregisteredOf event).isSome then none else owed

/-- The occurrence that was unregistered and not yet reported. -/
def owed (events : List (Performed V)) : Option (String × ListenerRegistrationId) :=
  events.foldl owedStep none

def grantedOf : Performed V → Option ListenerRegistrationId
  | ⟨.claim _ id, (true, _)⟩ => some id
  | _ => none

/-- The claims that were won, in order. -/
def granted (events : List (Performed V)) : List ListenerRegistrationId :=
  events.filterMap grantedOf

def calledOf : Performed V → Option ListenerRegistrationId
  | ⟨.call hook _, _⟩ => some hook.id
  | _ => none

/-- The hooks whose callbacks were invoked, in order. -/
def called (events : List (Performed V)) : List ListenerRegistrationId :=
  events.filterMap calledOf

def reachedOf : Performed V → Option ListenerRegistrationId
  | ⟨.claim _ id, _⟩ => some id
  | _ => none

/-- The hooks that were tried, in order. -/
def reached (events : List (Performed V)) : List ListenerRegistrationId :=
  events.filterMap reachedOf

def selectedOf : Performed V → List HookSnap
  | ⟨.preflight _ _ _, .ok hooks⟩ => hooks
  | _ => []

/-- The snapshot of the dispatch. -/
def selected (events : List (Performed V)) : List HookSnap :=
  events.flatMap selectedOf

/-- What must have happened when a routine performs an operation. -/
def Orderly (events : List (Performed V)) (op : Op V) : Prop :=
  (match op with
    | .publish (.listenerRegistration .unregistered listener) =>
        owed events = some (listener.event, listener.id)
    | _ => owed events = none) ∧
  match op with
  | .call hook _ => called events ++ [hook.id] <+: granted events
  | .claim _ id => reached events ++ [id] <+: (selected events).map HookSnap.id
  | .preflight _ _ _ => events = []
  | .unreachable => False
  | op => awaits op = true → called events = granted events

/-- Nothing is owed, `rest` was not tried yet, and these claims were won without a call so far. -/
structure Ready (uncalled : List ListenerRegistrationId) (rest : List HookSnap)
    (events : List (Performed V)) : Prop where
  paid : owed events = none
  tried : reached events ++ rest.map HookSnap.id = (selected events).map HookSnap.id
  won : granted events = called events ++ uncalled

/-- Everything is paid and every claim that was won was followed by its call. -/
structure Settled (events : List (Performed V)) : Prop where
  paid : owed events = none
  won : called events = granted events

theorem Ready.settled {rest : List HookSnap} {events : List (Performed V)}
    (h : Ready [] rest events) : Settled events where
  paid := h.paid
  won := by rw [h.won, List.append_nil]

/-- None of the readings sees this event. -/
structure Quiet (event : Performed V) : Prop where
  removed : removedOf event = none
  unregistered : unregisteredOf event = none
  granted : grantedOf event = none
  called : calledOf event = none
  reached : reachedOf event = none
  selected : selectedOf event = []

theorem owed_snoc (events : List (Performed V)) (event : Performed V) :
    owed (events ++ [event]) = owedStep (owed events) event := by
  simp [owed, List.foldl_append]

theorem granted_snoc (events : List (Performed V)) (event : Performed V) :
    granted (events ++ [event]) = granted events ++ (grantedOf event).toList := by
  unfold granted
  rw [List.filterMap_append, List.filterMap_cons]
  cases grantedOf event <;> rfl

theorem called_snoc (events : List (Performed V)) (event : Performed V) :
    called (events ++ [event]) = called events ++ (calledOf event).toList := by
  unfold called
  rw [List.filterMap_append, List.filterMap_cons]
  cases calledOf event <;> rfl

theorem reached_snoc (events : List (Performed V)) (event : Performed V) :
    reached (events ++ [event]) = reached events ++ (reachedOf event).toList := by
  unfold reached
  rw [List.filterMap_append, List.filterMap_cons]
  cases reachedOf event <;> rfl

theorem selected_snoc (events : List (Performed V)) (event : Performed V) :
    selected (events ++ [event]) = selected events ++ selectedOf event := by
  simp [selected]

section Readings

variable {events : List (Performed V)} {event : Performed V}
variable {uncalled : List ListenerRegistrationId} {rest : List HookSnap}

theorem Quiet.owed (h : Quiet event) : owed (events ++ [event]) = Events.owed events := by
  rw [owed_snoc, owedStep, h.removed, h.unregistered]
  rfl

theorem Ready.quiet (h : Ready uncalled rest events) (hquiet : Quiet event) :
    Ready uncalled rest (events ++ [event]) where
  paid := hquiet.owed.trans h.paid
  tried := by
    rw [reached_snoc, selected_snoc, hquiet.reached, hquiet.selected, List.append_nil]
    simpa using h.tried
  won := by
    rw [granted_snoc, called_snoc, hquiet.granted, hquiet.called, h.won]
    simp

theorem Settled.quiet (h : Settled events) (hquiet : Quiet event) : Settled (events ++ [event]) where
  paid := hquiet.owed.trans h.paid
  won := by
    rw [granted_snoc, called_snoc, hquiet.granted, hquiet.called, h.won]

/-- The call of the first hook whose claim was won. -/
theorem Ready.call {hook : HookSnap} {payload : V} (h : Ready (hook.id :: uncalled) rest events) :
    Ready uncalled rest (events ++ [⟨.call hook payload, ()⟩]) where
  paid := by
    rw [owed_snoc]
    exact h.paid
  tried := by
    rw [reached_snoc, selected_snoc]
    simpa [reachedOf, selectedOf] using h.tried
  won := by
    rw [granted_snoc, called_snoc, h.won]
    simp [grantedOf, calledOf]

end Readings

abbrev Keeps {α : Type} (x : Prog V α) (post : α → List (Performed V) → Prop)
    (events : List (Performed V)) : Prop :=
  Program.Along Admits Orderly x post events

/-! ## Claims -/

theorem keeps_claimHook {uncalled : List ListenerRegistrationId} {hook : HookSnap}
    {rest : List HookSnap} (event : String) {events : List (Performed V)}
    (h : Ready uncalled (hook :: rest) events) :
    Keeps (claimHook event hook)
      (fun claimed more => Ready (if claimed then uncalled ++ [hook.id] else uncalled) rest more)
      events := by
  have hinitial : reached events ++ [hook.id] <+: (selected events).map HookSnap.id :=
    ⟨rest.map HookSnap.id, by rw [← h.tried]; simp⟩
  refine Program.Along.bind (Program.Along.perform ⟨h.paid, hinitial⟩ fun answer _ => ?_)
  rcases answer with ⟨claimed, unregistered⟩
  have htried : reached (events ++ [⟨.claim event hook.id, (claimed, unregistered)⟩]) ++
      rest.map HookSnap.id =
        (selected (events ++ [⟨.claim event hook.id, (claimed, unregistered)⟩])).map
          HookSnap.id := by
    rw [reached_snoc, selected_snoc]
    simpa [reachedOf, selectedOf] using h.tried
  have hwon : granted (events ++ [⟨.claim event hook.id, (claimed, unregistered)⟩]) =
      called (events ++ [⟨.claim event hook.id, (claimed, unregistered)⟩]) ++
        (if claimed then uncalled ++ [hook.id] else uncalled) := by
    rw [granted_snoc, called_snoc, h.won]
    cases claimed <;> simp [grantedOf, calledOf]
  cases unregistered with
  | false =>
      refine ⟨?_, htried, hwon⟩
      rw [owed_snoc]
      exact h.paid
  | true =>
      refine Program.Along.bind (Program.Along.perform ⟨?_, fun hawaits => ?_⟩ fun _ _ => ?_)
      · rw [owed_snoc]
        rfl
      · cases hawaits
      · -- the report of what the claim unregistered
        refine ⟨?_, ?_, ?_⟩
        · rw [owed_snoc]
          rfl
        · rw [reached_snoc, selected_snoc]
          simpa [reachedOf, selectedOf] using htried
        · rw [granted_snoc, called_snoc, hwon]
          simp [grantedOf, calledOf]

theorem quiet_discard (hooks : List HookSnap) (answer : List String) :
    Quiet (V := V) ⟨.discard hooks, answer⟩ :=
  ⟨rfl, rfl, rfl, rfl, rfl, rfl⟩

theorem keeps_drop (hooks : List HookSnap) {uncalled : List ListenerRegistrationId}
    {rest : List HookSnap} {events : List (Performed V)} (h : Ready uncalled rest events) :
    Keeps (dropUnclaimedHooks hooks) (fun _ more => Ready uncalled rest more) events := by
  refine Program.Along.bind (Program.Along.perform ⟨h.paid, fun hawaits => ?_⟩ fun answer _ => ?_)
  · cases hawaits
  · exact h.quiet (quiet_discard hooks answer)

/-! ## Invocations -/

section Invocations

variable {rest : List HookSnap} {events : List (Performed V)}

theorem Ready.orderly (h : Ready [] rest events) {op : Op V} (hop : awaits op = true) :
    Orderly events op := by
  have hwon := h.settled.won
  cases op with
  | ended | moved | resumed | tailEnded | reported => exact ⟨h.paid, fun _ => hwon⟩
  | preflight | claim | publish | call | tail | discard | unreachable | pushGated | remove
  | removeDisposable | tokens | deliver | setGate => cases hop

theorem quiet_awaits {op : Op V} (hop : awaits op = true) (r : op.Ret) :
    Quiet (V := V) ⟨op, r⟩ := by
  cases op with
  | ended | moved | resumed | tailEnded | reported => exact ⟨rfl, rfl, rfl, rfl, rfl, rfl⟩
  | preflight | claim | publish | call | tail | discard | unreachable | pushGated | remove
  | removeDisposable | tokens | deliver | setGate => cases hop

/-- A wait while everything that was won was called. -/
theorem keeps_await (h : Ready [] rest events) {op : Op V} (hop : awaits op = true) :
    Keeps (perform op) (fun _ more => Ready [] rest more) events :=
  Program.Along.perform (h.orderly hop) fun r _ => h.quiet (quiet_awaits hop r)

theorem keeps_call {uncalled : List ListenerRegistrationId} {hook : HookSnap} (payload : V)
    (h : Ready (hook.id :: uncalled) rest events) :
    Keeps (perform (.call hook payload)) (fun _ more => Ready uncalled rest more) events := by
  refine Program.Along.perform ⟨h.paid, ⟨uncalled, ?_⟩⟩ fun _ _ => h.call
  rw [h.won]
  simp

theorem keeps_invokePlain {hook : HookSnap} (payload : V) (h : Ready [hook.id] rest events) :
    Keeps (invokePlain hook payload) (fun _ more => Ready [] rest more) events := by
  refine Program.Along.bind ((keeps_call payload h).mono fun _ more hmore => ?_)
  have hended : awaits (.ended hook : Op V) = true := rfl
  refine Program.Along.bind ((keeps_await hmore hended).mono ?_)
  exact fun _ _ hmore => hmore

theorem keeps_invokeListener {hook : HookSnap} (payload : V) (h : Ready [hook.id] rest events) :
    Keeps (invokeListener hook payload) (fun _ more => Ready [] rest more) events :=
  Program.Along.bind ((keeps_invokePlain payload h).mono fun _ _ hmore => hmore)

end Invocations

/-! ## Dispatches -/

/-- An Observer or a Responder is a plain hook. -/
theorem plain_of_compatible {operation : EventOperation} (hne : operation ≠ .waterfall)
    {kind : HookKind} (h : EventState.compatible operation kind.role) :
    ∃ role, kind = .plain role ∧ (role = .observer ∨ role = .responder) := by
  cases kind with
  | around => cases operation <;> first | exact absurd rfl hne | cases h
  | plain role =>
      refine ⟨role, rfl, ?_⟩
      cases role with
      | observer => exact .inl rfl
      | responder => exact .inr rfl
      | mapper | around => cases operation <;> first | exact absurd rfl hne | cases h

theorem keeps_emitHooks (event : String) (args : V) (hooks : List HookSnap)
    (hroles : ∀ hook ∈ hooks, EventState.compatible .emit hook.kind.role) :
    ∀ {events : List (Performed V)}, Ready [] hooks events →
      Keeps (emitHooks event args hooks) (fun _ more => Settled more) events := by
  induction hooks with
  | nil => exact fun h => h.settled
  | cons hook hooks ih =>
      intro events h
      have hrest := fun other hother => hroles other (List.mem_cons_of_mem hook hother)
      refine Program.Along.bind ((keeps_claimHook event h).mono fun claimed more hmore => ?_)
      cases claimed with
      | false =>
          refine Program.Along.bind ((keeps_drop [hook] hmore).mono fun _ more hmore => ?_)
          exact ih hrest hmore
      | true =>
          have hcompatible := hroles hook (List.mem_cons_self ..)
          rcases hook with ⟨id, scope, options, kind⟩
          rcases plain_of_compatible (by decide) hcompatible with ⟨role, rfl, -⟩
          refine Program.Along.bind ((keeps_invokeListener args hmore).mono ?_)
          intro outcome more hmore
          cases outcome with
          | ok value => exact ih hrest hmore
          | error failure =>
              refine Program.Along.bind ((keeps_drop hooks hmore).mono fun _ more hmore => ?_)
              exact hmore.settled

theorem keeps_queryHooks (event : String) (args : V) (hooks : List HookSnap)
    (hroles : ∀ hook ∈ hooks, EventState.compatible .query hook.kind.role) :
    ∀ {events : List (Performed V)}, Ready [] hooks events →
      Keeps (queryHooks event args hooks) (fun _ more => Settled more) events := by
  induction hooks with
  | nil => exact fun h => h.settled
  | cons hook hooks ih =>
      intro events h
      have hrest := fun other hother => hroles other (List.mem_cons_of_mem hook hother)
      refine Program.Along.bind ((keeps_claimHook event h).mono fun claimed more hmore => ?_)
      cases claimed with
      | false =>
          refine Program.Along.bind ((keeps_drop [hook] hmore).mono fun _ more hmore => ?_)
          exact ih hrest hmore
      | true =>
          have hcompatible := hroles hook (List.mem_cons_self ..)
          rcases hook with ⟨id, scope, options, kind⟩
          rcases plain_of_compatible (by decide) hcompatible with ⟨role, rfl, hrole⟩
          refine Program.Along.bind ((keeps_invokeListener args hmore).mono ?_)
          intro outcome after hafter
          cases outcome with
          | error failure =>
              refine Program.Along.bind ((keeps_drop hooks hafter).mono fun _ more hmore => ?_)
              exact hmore.settled
          | ok value =>
              rcases hrole with rfl | rfl
              · exact ih hrest hafter
              · cases value with
                | none => exact ih hrest hafter
                | some output =>
                    refine Program.Along.bind ((keeps_drop hooks hafter).mono ?_)
                    exact fun _ more hmore => hmore.settled

theorem keeps_claimHooks (event : String) (hooks : List HookSnap) :
    ∀ {uncalled : List ListenerRegistrationId} {events : List (Performed V)},
      Ready uncalled hooks events → Keeps (claimHooks event hooks)
        (fun claimed more => claimed.Sublist hooks ∧
          Ready (uncalled ++ claimed.map HookSnap.id) [] more) events := by
  induction hooks with
  | nil =>
      intro uncalled events h
      refine ⟨.slnil, ?_⟩
      rw [List.map_nil, List.append_nil]
      exact h
  | cons hook hooks ih =>
      intro uncalled events h
      refine Program.Along.bind ((keeps_claimHook event h).mono fun claimed more hmore => ?_)
      cases claimed with
      | false =>
          refine Program.Along.bind ((keeps_drop [hook] hmore).mono fun _ more hmore => ?_)
          exact (ih hmore).mono fun claimed more hall => ⟨hall.1.cons hook, hall.2⟩
      | true =>
          refine Program.Along.bind ((ih hmore).mono fun claimed more hall => ?_)
          refine ⟨hall.1.cons_cons hook, ?_⟩
          have hregroup := hall.2
          simp only [if_true, List.append_assoc] at hregroup
          exact hregroup

theorem keeps_callHooks (args : V) (hooks : List HookSnap)
    (hroles : ∀ hook ∈ hooks, EventState.compatible .emitParallel hook.kind.role) :
    ∀ {events : List (Performed V)}, Ready (hooks.map HookSnap.id) [] events →
      Keeps (callHooks args hooks) (fun _ more => Ready [] [] more) events := by
  induction hooks with
  | nil => exact fun h => h
  | cons hook hooks ih =>
      intro events h
      have hrest := fun other hother => hroles other (List.mem_cons_of_mem hook hother)
      have hcompatible := hroles hook (List.mem_cons_self ..)
      rcases hook with ⟨id, scope, options, kind⟩
      rcases plain_of_compatible (by decide) hcompatible with ⟨role, rfl, -⟩
      exact Program.Along.bind ((keeps_call args h).mono fun _ _ hmore => ih hrest hmore)

theorem keeps_awaitHooks (hooks : List HookSnap) :
    ∀ {events : List (Performed V)}, Ready [] [] events →
      Keeps (awaitHooks hooks) (fun _ more => Ready [] [] more) events := by
  induction hooks with
  | nil => exact fun h => h
  | cons hook hooks ih =>
      intro events h
      have hwaits : awaits (.ended hook : Op V) = true := rfl
      refine Program.Along.bind ((keeps_await h hwaits).mono fun finish more hmore => ?_)
      refine Program.Along.bind ((ih hmore).mono fun failures more hmore => ?_)
      cases correlated hook.id (Finish.outcome finish) <;> exact hmore

/-! ## Waterfalls -/

/-- Some hooks were tried, nothing is owed. -/
def Passed (events : List (Performed V)) : Prop :=
  ∃ rest, Ready [] rest events

theorem keeps_invokeAround {hook : HookSnap} {hooks : List HookSnap} (payload : V)
    {next : V → Prog V (Except InvocationFailure V)}
    (hnext : ∀ args {events : List (Performed V)}, Ready [] hooks events →
      Keeps (next args) (fun _ more => Passed more) events)
    {events : List (Performed V)} (h : Ready [hook.id] hooks events) :
    Keeps (invokeAround hook payload next) (fun _ more => Passed more) events := by
  have hmoved : awaits (.moved hook : Op V) = true := rfl
  refine Program.Along.bind ((keeps_call payload h).mono fun _ more hmore => ?_)
  refine Program.Along.bind ((keeps_await hmore hmoved).mono fun move more hmore => ?_)
  cases move with
  | ends finish => exact ⟨hooks, hmore⟩
  | calls args =>
      refine Program.Along.bind ((hnext args hmore).mono fun result more hpassed => ?_)
      rcases hpassed with ⟨rest, hrest⟩
      have hresumed : awaits (.resumed hook : Op V) = true := rfl
      refine Program.Along.bind ((keeps_await hrest hresumed).mono fun resume more hmore => ?_)
      exact ⟨rest, hmore⟩

theorem keeps_waterfallHook (event : String) {hook : HookSnap} {hooks : List HookSnap}
    (uncalled : List HookSnap) (hrole : EventState.compatible .waterfall hook.kind.role)
    {downstream : V → Prog V (Except InvocationFailure V)}
    (hdownstream : ∀ args {events : List (Performed V)}, Ready [] hooks events →
      Keeps (downstream args) (fun _ more => Passed more) events)
    (payload : V) {events : List (Performed V)} (h : Ready [] (hook :: hooks) events) :
    Keeps (waterfallHook event hook uncalled downstream payload) (fun _ more => Passed more)
      events := by
  refine Program.Along.bind ((keeps_claimHook event h).mono fun claimed more hmore => ?_)
  cases claimed with
  | false =>
      refine Program.Along.bind ((keeps_drop [hook] hmore).mono fun _ more hmore => ?_)
      exact hdownstream payload hmore
  | true =>
      rcases hook with ⟨id, scope, options, kind⟩
      cases kind with
      | around =>
          exact Program.Along.bind
            ((keeps_invokeAround payload hdownstream hmore).mono fun _ _ hpassed => hpassed)
      | plain role =>
          refine Program.Along.bind ((keeps_invokePlain payload hmore).mono ?_)
          intro outcome after hafter
          cases outcome with
          | error failure =>
              refine Program.Along.bind (Program.Along.perform ⟨hafter.paid, nofun⟩ ?_)
              intro answer _
              exact ⟨hooks, hafter.quiet (quiet_discard uncalled answer)⟩
          | ok value =>
              cases role with
              | observer | responder => cases hrole
              | mapper | around => exact hdownstream value hafter

theorem keeps_waterfallTail (payload : V) {rest : List HookSnap} {events : List (Performed V)}
    (h : Ready [] rest events) :
    Keeps (waterfallTail payload) (fun _ more => Passed more) events := by
  have hwaits : awaits (.tailEnded : Op V) = true := rfl
  refine Program.Along.bind (Program.Along.perform ⟨h.paid, nofun⟩ fun _ _ => ?_)
  have hcalled : Ready [] rest (events ++ [⟨.tail payload, ()⟩]) :=
    h.quiet ⟨rfl, rfl, rfl, rfl, rfl, rfl⟩
  refine Program.Along.bind ((keeps_await hcalled hwaits).mono fun ending more hmore => ?_)
  exact ⟨rest, hmore⟩

theorem waterfallChain_cons (event : String) (hook : HookSnap) (hooks : List HookSnap) :
    (waterfallChain event (hook :: hooks) : _ × (V → Prog V _)) =
      (hook :: (waterfallChain event hooks : _ × (V → Prog V _)).1,
        waterfallHook event hook (waterfallChain event hooks : _ × (V → Prog V _)).1
          (waterfallChain event hooks).2) := by
  unfold waterfallChain
  rw [List.reverse_cons, List.foldl_append]
  rfl

theorem keeps_waterfallChain (event : String) (hooks : List HookSnap)
    (hroles : ∀ hook ∈ hooks, EventState.compatible .waterfall hook.kind.role) :
    ∀ (args : V) {events : List (Performed V)}, Ready [] hooks events →
      Keeps ((waterfallChain event hooks).2 args) (fun _ more => Passed more) events := by
  induction hooks with
  | nil => exact fun args events h => keeps_waterfallTail args h
  | cons hook hooks ih =>
      intro args events h
      have hrest := ih fun other hother => hroles other (List.mem_cons_of_mem hook hother)
      rw [waterfallChain_cons]
      exact keeps_waterfallHook event _ (hroles hook (List.mem_cons_self ..)) hrest args h

/-! ## Routines -/

/-- Nothing was performed yet. -/
theorem settled_nil : Settled ([] : List (Performed V)) :=
  ⟨rfl, rfl⟩

/-- A refused preflight leaves nothing, one that selects leaves its hooks to be tried. -/
def Chosen (operation : EventOperation) :
    Except DispatchError (List HookSnap) → List (Performed V) → Prop
  | .error _, events => Settled events
  | .ok hooks, events => Ready [] hooks events ∧
      ∀ hook ∈ hooks, EventState.compatible operation hook.kind.role

theorem keeps_preflight (membership : Nat) (E : Event) (routing : Routing)
    (operation : EventOperation) :
    Keeps (V := V) (preflight membership E routing operation) (Chosen operation) [] := by
  have hperformed : Keeps (V := V) (perform (.preflight E routing operation))
      (Chosen operation) [] := by
    refine Program.Along.perform ⟨rfl, rfl⟩ fun result hadmits => ?_
    cases result with
    | error error => exact ⟨rfl, rfl⟩
    | ok hooks => exact ⟨⟨rfl, by simp [reached, selected, selectedOf, reachedOf], rfl⟩, hadmits.2⟩
  rcases routing with _ | scope
  · exact hperformed
  · by_cases hown : scope.membership = membership
    · simp only [preflight, hown]
      exact hperformed
    · simp only [preflight, hown]
      exact settled_nil

/-- The completion record of a dispatch. -/
theorem keeps_complete {events : List (Performed V)} (h : Settled events)
    (operation : EventOperation) (event : String) (routing : Routing)
    (outcome : DispatchOutcomeKind) :
    Keeps (perform (.publish (.dispatchCompleted operation event routing outcome)))
      (fun _ more => Settled more) events :=
  Program.Along.perform ⟨h.paid, nofun⟩ fun _ _ => h.quiet ⟨rfl, rfl, rfl, rfl, rfl, rfl⟩

theorem keeps_emit (membership : Nat) (E : Event) (routing : Routing) (args : V) :
    Keeps (emit membership E routing args) (fun _ more => Settled more) [] := by
  refine Program.Along.bind (Program.Along.bind ((keeps_preflight ..).mono ?_))
  intro chosen more hchosen
  have hdone : ∀ (result : Except DispatchError Unit) more, Settled more →
      Keeps (V := V) (do
        perform (.publish (.dispatchCompleted .emit E.NAME routing (completion result)))
        pure result) (fun _ more => Settled more) more := fun result more hmore =>
    Program.Along.bind ((keeps_complete hmore ..).mono fun _ _ hmore => hmore)
  cases chosen with
  | error error => exact hdone _ _ hchosen
  | ok hooks => exact (keeps_emitHooks E.NAME args hooks hchosen.2 hchosen.1).mono hdone

theorem keeps_query (membership : Nat) (E : Event) (routing : Routing) (args : V) :
    Keeps (query membership E routing args) (fun _ more => Settled more) [] := by
  refine Program.Along.bind (Program.Along.bind ((keeps_preflight ..).mono ?_))
  intro chosen more hchosen
  have hdone : ∀ (result : Except DispatchError (QueryOutcome V)) more, Settled more →
      Keeps (V := V) (do
        perform (.publish (.dispatchCompleted .query E.NAME routing (queryCompletion result)))
        pure result) (fun _ more => Settled more) more := fun result more hmore =>
    Program.Along.bind ((keeps_complete hmore ..).mono fun _ _ hmore => hmore)
  cases chosen with
  | error error => exact hdone _ _ hchosen
  | ok hooks => exact (keeps_queryHooks E.NAME args hooks hchosen.2 hchosen.1).mono hdone

theorem keeps_emitParallel (membership : Nat) (E : Event) (routing : Routing) (args : V) :
    Keeps (emitParallel membership E routing args) (fun _ more => Settled more) [] := by
  refine Program.Along.bind (Program.Along.bind ((keeps_preflight ..).mono ?_))
  intro chosen more hchosen
  have hdone : ∀ (result : Except DispatchError Unit) more, Settled more →
      Keeps (V := V) (do
        perform (.publish (.dispatchCompleted .emitParallel E.NAME routing (completion result)))
        pure result) (fun _ more => Settled more) more := fun result more hmore =>
    Program.Along.bind ((keeps_complete hmore ..).mono fun _ _ hmore => hmore)
  cases chosen with
  | error error => exact hdone _ _ hchosen
  | ok hooks =>
      refine Program.Along.bind ((keeps_claimHooks E.NAME hooks hchosen.1).mono ?_)
      rintro claimed more ⟨hsub, hclaimed⟩
      have hroles := fun hook hhook => hchosen.2 hook (hsub.subset hhook)
      refine Program.Along.bind ((keeps_callHooks args claimed hroles hclaimed).mono ?_)
      intro _ more hcalled
      refine Program.Along.bind ((keeps_awaitHooks claimed hcalled).mono ?_)
      intro failures more hawaited
      split
      · exact hdone _ _ hawaited.settled
      · exact hdone _ _ hawaited.settled

theorem keeps_waterfall (membership : Nat) (E : Event) (routing : Routing) (args : V) :
    Keeps (waterfall membership E routing args) (fun _ more => Settled more) [] := by
  refine Program.Along.bind (Program.Along.bind ((keeps_preflight ..).mono ?_))
  intro chosen more hchosen
  have hdone : ∀ (result : Except DispatchError V) more, Settled more →
      Keeps (V := V) (do
        perform (.publish (.dispatchCompleted .waterfall E.NAME routing (completion result)))
        pure result) (fun _ more => Settled more) more := fun result more hmore =>
    Program.Along.bind ((keeps_complete hmore ..).mono fun _ _ hmore => hmore)
  cases chosen with
  | error error =>
      refine Program.Along.bind (Program.Along.perform ⟨hchosen.paid, nofun⟩ fun answer _ => ?_)
      exact hdone _ _ (hchosen.quiet (quiet_discard [] answer))
  | ok hooks =>
      refine Program.Along.bind ((keeps_waterfallChain E.NAME hooks hchosen.2 args hchosen.1).mono ?_)
      rintro outcome more ⟨rest, hrest⟩
      exact hdone _ _ hrest.settled

theorem keeps_removeListener (listener : ListenerObservationMeta) {events : List (Performed V)}
    (h : Settled events) :
    Keeps (removeListener listener) (fun _ more => Settled more) events := by
  refine Program.Along.bind (Program.Along.perform ⟨h.paid, nofun⟩ fun removed _ => ?_)
  have hwon : called (events ++ [⟨.remove listener.event listener.id, removed⟩]) =
      granted (events ++ [⟨.remove listener.event listener.id, removed⟩]) := by
    rw [called_snoc, granted_snoc, h.won]
    rfl
  cases removed with
  | false =>
      refine ⟨?_, hwon⟩
      rw [owed_snoc]
      exact h.paid
  | true =>
      refine Program.Along.bind (Program.Along.perform ⟨?_, nofun⟩ fun _ _ => ?_)
      · rw [owed_snoc]
        rfl
      · refine ⟨?_, ?_⟩
        · rw [owed_snoc]
          rfl
        · rw [called_snoc, granted_snoc, hwon]
          rfl

theorem keeps_runTokens (owner : FiberId) (tokens : List DisposableToken) :
    ∀ {events : List (Performed V)}, Settled events →
      Keeps (runTokens owner tokens) (fun _ more => Settled more) events := by
  induction tokens with
  | nil => exact fun h => h
  | cons token tokens ih =>
      intro events h
      refine Program.Along.bind (Program.Along.perform ⟨h.paid, nofun⟩ fun listener _ => ?_)
      have htaken : Settled (events ++ [⟨.removeDisposable owner token, listener⟩]) :=
        h.quiet ⟨rfl, rfl, rfl, rfl, rfl, rfl⟩
      cases listener with
      | none => exact ih htaken
      | some listener =>
          refine Program.Along.bind ((keeps_removeListener listener htaken).mono ?_)
          intro _ more hmore
          refine Program.Along.bind (Program.Along.perform ⟨hmore.paid, fun _ => hmore.won⟩ ?_)
          exact fun _ _ => ih (hmore.quiet ⟨rfl, rfl, rfl, rfl, rfl, rfl⟩)

theorem keeps_registerListener (owner : FiberId) (scope : List ScopeNode) (E : Event)
    (role : ListenerRole) (options : ListenerOptions) :
    Keeps (V := V) (registerListener owner scope E role options)
      (fun _ more => Settled more) [] := by
  refine Program.Along.bind (Program.Along.perform ⟨rfl, nofun⟩ fun answer _ => ?_)
  have hpushed : Settled (V := V)
      ([] ++ [⟨.pushGated owner E scope (intoHook role) options, answer⟩]) :=
    settled_nil.quiet ⟨rfl, rfl, rfl, rfl, rfl, rfl⟩
  cases answer with
  | error error => exact hpushed
  | ok pair =>
      refine Program.Along.bind (Program.Along.perform ⟨hpushed.paid, nofun⟩ fun _ _ => ?_)
      have hpublished := fun listener => hpushed.quiet (V := V)
        (show Quiet ⟨.publish (.listenerRegistration .registered listener), ()⟩ from
          ⟨rfl, rfl, rfl, rfl, rfl, rfl⟩)
      refine Program.Along.bind (Program.Along.perform ⟨(hpublished _).paid, nofun⟩ fun _ _ => ?_)
      exact (hpublished _).quiet ⟨rfl, rfl, rfl, rfl, rfl, rfl⟩

/-- Every routine keeps the order, and owes nothing when it returns. -/
theorem keeps_body (routine : Routine V) :
    Keeps ((machine V).body routine) (fun _ more => Settled more) [] := by
  cases routine with
  | emit membership E routing args => exact Program.Along.bind (keeps_emit ..)
  | emitParallel membership E routing args => exact Program.Along.bind (keeps_emitParallel ..)
  | query membership E routing args => exact Program.Along.bind (keeps_query ..)
  | waterfall membership E routing args => exact Program.Along.bind (keeps_waterfall ..)
  | registerListener owner scope E role options =>
      exact Program.Along.bind (keeps_registerListener ..)
  | removeRegistration registration =>
      refine Program.Along.bind (Program.Along.bind
        ((keeps_removeListener registration.listener settled_nil).mono ?_))
      intro _ more hmore
      refine Program.Along.bind (Program.Along.perform ⟨hmore.paid, nofun⟩ fun _ _ => ?_)
      exact hmore.quiet ⟨rfl, rfl, rfl, rfl, rfl, rfl⟩
  | drainDisposables owner =>
      refine Program.Along.bind (Program.Along.bind
        (Program.Along.perform ⟨rfl, nofun⟩ fun tokens _ => ?_))
      exact keeps_runTokens owner _ (settled_nil.quiet ⟨rfl, rfl, rfl, rfl, rfl, rfl⟩)
  | setGate owner isOpen =>
      refine Program.Along.bind (Program.Along.perform ⟨rfl, nofun⟩ fun _ _ => ?_)
      exact settled_nil.quiet ⟨rfl, rfl, rfl, rfl, rfl, rfl⟩

end Events
end CordisCore
