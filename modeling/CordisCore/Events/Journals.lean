import CordisCore.Events.Ledger
import CordisCore.Interleaving.Past

/-!
# Journals — cleanups are found where registrations were journaled

A registration leaves the journal of its fiber only with its removal: a remover
takes the listener out of the store first, a drain takes the cleanup and runs it
next.  So nobody finishes a removal or a drain and leaves the listener behind.
-/

namespace CordisCore
namespace Events

open Interleaving
open Interleaving.Program (Arrives Runs runs_pure runs_bind runs_perform arrives_bind arrives_pure)
open Axes (ScopeNode)

variable {V : Type}

/-! ## Dispatches leave the journals alone -/

/-- The accesses to the journals and to the registrations that are held. -/
def journal : Op V → Bool
  | .pushGated _ _ _ _ _ | .remove _ _ | .removeDisposable _ _ | .tokens _ | .deliver _
  | .setGate _ _ => true
  | _ => false

/-- The access is one of a dispatch. -/
def Foreign (op : Op V) : Prop :=
  journal op = false

section Foreign

theorem foreign_unreachable {α : Type} : (unreachable : Prog V α).All Foreign :=
  .bind ⟨rfl, fun _ => trivial⟩ fun r => nomatch (show Empty from r)

theorem foreign_claimHook (event : String) (hook : HookSnap) :
    (claimHook event hook : Prog V _).All Foreign := by
  refine .bind ⟨rfl, fun _ => trivial⟩ fun answer => ?_
  rcases answer with ⟨claimed, unregistered⟩
  cases unregistered with
  | true => exact ⟨rfl, fun _ => trivial⟩
  | false => trivial

theorem foreign_dropUnclaimedHooks (hooks : List HookSnap) :
    (dropUnclaimedHooks hooks : Prog V _).All Foreign :=
  ⟨rfl, fun _ => trivial⟩

theorem foreign_preflight (membership : Nat) (E : Event) (routing : Routing)
    (operation : EventOperation) :
    (preflight membership E routing operation : Prog V _).All Foreign := by
  rcases routing with _ | scope
  · exact ⟨rfl, fun _ => trivial⟩
  · by_cases hown : scope.membership = membership
    · simp only [preflight, hown]
      exact ⟨rfl, fun _ => trivial⟩
    · simp only [preflight, hown]
      trivial

theorem foreign_invokePlain (hook : HookSnap) (payload : V) :
    (invokePlain hook payload).All Foreign :=
  ⟨rfl, fun _ => ⟨rfl, fun _ => trivial⟩⟩

theorem foreign_invokeListener (hook : HookSnap) (payload : V) :
    (invokeListener hook payload).All Foreign :=
  .bind (foreign_invokePlain hook payload) fun _ => trivial

theorem foreign_emitHooks (event : String) (args : V) (hooks : List HookSnap) :
    (emitHooks event args hooks).All Foreign := by
  induction hooks with
  | nil => trivial
  | cons hook hooks ih =>
      refine .bind (foreign_claimHook event hook) fun claimed => ?_
      cases claimed with
      | false => exact .bind (foreign_dropUnclaimedHooks _) fun _ => ih
      | true =>
          rcases hook with ⟨id, scope, options, kind⟩
          cases kind with
          | around => exact foreign_unreachable
          | plain role =>
              refine .bind (foreign_invokeListener _ args) fun outcome => ?_
              cases outcome with
              | error failure => exact .bind (foreign_dropUnclaimedHooks _) fun _ => trivial
              | ok value => exact ih

theorem foreign_claimHooks (event : String) (hooks : List HookSnap) :
    (claimHooks event hooks : Prog V _).All Foreign := by
  induction hooks with
  | nil => trivial
  | cons hook hooks ih =>
      refine .bind (foreign_claimHook event hook) fun claimed => ?_
      cases claimed with
      | false => exact .bind (foreign_dropUnclaimedHooks _) fun _ => ih
      | true => exact .bind ih fun _ => trivial

theorem foreign_callHooks (args : V) (hooks : List HookSnap) :
    (callHooks args hooks).All Foreign := by
  induction hooks with
  | nil => trivial
  | cons hook hooks ih =>
      rcases hook with ⟨id, scope, options, kind⟩
      cases kind with
      | around => exact foreign_unreachable
      | plain role => exact ⟨rfl, fun _ => ih⟩

theorem foreign_awaitHooks (hooks : List HookSnap) :
    (awaitHooks hooks : Prog V _).All Foreign := by
  induction hooks with
  | nil => trivial
  | cons hook hooks ih =>
      refine .bind ⟨rfl, fun _ => trivial⟩ fun finish => .bind ih fun failures => ?_
      cases correlated hook.id (Finish.outcome finish) <;> trivial

theorem foreign_queryHooks (event : String) (args : V) (hooks : List HookSnap) :
    (queryHooks event args hooks).All Foreign := by
  induction hooks with
  | nil => trivial
  | cons hook hooks ih =>
      refine .bind (foreign_claimHook event hook) fun claimed => ?_
      cases claimed with
      | false => exact .bind (foreign_dropUnclaimedHooks _) fun _ => ih
      | true =>
          rcases hook with ⟨id, scope, options, kind⟩
          cases kind with
          | around => exact foreign_unreachable
          | plain role =>
              refine .bind (foreign_invokeListener _ args) fun outcome => ?_
              cases outcome with
              | error failure => exact .bind (foreign_dropUnclaimedHooks _) fun _ => trivial
              | ok value =>
                  cases role with
                  | observer => exact ih
                  | responder =>
                      cases value with
                      | none => exact ih
                      | some output => exact .bind (foreign_dropUnclaimedHooks _) fun _ => trivial
                  | mapper | around => exact foreign_unreachable

theorem foreign_invokeAround (hook : HookSnap) (payload : V)
    {next : V → Prog V (Except InvocationFailure V)} (hnext : ∀ args, (next args).All Foreign) :
    (invokeAround hook payload next).All Foreign := by
  refine .bind ⟨rfl, fun _ => trivial⟩ fun _ => .bind ⟨rfl, fun _ => trivial⟩ fun move => ?_
  cases move with
  | ends finish => trivial
  | calls args =>
      exact .bind (hnext args) fun downstream => .bind ⟨rfl, fun _ => trivial⟩ fun resume => trivial

theorem foreign_waterfallHook (event : String) (hook : HookSnap) (uncalled : List HookSnap)
    {downstream : V → Prog V (Except InvocationFailure V)}
    (hdownstream : ∀ args, (downstream args).All Foreign) (payload : V) :
    (waterfallHook event hook uncalled downstream payload).All Foreign := by
  refine .bind (foreign_claimHook event hook) fun claimed => ?_
  cases claimed with
  | false => exact .bind (foreign_dropUnclaimedHooks _) fun _ => hdownstream payload
  | true =>
      rcases hook with ⟨id, scope, options, kind⟩
      cases kind with
      | around => exact .bind (foreign_invokeAround _ payload hdownstream) fun _ => trivial
      | plain role =>
          refine .bind (foreign_invokePlain _ payload) fun outcome => ?_
          cases outcome with
          | error failure => exact .bind ⟨rfl, fun _ => trivial⟩ fun _ => trivial
          | ok value =>
              cases role with
              | observer | responder => exact foreign_unreachable
              | mapper | around => exact hdownstream value

theorem foreign_waterfallChain (event : String) (hooks : List HookSnap) (args : V) :
    ((waterfallChain event hooks).2 args).All Foreign := by
  unfold waterfallChain
  induction hooks generalizing args with
  | nil => exact .bind ⟨rfl, fun _ => trivial⟩ fun _ => .bind ⟨rfl, fun _ => trivial⟩ fun _ => trivial
  | cons hook hooks ih =>
      rw [List.reverse_cons, List.foldl_append]
      exact foreign_waterfallHook event hook _ ih args

end Foreign

/-- What a routine other than a registration or a removal does leaves the journals alone. -/
theorem foreign_body {routine : Routine V}
    (hregister : ∀ owner scope E role options,
      routine ≠ .registerListener owner scope E role options)
    (hremove : ∀ registration, routine ≠ .removeRegistration registration)
    (hdrain : ∀ owner, routine ≠ .drainDisposables owner)
    (hgate : ∀ owner isOpen, routine ≠ .setGate owner isOpen) :
    ((machine V).body routine).All Foreign := by
  have hrecord : ∀ {α : Type} (record : RuntimeObservation) (result : α),
      (do perform (.publish record); pure result : Prog V α).All Foreign := fun _ _ =>
    ⟨rfl, fun _ => trivial⟩
  cases routine with
  | emit membership E routing args =>
      refine .bind (.bind (.bind (foreign_preflight ..) fun chosen => ?_) fun result => hrecord _ _)
        fun _ => trivial
      cases chosen with
      | error error => trivial
      | ok hooks => exact foreign_emitHooks ..
  | emitParallel membership E routing args =>
      refine .bind (.bind (.bind (foreign_preflight ..) fun chosen => ?_) fun result => hrecord _ _)
        fun _ => trivial
      cases chosen with
      | error error => trivial
      | ok hooks =>
          refine .bind (foreign_claimHooks ..) fun claimed => .bind (foreign_callHooks ..) fun _ =>
            .bind (foreign_awaitHooks _) fun failures => ?_
          cases failures <;> trivial
  | query membership E routing args =>
      refine .bind (.bind (.bind (foreign_preflight ..) fun chosen => ?_) fun result => hrecord _ _)
        fun _ => trivial
      cases chosen with
      | error error => trivial
      | ok hooks => exact foreign_queryHooks ..
  | waterfall membership E routing args =>
      refine .bind (.bind (.bind (foreign_preflight ..) fun chosen => ?_) fun result => hrecord _ _)
        fun _ => trivial
      cases chosen with
      | error error => exact .bind ⟨rfl, fun _ => trivial⟩ fun _ => trivial
      | ok hooks => exact .bind (foreign_waterfallChain ..) fun _ => trivial
  | registerListener owner scope E role options => exact absurd rfl (hregister _ _ _ _ _)
  | removeRegistration registration => exact absurd rfl (hremove _)
  | drainDisposables owner => exact absurd rfl (hdrain _)
  | setGate owner isOpen => exact absurd rfl (hgate _ _)

/-! ## Registrations, removals and drains -/

/-- The occurrence that this access registered. -/
def issuedOf : Performed V → Option ListenerRegistration
  | ⟨.pushGated owner E scope kind options, .ok (id, token)⟩ =>
      some {
        listener := { id := id, event := E.NAME, role := kind.role, scope := scope
                      options := options }
        owner := owner
        cleanup := token }
  | _ => none

/-- The occurrences registered so far, the latest first. -/
def issues (history : History V) : List ListenerRegistration :=
  history.filterMap fun row => issuedOf row.2

/-- The accesses of a registration. -/
def registering : Op V → Bool
  | .pushGated _ _ _ _ _ | .publish _ | .deliver _ => true
  | _ => false

/-- The accesses of a removal or a drain. -/
def removing : Op V → Bool
  | .remove _ _ | .publish _ | .removeDisposable _ _ | .tokens _ | .reported => true
  | _ => false

theorem registering_registerListener (owner : FiberId) (scope : List ScopeNode) (E : Event)
    (role : ListenerRole) (options : ListenerOptions) :
    (registerListener owner scope E role options : Prog V _).All fun op => registering op := by
  refine .bind ⟨rfl, fun _ => trivial⟩ fun answer => ?_
  cases answer with
  | error error => trivial
  | ok pair => exact ⟨rfl, fun _ => ⟨rfl, fun _ => trivial⟩⟩

theorem removing_removeListener (listener : ListenerObservationMeta) :
    (removeListener listener : Prog V Bool).All fun op => removing op := by
  refine .bind ⟨rfl, fun _ => trivial⟩ fun removed => ?_
  cases removed with
  | false => trivial
  | true => exact ⟨rfl, fun _ => trivial⟩

theorem removing_runTokens (owner : FiberId) (tokens : List DisposableToken) :
    (runTokens owner tokens : Prog V Unit).All fun op => removing op := by
  induction tokens with
  | nil => trivial
  | cons token tokens ih =>
      refine .bind ⟨rfl, fun _ => trivial⟩ fun taken => ?_
      cases taken with
      | none => exact ih
      | some listener => exact .bind (removing_removeListener listener) fun _ => ⟨rfl, fun _ => ih⟩

/-- Whoever hands a registration out has performed it. -/
theorem issued_of_register {owner : FiberId} {scope : List ScopeNode} {E : Event}
    {role : ListenerRole} {options : ListenerOptions} {events : List (Performed V)}
    {registration : ListenerRegistration}
    {next : Unit → Prog V (Except ListenerRegistrationError ListenerRegistration)}
    (h : Arrives (registerListener owner scope E role options) events
      (.act (.deliver registration) next)) :
    ∃ event ∈ events, issuedOf event = some registration := by
  rcases arrives_bind h with ⟨_, hpush, -⟩ | ⟨answer, first, rest, rfl, hpush, hrest⟩
  · cases (Program.arrives_perform hpush).2
  rw [runs_perform hpush]
  cases answer with
  | error error => exact (arrives_pure hrest).elim
  | ok pair =>
      rcases pair with ⟨id, token⟩
      rcases arrives_bind hrest with ⟨_, hpublish, -⟩ | ⟨_, _, rest, rfl, -, hrest⟩
      · cases (Program.arrives_perform hpublish).2
      rcases arrives_bind hrest with ⟨_, hdeliver, -⟩ | ⟨_, _, _, -, -, hend⟩
      · cases (Program.arrives_perform hdeliver).2
        exact ⟨_, List.mem_append_left _ List.mem_cons_self, rfl⟩
      · exact (arrives_pure hend).elim

theorem stays_removeListener (listener : ListenerObservationMeta) :
    (removeListener listener : Prog V Bool).All fun op =>
      ∀ owner token, op ≠ .removeDisposable owner token := by
  refine .bind ⟨nofun, fun _ => trivial⟩ fun removed => ?_
  cases removed with
  | false => trivial
  | true => exact ⟨nofun, fun _ => trivial⟩

/-- A removal goes to the journal after it went to the store. -/
theorem removed_of_removal {registration : ListenerRegistration} {owner : FiberId}
    {token : DisposableToken} {events : List (Performed V)}
    {next : Option ListenerObservationMeta → Prog V Bool}
    (h : Arrives (removeRegistration registration) events
      (.act (.removeDisposable owner token) next)) :
    owner = registration.owner ∧ token = registration.cleanup ∧ ∃ removed,
      (⟨.remove registration.listener.event registration.listener.id, removed⟩ :
        Performed V) ∈ events := by
  rcases arrives_bind h with ⟨_, hremove, -⟩ | ⟨removed, first, rest, rfl, hremove, hrest⟩
  · exact absurd rfl (Program.All.arrives hremove (stays_removeListener _) _ _)
  · rcases arrives_bind hrest with ⟨_, htake, -⟩ | ⟨_, _, _, -, -, hend⟩
    · cases (Program.arrives_perform htake).2
      rcases runs_bind hremove with ⟨answer, store, _, rfl, hstore, -⟩
      rw [runs_perform hstore]
      exact ⟨rfl, rfl, answer, by simp⟩
    · exact (arrives_pure hend).elim

/-- A drain takes a cleanup that it found, and removes its listener next. -/
theorem takes_of_runTokens {owner other : FiberId} {token : DisposableToken}
    {tokens : List DisposableToken} {events : List (Performed V)}
    {next : Option ListenerObservationMeta → Prog V Unit}
    (h : Arrives (runTokens owner tokens) events (.act (.removeDisposable other token) next)) :
    other = owner ∧ token ∈ tokens ∧ ∀ listener, ∃ rest,
      next (some listener) = .act (.remove listener.event listener.id) rest := by
  induction tokens generalizing events with
  | nil => exact (arrives_pure h).elim
  | cons first tokens ih =>
      have hlater : ∀ {events : List (Performed V)},
          Arrives (runTokens owner tokens) events (.act (.removeDisposable other token) next) →
            other = owner ∧ token ∈ first :: tokens ∧ ∀ listener, ∃ rest,
              next (some listener) = .act (.remove listener.event listener.id) rest := by
        intro events h
        have hrest := ih h
        exact ⟨hrest.1, List.mem_cons_of_mem _ hrest.2.1, hrest.2.2⟩
      change Arrives (Program.act (Op.removeDisposable owner first) _) events _ at h
      rcases Program.arrives_act h with
        ⟨-, heq⟩ | ⟨taken, rest, rfl, hrest⟩
      · cases heq
        exact ⟨rfl, List.mem_cons_self, fun listener => ⟨_, rfl⟩⟩
      · cases taken with
        | none => exact hlater hrest
        | some listener =>
            change Arrives (removeListener listener >>= _) rest _ at hrest
            rcases arrives_bind hrest with ⟨_, hremove, -⟩ | ⟨_, _, _, -, -, hrest⟩
            · exact absurd rfl (Program.All.arrives hremove (stays_removeListener listener) _ _)
            · rcases arrives_bind hrest with ⟨_, hreported, -⟩ | ⟨_, _, _, -, -, hrest⟩
              · cases (Program.arrives_perform hreported).2
              · exact hlater hrest

/-- Who takes a cleanup out of a journal: a removal, after the listener, or a drain that found it. -/
theorem takes_of_body {routine : Routine V} {owner : FiberId} {token : DisposableToken}
    {events : List (Performed V)} {next : Option ListenerObservationMeta → Prog V (Answer V)}
    (h : Arrives ((machine V).body routine) events
      (.act (.removeDisposable owner token) next)) :
    (∃ registration, routine = .removeRegistration registration ∧ owner = registration.owner ∧
      token = registration.cleanup ∧ ∃ removed,
        (⟨.remove registration.listener.event registration.listener.id, removed⟩ :
          Performed V) ∈ events) ∨
    (∃ tokens : List DisposableToken, (⟨.tokens owner, tokens⟩ : Performed V) ∈ events ∧
      token ∈ tokens) ∧ ∀ listener, ∃ rest,
        next (some listener) = .act (.remove listener.event listener.id) rest := by
  cases routine with
  | removeRegistration registration =>
      rcases arrives_bind h with ⟨_, hremoval, -⟩ | ⟨_, _, _, -, -, hend⟩
      · exact .inl ⟨registration, rfl, removed_of_removal hremoval⟩
      · exact (arrives_pure hend).elim
  | drainDisposables other =>
      rcases arrives_bind h with ⟨_, hdrain, rfl⟩ | ⟨_, _, _, -, -, hend⟩
      · rcases arrives_bind hdrain with ⟨_, htokens, -⟩ | ⟨tokens, first, rest, rfl, htokens, hrest⟩
        · cases (Program.arrives_perform htokens).2
        · rw [runs_perform htokens]
          rcases takes_of_runTokens hrest with ⟨rfl, htoken, hnext⟩
          refine .inr ⟨⟨tokens, by simp, List.mem_reverse.mp htoken⟩, fun listener => ?_⟩
          rcases hnext listener with ⟨more, hmore⟩
          exact ⟨_, congrArg (Program.bind · _) hmore⟩
      · exact (arrives_pure hend).elim
  | registerListener other scope E role options =>
      rcases arrives_bind h with ⟨_, hregister, -⟩ | ⟨_, _, _, -, -, hend⟩
      · cases Program.All.arrives hregister (registering_registerListener ..)
      · exact (arrives_pure hend).elim
  | setGate other isOpen =>
      rcases arrives_bind h with ⟨_, hgate, -⟩ | ⟨_, _, _, -, -, hend⟩
      · cases (Program.arrives_perform hgate).2
      · exact (arrives_pure hend).elim
  | emit | emitParallel | query | waterfall =>
      have hforeign : Foreign (.removeDisposable owner token : Op V) :=
        Program.All.arrives h (foreign_body nofun nofun nofun nofun)
      cases hforeign

/-- Whoever hands a registration out has performed it. -/
theorem issued_of_body {routine : Routine V} {registration : ListenerRegistration}
    {events : List (Performed V)} {next : Unit → Prog V (Answer V)}
    (h : Arrives ((machine V).body routine) events (.act (.deliver registration) next)) :
    ∃ event ∈ events, issuedOf event = some registration := by
  cases routine with
  | registerListener owner scope E role options =>
      rcases arrives_bind h with ⟨_, hregister, -⟩ | ⟨_, _, _, -, -, hend⟩
      · exact issued_of_register hregister
      · exact (arrives_pure hend).elim
  | removeRegistration other =>
      have hremoving : ((machine V).body (.removeRegistration other)).All fun op => removing op :=
        .bind (.bind (removing_removeListener _) fun _ => ⟨rfl, fun _ => trivial⟩) fun _ => trivial
      cases Program.All.arrives h hremoving
  | drainDisposables owner =>
      have hremoving : ((machine V).body (.drainDisposables owner)).All fun op => removing op :=
        .bind (.bind ⟨rfl, fun _ => trivial⟩ fun _ => removing_runTokens ..) fun _ => trivial
      cases Program.All.arrives h hremoving
  | setGate owner isOpen =>
      rcases arrives_bind h with ⟨_, hgate, -⟩ | ⟨_, _, _, -, -, hend⟩
      · cases (Program.arrives_perform hgate).2
      · exact (arrives_pure hend).elim
  | emit | emitParallel | query | waterfall =>
      have hforeign : Foreign (.deliver registration : Op V) :=
        Program.All.arrives h (foreign_body nofun nofun nofun nofun)
      cases hforeign

/-! ## What one access does to the journals -/

/-- The cleanup that this access took. -/
def takenOf : Performed V → Option (FiberId × DisposableToken)
  | ⟨.removeDisposable owner token, _⟩ => some (owner, token)
  | _ => none

/-- The registration that this access handed out. -/
def deliveredOf : Performed V → Option ListenerRegistration
  | ⟨.deliver registration, _⟩ => some registration
  | _ => none

def rows (s : Shared) (owner : FiberId) : List (DisposableToken × ListenerObservationMeta) :=
  (s.journals owner).map

/-- No cleanup with this token is in the journal, and none will be. -/
structure Gone (s : Shared) (owner : FiberId) (token : DisposableToken) : Prop where
  used : token ≤ (s.journals owner).sn
  off : ∀ listener, (token, listener) ∉ rows s owner

/-- The specification of one access to the journals. -/
structure JournalStep (s s' : Shared) (event : Performed V) : Prop where
  grows : ∀ owner, (s.journals owner).sn ≤ (s'.journals owner).sn
  fresh : ∀ registration, issuedOf event = some registration →
    (s.journals registration.owner).sn < registration.cleanup ∧
      registration.cleanup ≤ (s'.journals registration.owner).sn
  mem : ∀ owner token listener, (token, listener) ∈ rows s' owner ↔
    issuedOf event = some { listener := listener, owner := owner, cleanup := token } ∨
      (token, listener) ∈ rows s owner ∧ takenOf event ≠ some (owner, token)
  keyed : (∀ owner, ∀ row ∈ rows s owner, row.1 ≤ (s.journals owner).sn) →
    (∀ owner, ((rows s owner).map Prod.fst).Nodup) →
      ∀ owner, ((rows s' owner).map Prod.fst).Nodup
  found : ∀ owner (tokens : List DisposableToken), event = ⟨.tokens owner, tokens⟩ →
    tokens = (rows s owner).map Prod.fst
  looked : ∀ owner token (taken : Option ListenerObservationMeta),
    event = ⟨.removeDisposable owner token, taken⟩ → taken = (rows s owner).lookup token
  held : s'.registrations = (deliveredOf event).toList ++ s.registrations

/-- Accesses that leave the journals alone. -/
theorem JournalStep.of_same {s s' : Shared} {event : Performed V}
    (hrows : ∀ owner, rows s' owner = rows s owner)
    (hsn : ∀ owner, (s'.journals owner).sn = (s.journals owner).sn)
    (hheld : s'.registrations = (deliveredOf event).toList ++ s.registrations)
    (hissued : issuedOf event = none) (htaken : takenOf event = none)
    (hfound : ∀ owner (tokens : List DisposableToken), event = ⟨.tokens owner, tokens⟩ →
      tokens = (rows s owner).map Prod.fst) : JournalStep s s' event where
  grows owner := Nat.le_of_eq (hsn owner).symm
  fresh registration h := by
    rw [hissued] at h
    cases h
  mem owner token listener := by
    simp [hissued, htaken, hrows]
  keyed _ h owner := by
    rw [hrows]
    exact h owner
  found := hfound
  looked owner token taken h := by
    rw [h] at htaken
    cases htaken
  held := hheld

theorem rows_setJournal (s : Shared) (owner other : FiberId) (list : DisposableList) :
    rows (s.setJournal owner list) other = if other = owner then list.map else rows s other := by
  unfold rows Shared.setJournal
  dsimp only
  split <;> rfl

theorem sn_setJournal (s : Shared) (owner other : FiberId) (list : DisposableList) :
    ((s.setJournal owner list).journals other).sn =
      if other = owner then list.sn else (s.journals other).sn := by
  unfold Shared.setJournal
  dsimp only
  split <;> rfl

theorem journalStep_removeDisposable (s : Shared) (owner : FiberId) (token : DisposableToken) :
    JournalStep (V := V) s (s.removeDisposable owner token).1
      ⟨.removeDisposable owner token, (s.removeDisposable owner token).2⟩ := by
  constructor
  case grows =>
    intro other
    simp only [Shared.removeDisposable, sn_setJournal]
    split
    · rename_i hother
      subst hother
      exact Nat.le_refl _
    · exact Nat.le_refl _
  case fresh => exact nofun
  case mem =>
    intro other token' listener
    simp only [Shared.removeDisposable, rows_setJournal, issuedOf, takenOf, reduceCtorEq, false_or,
      ne_eq, Option.some.injEq, Prod.mk.injEq]
    split
    · rename_i hother
      subst hother
      rw [List.mem_filter]
      simp only [bne_iff_ne, ne_eq, true_and, rows]
      exact and_congr_right fun _ => not_congr eq_comm
    · rename_i hother
      exact (and_iff_left fun h => hother h.1.symm).symm
  case keyed =>
    intro _ hkeyed other
    simp only [Shared.removeDisposable, rows_setJournal]
    split
    · exact (hkeyed owner).sublist (List.filter_sublist.map _)
    · exact hkeyed other
  case found => exact nofun
  case looked =>
    intro other token' taken heq
    cases heq
    rfl
  case held => rfl

theorem journalStep_pushGated (s : Shared) (owner : FiberId) (E : Event) (scope : List ScopeNode)
    (kind : HookKind) (options : ListenerOptions) :
    JournalStep (V := V) s (s.pushGated owner E scope kind options).1
      ⟨.pushGated owner E scope kind options, (s.pushGated owner E scope kind options).2⟩ := by
  unfold Shared.pushGated
  simp only
  split
  · cases hadd : s.events.addReserved E (Hook.new scope kind options s.ids) with
    | none => exact .of_same (fun _ => rfl) (fun _ => rfl) rfl rfl rfl nofun
    | some events =>
        constructor
        case grows =>
          intro other
          simp only [sn_setJournal]
          split
          · rename_i hother
            rw [hother]
            exact Nat.le_succ _
          · exact Nat.le_refl _
        case fresh =>
          rintro registration ⟨⟩
          simp only [sn_setJournal, if_true]
          exact ⟨Nat.lt_succ_self _, Nat.le_refl _⟩
        case mem =>
          intro other token listener
          simp only [rows_setJournal, issuedOf, takenOf, ne_eq, reduceCtorEq, not_false_eq_true,
            and_true, Option.some.injEq, ListenerRegistration.mk.injEq]
          split
          · rename_i hother
            subst hother
            rw [List.mem_append, List.mem_singleton, Prod.mk.injEq, or_comm]
            simp only [true_and]
            exact or_congr_left ⟨fun h => ⟨h.2.symm, h.1.symm⟩, fun h => ⟨h.2.symm, h.1.symm⟩⟩
          · rename_i hother
            exact (or_iff_right fun h => hother h.2.1.symm).symm
        case keyed =>
          intro hbounded hkeyed other
          simp only [rows_setJournal]
          split
          · rw [List.map_append]
            refine List.nodup_append.mpr ⟨hkeyed owner, List.pairwise_singleton _ _, ?_⟩
            rintro token htoken other hother rfl
            rcases List.mem_map.mp htoken with ⟨row, hrow, hkey⟩
            have hle := hbounded owner row hrow
            rw [hkey, List.mem_singleton.mp hother] at hle
            exact Nat.not_succ_le_self _ hle
          · exact hkeyed other
        case found => exact nofun
        case looked => exact nofun
        case held => rfl
  · exact .of_same (fun _ => rfl) (fun _ => rfl) rfl rfl rfl nofun

theorem journalStep_of_exec {choice : Choice V} {op : Op V} {s s' : Shared} {r : op.Ret}
    (h : exec choice op s = some (s', r)) : JournalStep s s' ⟨op, r⟩ := by
  cases op with
  | removeDisposable owner token =>
      have htake : s.removeDisposable owner token = (s', r) := Option.some.inj h
      have hstep := journalStep_removeDisposable (V := V) s owner token
      rw [htake] at hstep
      exact hstep
  | pushGated owner E scope kind options =>
      have hpush : s.pushGated owner E scope kind options = (s', r) := Option.some.inj h
      have hstep := journalStep_pushGated (V := V) s owner E scope kind options
      rw [hpush] at hstep
      exact hstep
  | tokens owner =>
      cases h
      refine .of_same (fun _ => rfl) (fun _ => rfl) rfl rfl rfl ?_
      intro other tokens heq
      cases heq
      rfl
  | setGate owner isOpen =>
      cases h
      refine .of_same (fun other => ?_) (fun other => ?_) rfl rfl rfl nofun
      · rw [rows_setJournal]
        split
        · rename_i hother
          rw [hother]
          rfl
        · rfl
      · rw [sn_setJournal]
        split
        · rename_i hother
          rw [hother]
        · rfl
  | unreachable => cases h
  | deliver registration =>
      cases h
      exact .of_same (fun _ => rfl) (fun _ => rfl) rfl rfl rfl nofun
  | preflight | claim | remove | publish | call | ended | moved | resumed | tail
  | tailEnded | discard | reported =>
      cases h
      exact .of_same (fun _ => rfl) (fun _ => rfl) rfl rfl rfl nofun

theorem Gone.step {s s' : Shared} {event : Performed V} (h : JournalStep s s' event)
    {owner : FiberId} {token : DisposableToken} (hgone : Gone s owner token) :
    Gone s' owner token where
  used := Nat.le_trans hgone.used (h.grows owner)
  off listener hmem := by
    rcases (h.mem owner token listener).mp hmem with hissued | ⟨hold, -⟩
    · have hlt := (h.fresh _ hissued).1
      exact Nat.not_lt_of_le hgone.used hlt
    · exact hgone.off listener hold

theorem Gone.of_taken {s s' : Shared} {event : Performed V} (h : JournalStep s s' event)
    {owner : FiberId} {token : DisposableToken} (htaken : takenOf event = some (owner, token))
    (hused : token ≤ (s.journals owner).sn) : Gone s' owner token where
  used := Nat.le_trans hused (h.grows owner)
  off listener hmem := by
    rcases (h.mem owner token listener).mp hmem with hissued | ⟨-, hkept⟩
    · exact Nat.not_lt_of_le hused (h.fresh _ hissued).1
    · exact hkept htaken

/-! ## Registrations, the store and the journals -/

/-- An occurrence that was registered is in the ledger. -/
theorem registered_of_issued {event : Performed V} {registration : ListenerRegistration}
    (h : issuedOf event = some registration) : ∃ hook,
      hookOf event = some (registration.listener.event, hook) ∧
        hook.id = registration.listener.id := by
  rcases event with ⟨op, r⟩
  cases op with
  | pushGated owner E scope kind options =>
      cases r with
      | error error => cases h
      | ok pair =>
          cases h
          exact ⟨_, rfl, rfl⟩
  | _ => cases h

/-- A registered occurrence that is not in the store was removed. -/
theorem Ledger.removed_of_issued {s : Record V} (h : Ledger s)
    {registration : ListenerRegistration} (hissued : registration ∈ issues s.history)
    (hnone : s.state.events.find registration.listener.event registration.listener.id = none) :
    (registration.listener.event, registration.listener.id) ∈ removals s.history := by
  rcases List.mem_filterMap.mp hissued with ⟨row, hrow, hrow'⟩
  rcases registered_of_issued hrow' with ⟨hook, hhook, hid⟩
  have hregistered : (registration.listener.event, hook) ∈ registrations s.history :=
    List.mem_filterMap.mpr ⟨row, hrow, hhook⟩
  by_contra hremoved
  have hfind := (h.find registration.listener.event registration.listener.id hook).mpr
    ⟨hid, hregistered, hid ▸ hremoved⟩
  cases hnone.symm.trans hfind

/-- What is removed is not in the store. -/
theorem Ledger.find_of_removed {s : Record V} (h : Ledger s) {name : String}
    {id : ListenerRegistrationId} (hremoved : (name, id) ∈ removals s.history) :
    s.state.events.find name id = none := by
  cases hfind : s.state.events.find name id with
  | none => rfl
  | some hook =>
      rcases (h.find name id hook).mp hfind with ⟨rfl, hlive⟩
      exact absurd hremoved hlive.2

theorem issues_cons (row : Party × Performed V) (history : History V) :
    issues (row :: history) = (issuedOf row.2).toList ++ issues history := by
  unfold issues
  rw [List.filterMap_cons]
  cases issuedOf row.2 <;> rfl

theorem mem_issues_cons {row : Party × Performed V} {history : History V}
    {registration : ListenerRegistration} : registration ∈ issues (row :: history) ↔
      issuedOf row.2 = some registration ∨ registration ∈ issues history := by
  rw [issues_cons, List.mem_append, Option.mem_toList]

/-- What was removed stays removed. -/
theorem mem_removals_cons {row : Party × Performed V} {history : History V}
    {occurrence : String × ListenerRegistrationId} (h : occurrence ∈ removals history) :
    occurrence ∈ removals (row :: history) := by
  rw [Ledger.removals_cons]
  exact List.mem_append_right _ h

/-- What holds between the registrations, the journals and the store. -/
structure Journaled (cfg : Config (Record V) (Op V) Op.Ret (Answer V)) : Prop where
  bounded : ∀ owner, ∀ row ∈ rows cfg.shared.state owner,
    row.1 ≤ (cfg.shared.state.journals owner).sn
  keyed : ∀ owner, ((rows cfg.shared.state owner).map Prod.fst).Nodup
  used : ∀ registration ∈ issues cfg.shared.history,
    registration.cleanup ≤ (cfg.shared.state.journals registration.owner).sn
  single : ∀ registration ∈ issues cfg.shared.history, ∀ other ∈ issues cfg.shared.history,
    registration.owner = other.owner → registration.cleanup = other.cleanup →
      registration = other
  found : ∀ p owner (tokens : List DisposableToken),
    (p, (⟨.tokens owner, tokens⟩ : Performed V)) ∈ cfg.shared.history →
      ∀ token ∈ tokens, token ≤ (cfg.shared.state.journals owner).sn
  taken : ∀ p event owner token, (p, event) ∈ cfg.shared.history →
    takenOf event = some (owner, token) → Gone cfg.shared.state owner token
  /-- A drain finds what is in the journal when it looks. -/
  read : ∀ later p owner (tokens : List DisposableToken) earlier,
    cfg.shared.history = later ++ (p, ⟨.tokens owner, tokens⟩) :: earlier →
      ∀ registration ∈ issues earlier, registration.owner = owner →
        registration.cleanup ∈ tokens ∨ Gone cfg.shared.state owner registration.cleanup
  held : ∀ registration ∈ cfg.shared.state.registrations,
    registration ∈ issues cfg.shared.history
  entered : ∀ p registration, cfg.shared.origin p = some (.removeRegistration registration) →
    registration ∈ issues cfg.shared.history
  /-- Past the store a removal has unregistered its listener, or found it unregistered. -/
  removed : ∀ p registration removed,
    cfg.shared.origin p = some (.removeRegistration registration) →
      (⟨.remove registration.listener.event registration.listener.id, removed⟩ : Performed V) ∈
        cfg.shared.log p →
      (registration.listener.event, registration.listener.id) ∈ removals cfg.shared.history
  /-- What left the journal is removed, or is removed next by the drain that took it. -/
  kept : ∀ registration ∈ issues cfg.shared.history,
    (registration.cleanup, registration.listener) ∈
        rows cfg.shared.state registration.owner ∨
      (registration.listener.event, registration.listener.id) ∈ removals cfg.shared.history ∨
      ∃ p next, cfg.pool p =
        some (.act (.remove registration.listener.event registration.listener.id) next)

namespace Journaled

theorem start : Journaled (V := V) (machine V).recorded.start where
  bounded _ _ h := absurd h List.not_mem_nil
  keyed _ := .nil
  used _ h := absurd h List.not_mem_nil
  single _ h := absurd h List.not_mem_nil
  found _ _ _ h := absurd h List.not_mem_nil
  taken _ _ _ _ h := absurd h List.not_mem_nil
  read later p owner tokens earlier h := by
    cases later with
    | nil => cases h
    | cons => cases h
  held _ h := absurd h List.not_mem_nil
  entered _ _ h := by cases h
  removed _ _ _ h := by cases h
  kept _ h := absurd h List.not_mem_nil

variable {cfg : Config (Record V) (Op V) Op.Ret (Answer V)}

/-- The access that a party is about to make takes only what was found or removed. -/
theorem token_used (hreach : (machine V).recorded.Reachable Machine.anyRun cfg)
    (h : Journaled cfg) {p : Party} {owner : FiberId} {token : DisposableToken}
    {next : Option ListenerObservationMeta → Prog V (Answer V)}
    (hpool : cfg.pool p = some (.act (.removeDisposable owner token) next)) :
    token ≤ (cfg.shared.state.journals owner).sn := by
  rcases Machine.follows_of_reachable hreach hpool with ⟨routine, horigin, hpath⟩ | ⟨-, hgone⟩
  · rcases takes_of_body hpath with ⟨registration, rfl, rfl, rfl, -⟩ | ⟨⟨tokens, htokens, htoken⟩, -⟩
    · exact h.used registration (h.entered p registration horigin)
    · exact h.found p owner tokens (Machine.mem_history_of_log hreach htokens) token htoken
  · cases hgone

/-- What is handed out was registered. -/
theorem issued_of_deliver (hreach : (machine V).recorded.Reachable Machine.anyRun cfg) {p : Party}
    {registration : ListenerRegistration} {next : Unit → Prog V (Answer V)}
    (hpool : cfg.pool p = some (.act (.deliver registration) next)) :
    registration ∈ issues cfg.shared.history := by
  rcases Machine.follows_of_reachable hreach hpool with ⟨routine, -, hpath⟩ | ⟨-, hgone⟩
  · rcases issued_of_body hpath with ⟨event, hevent, hissued⟩
    exact List.mem_filterMap.mpr ⟨_, Machine.mem_history_of_log hreach hevent, hissued⟩
  · cases hgone

/-- A listener that was tried to be removed is not in the store. -/
theorem find_of_remove (choice : Choice V) {s s' : Shared} {name : String}
    {id : ListenerRegistrationId} {removed : Bool}
    (h : exec choice (.remove name id : Op V) s = some (s', removed)) :
    s'.events.find name id = none := by
  cases h
  exact ((EventState.find_remove s.events name id).2 name id).trans (if_pos ⟨rfl, rfl⟩)

/-- The cleanup that a party takes is run next, or its listener is gone already. -/
theorem removed_of_take (hreach : (machine V).recorded.Reachable Machine.anyRun cfg)
    (h : Journaled cfg) {p : Party} {registration : ListenerRegistration}
    {next : Option ListenerObservationMeta → Prog V (Answer V)}
    (hpool : cfg.pool p =
      some (.act (.removeDisposable registration.owner registration.cleanup) next))
    (hissued : registration ∈ issues cfg.shared.history) :
    (registration.listener.event, registration.listener.id) ∈ removals cfg.shared.history ∨
      ∃ rest, next (some registration.listener) =
        .act (.remove registration.listener.event registration.listener.id) rest := by
  rcases Machine.follows_of_reachable hreach hpool with ⟨routine, horigin, hpath⟩ | ⟨-, hgone⟩
  · rcases takes_of_body hpath with ⟨other, rfl, howner, hcleanup, removed, hlog⟩ | ⟨-, hnext⟩
    · obtain rfl := h.single registration hissued other (h.entered p other horigin) howner hcleanup
      exact .inl (h.removed p registration removed horigin hlog)
    · exact .inr (hnext registration.listener)
  · cases hgone

theorem lookup_of_mem {α β : Type} [DecidableEq α] {l : List (α × β)} (h : (l.map Prod.fst).Nodup)
    {a : α} {b : β} (hmem : (a, b) ∈ l) : l.lookup a = some b := by
  induction l with
  | nil => cases hmem
  | cons row l ih =>
      rw [List.map_cons, List.nodup_cons] at h
      rcases List.mem_cons.mp hmem with rfl | hold
      · simp
      · have hne : (a == row.1) = false :=
          beq_eq_false_iff_ne.mpr fun heq => h.1 (heq ▸ List.mem_map_of_mem hold)
        rw [List.lookup_cons, hne]
        exact ih h.2 hold

/-! ### One access -/

section Perform

variable {p q : Party} {op : Op V} {r : op.Ret} {next : op.Ret → Prog V (Answer V)}
variable {state : Shared} {row : Party × Performed V}

/-- A token is handed out once for each Fiber. -/
theorem single_step (h : Journaled cfg) (hstep : JournalStep cfg.shared.state state row.2) :
    ∀ registration ∈ issues (row :: cfg.shared.history), ∀ other ∈ issues (row :: cfg.shared.history),
      registration.owner = other.owner → registration.cleanup = other.cleanup →
        registration = other := by
  intro registration hmem other hother howner hcleanup
  -- a new token lies above all that are in use
  have hlater : ∀ {first second : ListenerRegistration}, issuedOf row.2 = some first →
      second ∈ issues cfg.shared.history → first.owner = second.owner →
        first.cleanup = second.cleanup → False := by
    intro first second hfirst hsecond howner hcleanup
    have hlt := (hstep.fresh first hfirst).1
    rw [howner, hcleanup] at hlt
    exact Nat.not_lt_of_le (h.used second hsecond) hlt
  rcases mem_issues_cons.mp hmem with hnew | hbefore
  · rcases mem_issues_cons.mp hother with hnew' | hbefore'
    · exact Option.some.inj (hnew.symm.trans hnew')
    · exact (hlater hnew hbefore' howner hcleanup).elim
  · rcases mem_issues_cons.mp hother with hnew' | hbefore'
    · exact (hlater hnew' hbefore howner.symm hcleanup.symm).elim
    · exact h.single registration hbefore other hbefore' howner hcleanup

theorem used_step (h : Journaled cfg) (hstep : JournalStep cfg.shared.state state row.2) :
    ∀ registration ∈ issues (row :: cfg.shared.history),
      registration.cleanup ≤ (state.journals registration.owner).sn := by
  intro registration hmem
  rcases mem_issues_cons.mp hmem with hissued | hbefore
  · exact (hstep.fresh _ hissued).2
  · exact Nat.le_trans (h.used registration hbefore) (hstep.grows _)

theorem found_step (h : Journaled cfg) (hstep : JournalStep cfg.shared.state state row.2) :
    ∀ p owner (tokens : List DisposableToken),
      (p, (⟨.tokens owner, tokens⟩ : Performed V)) ∈ row :: cfg.shared.history →
        ∀ token ∈ tokens, token ≤ (state.journals owner).sn := by
  intro party owner tokens hrow token htoken
  rcases List.mem_cons.mp hrow with rfl | hbefore
  · rw [hstep.found owner tokens rfl] at htoken
    rcases List.mem_map.mp htoken with ⟨entry, hmem, rfl⟩
    exact Nat.le_trans (h.bounded owner entry hmem) (hstep.grows owner)
  · exact Nat.le_trans (h.found party owner tokens hbefore token htoken) (hstep.grows owner)

/-- What is registered and not in the journal any more is gone for good. -/
theorem read_step (h : Journaled cfg) (hstep : JournalStep cfg.shared.state state row.2) :
    ∀ later p owner (tokens : List DisposableToken) earlier,
      row :: cfg.shared.history = later ++ (p, (⟨.tokens owner, tokens⟩ : Performed V)) :: earlier →
        ∀ registration ∈ issues earlier, registration.owner = owner →
          registration.cleanup ∈ tokens ∨ Gone state owner registration.cleanup := by
  intro later party owner tokens earlier hsplit registration hissued howner
  cases later with
  | nil =>
      cases hsplit
      by_cases hrow : ∃ listener, (registration.cleanup, listener) ∈ rows cfg.shared.state owner
      · rcases hrow with ⟨listener, hlistener⟩
        rw [hstep.found owner tokens rfl]
        exact .inl (List.mem_map.mpr ⟨_, hlistener, rfl⟩)
      · have hused := h.used registration hissued
        rw [howner] at hused
        have hgone : Gone cfg.shared.state owner registration.cleanup :=
          ⟨hused, fun listener hlistener => hrow ⟨listener, hlistener⟩⟩
        exact .inr (hgone.step hstep)
  | cons first later =>
      have hbefore := (List.cons.inj hsplit).2
      exact (h.read later party owner tokens earlier hbefore registration hissued howner).imp_right
        fun hgone => hgone.step hstep

theorem taken_step (hreach : (machine V).recorded.Reachable Machine.anyRun cfg) (h : Journaled cfg)
    (hpool : cfg.pool p = some (.act op next))
    (hstep : JournalStep cfg.shared.state state (⟨op, r⟩ : Performed V)) :
    ∀ party event owner token, (party, event) ∈ (p, (⟨op, r⟩ : Performed V)) :: cfg.shared.history →
      takenOf event = some (owner, token) → Gone state owner token := by
  intro party event owner token hrow htaken
  rcases List.mem_cons.mp hrow with hnew | hbefore
  · cases hnew
    cases op with
    | removeDisposable other cleanup =>
        cases htaken
        exact Gone.of_taken hstep rfl (h.token_used hreach hpool)
    | _ => cases htaken
  · exact (h.taken party event owner token hbefore htaken).step hstep

/-- Only what was registered is handed out. -/
theorem held_step (hreach : (machine V).recorded.Reachable Machine.anyRun cfg) (h : Journaled cfg)
    (hpool : cfg.pool p = some (.act op next))
    (hstep : JournalStep cfg.shared.state state (⟨op, r⟩ : Performed V)) :
    ∀ registration ∈ state.registrations, registration ∈ issues cfg.shared.history := by
  intro registration hmem
  rw [hstep.held, List.mem_append] at hmem
  rcases hmem with hnew | hbefore
  · cases op with
    | deliver other =>
        obtain rfl : registration = other := by simpa [deliveredOf] using hnew
        exact issued_of_deliver hreach hpool
    | _ => cases hnew
  · exact h.held registration hbefore

/-- Whoever goes to the store for an occurrence leaves it removed. -/
theorem removed_of_store {cfg' : Config (Record V) (Op V) Op.Ret (Answer V)} {choice : Choice V}
    (hreach' : (machine V).recorded.Reachable Machine.anyRun cfg')
    (hexec : exec choice op cfg.shared.state = some (state, r))
    (hcfg : cfg'.shared = (cfg.shared.move state).record p ⟨op, r⟩)
    {registration : ListenerRegistration} (hissued : registration ∈ issues cfg.shared.history)
    (hop : op = .remove registration.listener.event registration.listener.id) :
    (registration.listener.event, registration.listener.id) ∈
      removals ((p, (⟨op, r⟩ : Performed V)) :: cfg.shared.history) := by
  have hledger := Ledger.of_reachable hreach'
  rw [hcfg] at hledger
  subst hop
  exact hledger.removed_of_issued (mem_issues_cons.mpr (.inr hissued)) (find_of_remove choice hexec)

/-- What leaves the journal with this access is removed, or its drain removes it next. -/
theorem kept_step (hreach : (machine V).recorded.Reachable Machine.anyRun cfg) (h : Journaled cfg)
    (hpool : cfg.pool p = some (.act op next))
    (hstep : JournalStep cfg.shared.state state (⟨op, r⟩ : Performed V))
    (hstore : ∀ {registration : ListenerRegistration}, registration ∈ issues cfg.shared.history →
      op = .remove registration.listener.event registration.listener.id →
        (registration.listener.event, registration.listener.id) ∈
          removals ((p, (⟨op, r⟩ : Performed V)) :: cfg.shared.history)) :
    ∀ registration ∈ issues ((p, (⟨op, r⟩ : Performed V)) :: cfg.shared.history),
      (registration.cleanup, registration.listener) ∈ rows state registration.owner ∨
        (registration.listener.event, registration.listener.id) ∈
          removals ((p, (⟨op, r⟩ : Performed V)) :: cfg.shared.history) ∨
        ∃ party rest, Machine.place cfg.pool p (next r) party =
          some (.act (.remove registration.listener.event registration.listener.id) rest) := by
  intro registration hmem
  rcases mem_issues_cons.mp hmem with hnew | hissued
  · exact .inl ((hstep.mem _ _ _).mpr (.inl hnew))
  rcases h.kept registration hissued with hrow | hremoved | ⟨party, rest, hparty⟩
  · by_cases htaken : takenOf (⟨op, r⟩ : Performed V) =
      some (registration.owner, registration.cleanup)
    · cases op with
      | removeDisposable owner token =>
          cases htaken
          have hr : r = some registration.listener :=
            (hstep.looked _ _ r rfl).trans (lookup_of_mem (h.keyed _) hrow)
          rcases removed_of_take hreach h hpool hissued with hremoved | ⟨rest, hnext⟩
          · exact .inr (.inl (mem_removals_cons hremoved))
          · refine .inr (.inr ⟨p, rest, ?_⟩)
            exact (Machine.place_self ..).trans (congrArg some ((congrArg next hr).trans hnext))
      | _ => cases htaken
    · exact .inl ((hstep.mem _ _ _).mpr (.inr ⟨hrow, htaken⟩))
  · exact .inr (.inl (mem_removals_cons hremoved))
  · by_cases hself : party = p
    · subst hself
      rw [hpool] at hparty
      have hop : op = .remove registration.listener.event registration.listener.id := by
        cases hparty
        rfl
      exact .inr (.inl (hstore hissued hop))
    · exact .inr (.inr ⟨party, rest, (Machine.place_of_ne _ _ hself).trans hparty⟩)

/-- What one access leaves. -/
theorem perform {cfg' : Config (Record V) (Op V) Op.Ret (Answer V)}
    (hreach : (machine V).recorded.Reachable Machine.anyRun cfg) (h : Journaled cfg)
    (hreach' : (machine V).recorded.Reachable Machine.anyRun cfg') {choice : Choice V}
    (hpool : cfg.pool p = some (.act op next))
    (hexec : (machine V).exec p q choice op cfg.shared.state = some (state, r))
    (hcfg : cfg' = { shared := (cfg.shared.move state).record p ⟨op, r⟩
                     pool := Machine.place cfg.pool p (next r) }) : Journaled cfg' := by
  have hstep : JournalStep cfg.shared.state state (⟨op, r⟩ : Performed V) := journalStep_of_exec hexec
  have hstore : ∀ {registration : ListenerRegistration}, registration ∈ issues cfg.shared.history →
      op = .remove registration.listener.event registration.listener.id →
        (registration.listener.event, registration.listener.id) ∈
          removals ((p, (⟨op, r⟩ : Performed V)) :: cfg.shared.history) :=
    removed_of_store hreach' hexec (congrArg Config.shared hcfg)
  subst hcfg
  constructor
  case bounded =>
    rintro owner ⟨token, listener⟩ hrow
    rcases (hstep.mem owner token listener).mp hrow with hissued | ⟨hbefore, -⟩
    · exact (hstep.fresh _ hissued).2
    · exact Nat.le_trans (h.bounded owner _ hbefore) (hstep.grows owner)
  case keyed => exact hstep.keyed h.bounded h.keyed
  case used => exact h.used_step hstep
  case single => exact h.single_step hstep
  case found => exact h.found_step hstep
  case taken => exact h.taken_step hreach hpool hstep
  case read => exact h.read_step hstep
  case held =>
    exact fun registration hmem =>
      mem_issues_cons.mpr (.inr (h.held_step hreach hpool hstep registration hmem))
  case entered =>
    exact fun party registration horigin =>
      mem_issues_cons.mpr (.inr (h.entered party registration horigin))
  case removed =>
    intro party registration removed horigin hlog
    have hissued := h.entered party registration horigin
    by_cases hparty : party = p
    · subst hparty
      have hlog' : (⟨.remove registration.listener.event registration.listener.id, removed⟩ :
          Performed V) ∈ cfg.shared.log party ++ [⟨op, r⟩] := by
        simpa [Recorded.record, Recorded.move] using hlog
      rcases List.mem_append.mp hlog' with hbefore | hnew
      · exact mem_removals_cons (h.removed party registration removed horigin hbefore)
      · have heq := List.mem_singleton.mp hnew
        exact hstore hissued (congrArg Sigma.fst heq).symm
    · have hothers := (Machine.record_others (cfg.shared.move state) ⟨op, r⟩ hparty).2
      exact mem_removals_cons (h.removed party registration removed horigin (hothers ▸ hlog))
  case kept => exact h.kept_step hreach hpool hstep hstore

end Perform

/-- A party begins a routine, or is left with none. -/
theorem begin (h : Journaled cfg) {p : Party} {routine : Option (Routine V)} {state : Shared}
    {x : Prog V (Answer V)} (hjournals : state.journals = cfg.shared.state.journals)
    (hheld : ∀ registration ∈ state.registrations,
      registration ∈ cfg.shared.state.registrations)
    (hentered : ∀ registration, routine = some (.removeRegistration registration) →
      registration ∈ issues cfg.shared.history)
    (hpool : ∀ event id next, cfg.pool p ≠ some (.act (.remove event id) next)) :
    Journaled { shared := (cfg.shared.move state).begin p routine
                pool := Machine.place cfg.pool p x } := by
  -- starting a routine moves no journal
  have hrows : ∀ owner, rows state owner = rows cfg.shared.state owner := by
    intro owner
    unfold rows
    rw [hjournals]
  have hgone : ∀ {owner token}, Gone cfg.shared.state owner token → Gone state owner token := by
    intro owner token hbefore
    refine ⟨?_, ?_⟩
    · rw [hjournals]
      exact hbefore.used
    · rw [hrows]
      exact hbefore.off
  constructor
  case bounded =>
    intro owner
    show ∀ row ∈ rows state owner, row.1 ≤ (state.journals owner).sn
    rw [hrows, hjournals]
    exact h.bounded owner
  case keyed =>
    intro owner
    show ((rows state owner).map Prod.fst).Nodup
    rw [hrows]
    exact h.keyed owner
  case used =>
    intro registration hmem
    show registration.cleanup ≤ (state.journals registration.owner).sn
    rw [hjournals]
    exact h.used registration hmem
  case single => exact h.single
  case found =>
    intro party owner tokens hrow token htoken
    show token ≤ (state.journals owner).sn
    rw [hjournals]
    exact h.found party owner tokens hrow token htoken
  case taken =>
    exact fun party event owner token hrow htaken =>
      hgone (h.taken party event owner token hrow htaken)
  case read =>
    exact fun later party owner tokens earlier hsplit registration hissued howner =>
      (h.read later party owner tokens earlier hsplit registration hissued howner).imp_right hgone
  case held => exact fun registration hmem => h.held registration (hheld registration hmem)
  case entered =>
    intro party registration horigin
    by_cases hparty : party = p
    · subst hparty
      exact hentered registration (by simpa [Recorded.begin] using horigin)
    · exact h.entered party registration
        ((Machine.begin_others (cfg.shared.move state) routine hparty).1 ▸ horigin)
  case removed =>
    intro party registration removed horigin hlog
    by_cases hparty : party = p
    · subst hparty
      -- a new routine has performed nothing yet
      have hnothing : ((cfg.shared.move state).begin party routine).log party = [] := by
        simp [Recorded.begin]
      exact absurd (hnothing ▸ hlog) List.not_mem_nil
    · have hothers := Machine.begin_others (cfg.shared.move state) routine hparty
      exact h.removed party registration removed (hothers.1 ▸ horigin) (hothers.2 ▸ hlog)
  case kept =>
    intro registration hissued
    show (registration.cleanup, registration.listener) ∈ rows state registration.owner ∨ _
    rw [hrows]
    refine (h.kept registration hissued).imp_right (.imp_right ?_)
    rintro ⟨party, rest, hparty⟩
    -- the party that is about to remove the listener is another one
    have hp : party ≠ p := by
      rintro rfl
      exact hpool _ _ rest hparty
    exact ⟨party, rest, (Machine.place_of_ne _ _ hp).trans hparty⟩

theorem of_reachable (hreach : (machine V).recorded.Reachable Machine.anyRun cfg) :
    Journaled cfg := by
  induction hreach with
  | start => exact start
  | @step cfg cfg' label hbefore hmeets hmoves ih =>
      have hreach' : (machine V).recorded.Reachable Machine.anyRun cfg' :=
        .step label hbefore hmeets hmoves
      cases Machine.moves_of_step hmoves with
      | performed hpool _ hexec => exact ih.perform hbefore hreach' hpool hexec rfl
      | forked _ hforks => cases hforks
      | @unfolded p _ _ body first next hpool =>
          refine { ih with kept := fun registration hissued => ?_ }
          refine (ih.kept registration hissued).imp_right (.imp_right ?_)
          rintro ⟨party, rest, hparty⟩
          have hp : party ≠ p := by
            rintro rfl
            cases hpool.symm.trans hparty
          exact ⟨party, rest, (Machine.place_of_ne _ _ hp).trans hparty⟩
      | @entered p routine state hunborn henter =>
          have hpool : ∀ event id next, cfg.pool p ≠ some (.act (.remove event id) next) := by
            intro event id next h
            cases hunborn.symm.trans h
          cases routine with
          | removeRegistration registration =>
              simp only [machine, Option.ite_none_right_eq_some, Option.some.injEq] at henter
              rcases henter with ⟨hheld, rfl⟩
              refine ih.begin rfl (fun other hother => List.mem_of_mem_erase hother) ?_ hpool
              intro other hother
              obtain rfl : registration = other :=
                Routine.removeRegistration.inj (Option.some.inj hother)
              exact ih.held registration hheld
          | emit | emitParallel | query | waterfall | registerListener | drainDisposables
          | setGate =>
              cases henter
              exact ih.begin rfl (fun _ h => h) (fun _ h => by cases h) hpool
      | @dropped p op next state routine hpool hawaits hdropped =>
          cases hdropped
          refine ih.begin rfl (fun _ h => h) (fun _ h => by cases h) fun event id rest h => ?_
          cases hpool.symm.trans h
          cases hawaits

end Journaled

/-! ## What is left when a removal or a drain is over -/

section Endings

variable {cfg : Config (Record V) (Op V) Op.Ret (Answer V)}

/-- What a finished removal went through. -/
theorem events_of_removal {registration : ListenerRegistration} {events : List (Performed V)}
    {removed : Bool} (h : Runs (removeRegistration registration) events removed) :
    (⟨.remove registration.listener.event registration.listener.id, removed⟩ : Performed V) ∈
        events ∧
      ∃ taken : Option ListenerObservationMeta,
        (⟨.removeDisposable registration.owner registration.cleanup, taken⟩ : Performed V) ∈
          events := by
  rcases runs_bind h with ⟨answer, before, after, rfl, hremove, hafter⟩
  rcases runs_bind hafter with ⟨taken, take, last, rfl, htake, hlast⟩
  have hend := runs_pure hlast
  rcases runs_bind hremove with ⟨found, store, report, rfl, hstore, hreport⟩
  have hfound : found = answer := by
    cases found with
    | false => exact (runs_pure hreport).2
    | true =>
        rcases runs_bind hreport with ⟨_, _, _, -, -, hreported⟩
        exact (runs_pure hreported).2
  rw [runs_perform hstore, runs_perform htake, hfound, hend.2]
  exact ⟨by simp, taken, by simp⟩

/-- A finished pass over the tokens took every one of them. -/
theorem taken_of_runTokens {owner : FiberId} {tokens : List DisposableToken}
    {events : List (Performed V)} (h : Runs (runTokens owner tokens) events ()) :
    ∀ token ∈ tokens, ∃ event ∈ events, takenOf event = some (owner, token) := by
  induction tokens generalizing events with
  | nil => exact nofun
  | cons first tokens ih =>
      rcases runs_bind h with ⟨taken, take, rest, rfl, htake, hrest⟩
      rw [runs_perform htake]
      have hlater : ∀ {before after : List (Performed V)}, Runs (runTokens owner tokens) after () →
          ∀ token ∈ tokens, ∃ event ∈ before ++ after, takenOf event = some (owner, token) := by
        intro before after hafter token htoken
        rcases ih hafter token htoken with ⟨event, hevent, htaken⟩
        exact ⟨event, List.mem_append_right _ hevent, htaken⟩
      intro token htoken
      rcases List.mem_cons.mp htoken with rfl | htoken
      · exact ⟨_, List.mem_append_left _ List.mem_cons_self, rfl⟩
      · cases taken with
        | none => exact hlater hrest token htoken
        | some listener =>
            rcases runs_bind hrest with ⟨_, removal, rest, rfl, -, hrest⟩
            rcases runs_bind hrest with ⟨_, report, rest, rfl, -, hrest⟩
            rw [← List.append_assoc, ← List.append_assoc]
            exact hlater hrest token htoken

/-- A removal that is over has left nothing of its listener behind. -/
theorem unregistered_of_removed (hreach : (machine V).recorded.Reachable Machine.anyRun cfg)
    {p : Party} {registration : ListenerRegistration} {removed : Bool}
    (horigin : cfg.shared.origin p = some (.removeRegistration registration))
    (hpool : cfg.pool p = some (.pure (.removed removed))) :
    (⟨.remove registration.listener.event registration.listener.id, removed⟩ : Performed V) ∈
        cfg.shared.log p ∧
      (registration.listener.event, registration.listener.id) ∈ removals cfg.shared.history ∧
      cfg.shared.state.events.find registration.listener.event registration.listener.id = none ∧
      Gone cfg.shared.state registration.owner registration.cleanup := by
  have hjournaled := Journaled.of_reachable hreach
  have hledger := Ledger.of_reachable hreach
  rcases Machine.follows_of_reachable hreach hpool with ⟨routine, hroutine, hpath⟩ | ⟨hnone, -⟩
  · cases horigin.symm.trans hroutine
    rcases runs_bind hpath with ⟨answer, before, last, hlog, hremoval, hlast⟩
    have hend := runs_pure hlast
    cases hend.2
    rw [hend.1, List.append_nil] at hlog
    rcases events_of_removal hremoval with ⟨hremove, taken, htake⟩
    rw [← hlog] at hremove htake
    have hremoved := hjournaled.removed p registration _ horigin hremove
    exact ⟨hremove, hremoved, hledger.find_of_removed hremoved,
      hjournaled.taken p _ _ _ (Machine.mem_history_of_log hreach htake) rfl⟩
  · cases horigin.symm.trans hnone

/-- A drain that is over has left nothing behind of what was registered when it looked, unless
another drain that took the cleanup is about to remove the listener. -/
theorem unregistered_of_drained (hreach : (machine V).recorded.Reachable Machine.anyRun cfg)
    {p : Party} {owner : FiberId}
    (horigin : cfg.shared.origin p = some (.drainDisposables owner))
    (hpool : cfg.pool p = some (.pure .drained)) :
    ∃ later earlier, ∃ tokens : List DisposableToken,
      cfg.shared.history = later ++ (p, ⟨.tokens owner, tokens⟩) :: earlier ∧
      ∀ registration ∈ issues earlier, registration.owner = owner →
        Gone cfg.shared.state owner registration.cleanup ∧
        ((registration.listener.event, registration.listener.id) ∈ removals cfg.shared.history ∨
          ∃ q next, cfg.pool q =
            some (.act (.remove registration.listener.event registration.listener.id) next)) := by
  have hjournaled := Journaled.of_reachable hreach
  rcases Machine.follows_of_reachable hreach hpool with ⟨routine, hroutine, hpath⟩ | ⟨hnone, -⟩
  · cases horigin.symm.trans hroutine
    rcases runs_bind hpath with ⟨_, before, last, hlog, hdrain, hlast⟩
    rcases runs_bind hdrain with ⟨tokens, read, rest, rfl, hread, hrest⟩
    rw [runs_perform hread] at hlog
    have hmem : ∀ {event}, event ∈ ([⟨.tokens owner, tokens⟩] ++ rest : List (Performed V)) →
        (p, event) ∈ cfg.shared.history := by
      intro event hevent
      refine Machine.mem_history_of_log hreach ?_
      rw [hlog]
      exact List.mem_append_left _ hevent
    rcases List.append_of_mem (hmem (List.mem_append_left _ List.mem_cons_self)) with
      ⟨later, earlier, hsplit⟩
    refine ⟨later, earlier, tokens, hsplit, fun registration hissued howner => ?_⟩
    have hgone : Gone cfg.shared.state owner registration.cleanup := by
      rcases hjournaled.read later p owner tokens earlier hsplit registration hissued howner with
        hfound | hgone
      · rcases taken_of_runTokens hrest _ (List.mem_reverse.mpr hfound) with ⟨event, hevent, htaken⟩
        exact hjournaled.taken p event _ _ (hmem (List.mem_append_right _ hevent)) htaken
      · exact hgone
    have hissued' : registration ∈ issues cfg.shared.history := by
      rw [hsplit, issues, List.filterMap_append]
      exact List.mem_append_right _ (((List.sublist_cons_self _ _).filterMap _).subset hissued)
    refine ⟨hgone, (hjournaled.kept registration hissued').resolve_left fun hrow => ?_⟩
    rw [howner] at hrow
    exact hgone.off _ hrow
  · cases horigin.symm.trans hnone

end Endings

end Events
end CordisCore
