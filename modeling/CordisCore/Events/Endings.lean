import CordisCore.Events.Claims

/-!
# Endings — what a dispatch has performed when it returns

An assertion about all complete paths of a routine holds of the log of every
party that returned from it, in every interleaving.
-/

namespace CordisCore
namespace Events

open Interleaving

variable {V : Type}

/-! ## Complete paths -/

/-- `post` holds at the end of every path, whatever the answers are. -/
abbrev Ends {α : Type} (x : Prog V α) (post : α → List (Performed V) → Prop)
    (events : List (Performed V)) : Prop :=
  Program.Along (fun _ _ => True) (fun _ _ => True) x post events

/-- One operation, whatever comes of it. -/
theorem ends_perform {op : Op V} {post : op.Ret → List (Performed V) → Prop}
    {events : List (Performed V)} (h : ∀ r, post r (events ++ [⟨op, r⟩])) :
    Ends (perform op) post events :=
  Program.Along.perform trivial fun r _ => h r

/-- Nobody answers where the source says `unreachable!`. -/
theorem ends_unreachable {α : Type} {post : α → List (Performed V) → Prop}
    {events : List (Performed V)} : Ends unreachable post events :=
  Program.Along.bind (ends_perform fun r => nomatch (show Empty from r))

/-! ## Claims and preflights -/

/-- What a dispatch performs to claim a hook. -/
def claimPath (event : String) (hook : HookSnap) (claimed unregistered : Bool) :
    List (Performed V) :=
  ⟨.claim event hook.id, (claimed, unregistered)⟩ ::
    if unregistered then
      [⟨.publish (.listenerRegistration .unregistered
        { id := hook.id, event := event, role := hook.kind.role, scope := hook.scope
          options := hook.options }), ()⟩]
    else []

theorem ends_claimHook (event : String) (hook : HookSnap) (before : List (Performed V)) :
    Ends (claimHook event hook) (fun claimed all => ∃ unregistered,
      all = before ++ claimPath event hook claimed unregistered) before := by
  refine Program.Along.bind (ends_perform fun answer => ?_)
  rcases answer with ⟨claimed, unregistered⟩
  cases unregistered with
  | false => exact ⟨false, rfl⟩
  | true =>
      refine Program.Along.bind (ends_perform fun () => ⟨true, ?_⟩)
      simp [claimPath]

/-- What the preflight of a dispatch performs, and what it answers. -/
inductive Preflighted (membership : Nat) (E : Event) (routing : Routing)
    (operation : EventOperation) :
    Except DispatchError (List HookSnap) → List (Performed V) → Prop where
  /-- The Scope of another Runtime. -/
  | foreign {scope : Scope} (by_scope : routing = .scoped scope)
      (other : scope.membership ≠ membership) :
      Preflighted membership E routing operation (.error .foreignScope) []
  | answered (answer : Except DispatchError (List HookSnap))
      (own : ∀ scope, routing = .scoped scope → scope.membership = membership) :
      Preflighted membership E routing operation answer
        [⟨.preflight E routing operation, answer⟩]

theorem ends_preflight (membership : Nat) (E : Event) (routing : Routing)
    (operation : EventOperation) :
    Ends (V := V) (preflight membership E routing operation)
      (Preflighted membership E routing operation) [] := by
  rcases routing with _ | scope
  · exact ends_perform fun answer => .answered answer nofun
  · by_cases hown : scope.membership = membership
    · have hanswered : Ends (V := V) (perform (.preflight E (.scoped scope) operation))
          (Preflighted membership E (.scoped scope) operation) [] :=
        ends_perform fun answer => .answered answer fun _ heq => by
          cases heq
          exact hown
      simp only [preflight, hown]
      exact hanswered
    · simp only [preflight, hown]
      exact .foreign rfl hown

/-! ## The parties that returned -/

section Parties

variable {cfg : Config (Record V) (Op V) Op.Ret (Answer V)}

/-- The log of a party that returned is a complete path of its routine. -/
theorem ended_of_reachable (h : (machine V).recorded.Reachable Machine.anyRun cfg) {p : Party}
    {routine : Routine V} {answer : Answer V} {post : Answer V → List (Performed V) → Prop}
    (horigin : cfg.shared.origin p = some routine) (hpool : cfg.pool p = some (.pure answer))
    (hends : Ends ((machine V).body routine) post []) : post answer (cfg.shared.log p) := by
  rcases Machine.follows_of_reachable h hpool with ⟨other, hother, harrives⟩ | ⟨hnowhere, -⟩
  · rw [horigin, Option.some.injEq] at hother
    subst hother
    exact hends.arrives harrives fun _ _ => trivial
  · rw [horigin] at hnowhere
    cases hnowhere

/-- Every answer in a log was admitted. -/
theorem admitted_of_log (h : (machine V).recorded.Reachable Machine.anyRun cfg) {p : Party}
    {event : Performed V} (hevent : event ∈ cfg.shared.log p) : Admits event.1 event.2 :=
  (Ledger.of_reachable h).admitted (p, event) (Machine.mem_history_of_log h hevent)

end Parties

end Events
end CordisCore
