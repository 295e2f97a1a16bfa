import Mathlib.Algebra.Group.Nat.Defs
import CordisCore.Interleaving.Automaton
import CordisCore.Scanning.Repetition

/-!
# Context axes — isolate, Scope and intercept positions of a view

A `Context` carries three persistent chains.  A chain is kept as the list of its
nodes from the innermost one outwards, so the empty list is the source's `None`
and the tail of a list is the `outer` or `parent` link of its head.
-/

namespace CordisCore
namespace Axes

open Scanning (firstRepeated)

/-! ## Service realms -/

/-- The storage key behind a realm. -/
structure RealmKey where
  key : Nat
  deriving DecidableEq

namespace RealmKey

/-- The default realm of a Runtime. -/
def DEFAULT : RealmKey :=
  { key := 0 }

end RealmKey

/-- The counter of allocated realm keys, an `AtomicU64`. -/
structure SnCounters where
  realm : Nat := 0
  deriving DecidableEq

/-- `next_realm_key`; `none` where `checked_add` fails and the allocation panics. -/
def SnCounters.nextRealmKey (sn : SnCounters) : Option (SnCounters × RealmKey) :=
  let previous := sn.realm
  if previous + 1 < 2 ^ 64 then
    some ({ sn with realm := previous + 1 }, { key := previous + 1 })
  else none

/-- A `RealmMembership` allocation: the identity of one Runtime. -/
abbrev RealmMembership := Nat

/-- A public realm: the Runtime it was allocated from and its key there. -/
structure ServiceRealm where
  membership : RealmMembership
  key : RealmKey
  deriving DecidableEq

def ServiceRealm.belongsTo (realm : ServiceRealm) (membership : RealmMembership) : Bool :=
  realm.membership == membership

inductive RealmMappingError where
  | duplicateService (service : String)
  | foreignRealm (service : String)
  deriving DecidableEq

/-! ## The isolate axis -/

/-- One isolate layer: a map with at most one row for a Service name. -/
abbrev IsolateLayer := List (String × RealmKey)

/-- `IsolateLayer::lookup`: walk outwards, the nearest layer that maps the name wins. -/
def lookup (key : String) : List IsolateLayer → Option RealmKey
  | [] => none
  | map :: outer =>
      match map.lookup key with
      | some id => some id
      | none => lookup key outer

/-! ## The Scope axis -/

/-- The address of one `ScopeNode` allocation. -/
abbrev ScopeNode := Nat

/-- `ScopeNode::reaches`: walk the chain and compare pointers with `head`. -/
def reaches (head : ScopeNode) : List ScopeNode → Bool
  | [] => false
  | current :: parent => if current == head then true else reaches head parent

/-- The test of a scoped dispatch for a listener that is not global. -/
def eligible (registration dispatch : List ScopeNode) : Bool :=
  match registration, dispatch with
  | [], _ => true
  | _ :: _, [] => false
  | head :: _, dispatch => reaches head dispatch

/-! ## The intercept axis -/

/-- The `ConfigurableService` contracts of a program, told apart by their `TypeId`. -/
structure Contracts where
  TypeId : Type
  [decEq : DecidableEq TypeId]
  NAME : TypeId → String
  Layer : TypeId → Type
  Resolved : TypeId → Type
  ComposeError : TypeId → Type
  composeConfig : (S : TypeId) → Option (Layer S) → List (Layer S) → Option (Layer S) →
    Except (ComposeError S) (Resolved S)

instance (C : Contracts) : DecidableEq C.TypeId :=
  C.decEq

/-- A prepared layer with its contract erased. -/
structure ConfiguredLayer (C : Contracts) where
  serviceType : C.TypeId
  value : C.Layer serviceType

namespace ConfiguredLayer

variable {C : Contracts}

/-- `ConfiguredLayer::matches`. -/
def matchesContract (S : C.TypeId) (layer : ConfiguredLayer C) : Bool :=
  layer.serviceType == S

/-- `downcast_ref`: the retained value has the `Layer` type of its own contract. -/
def downcastRef (S : C.TypeId) (layer : ConfiguredLayer C) : Option (C.Layer S) :=
  if h : layer.serviceType = S then some (h ▸ layer.value) else none

end ConfiguredLayer

/-- One node of the intercept chain. -/
structure InterceptLayer (C : Contracts) where
  name : String
  configured : ConfiguredLayer C

inductive ConfigResolutionError (C : Contracts) (S : C.TypeId) where
  | contractMismatch (service : String)
  | compose (error : C.ComposeError S)

/-! ## Contexts -/

/-- The axes of one view and its current fiber. -/
structure Context (C : Contracts) where
  fiber : Nat
  isolate : List IsolateLayer
  scope : List ScopeNode
  intercept : List (InterceptLayer C)

namespace Context

variable {C : Contracts}

/-- `Context::root`: the root fiber at the root position of every axis. -/
def root : Context C :=
  { fiber := 0, isolate := [], scope := [], intercept := [] }

def isolateKey (ctx : Context C) (name : String) : RealmKey :=
  (lookup name ctx.isolate).getD RealmKey.DEFAULT

/-! ### Derivations -/

def withFiber (ctx : Context C) (fiber : Nat) : Context C :=
  { fiber := fiber, isolate := ctx.isolate, scope := ctx.scope, intercept := ctx.intercept }

def deriveIsolate (ctx : Context C) (map : IsolateLayer) : Context C :=
  { fiber := ctx.fiber, isolate := map :: ctx.isolate, scope := ctx.scope
    intercept := ctx.intercept }

/-- `with_isolated_service`; `none` where the allocation panics. -/
def withIsolatedService (ctx : Context C) (name : String) (sn : SnCounters) :
    Option (SnCounters × Context C) :=
  sn.nextRealmKey.map fun out => (out.1, ctx.deriveIsolate [(name, out.2)])

/-- The first name whose realm another Runtime allocated. -/
def firstForeign (membership : RealmMembership) : List (String × ServiceRealm) → Option String
  | [] => none
  | (name, realm) :: pairs =>
      if realm.belongsTo membership then firstForeign membership pairs else some name

/-- `with_service_realms`: the whole batch is checked before a view is derived. -/
def withServiceRealms (ctx : Context C) (membership : RealmMembership)
    (pairs : List (String × ServiceRealm)) : Except RealmMappingError (Context C) :=
  match firstRepeated [] (pairs.map Prod.fst) with
  | some service => .error (.duplicateService service)
  | none =>
      match firstForeign membership pairs with
      | some service => .error (.foreignRealm service)
      | none => .ok (ctx.deriveIsolate (pairs.map fun (name, realm) => (name, realm.key)))

/-- `with_child_scope`, with the address of the new node. -/
def withChildScope (ctx : Context C) (node : ScopeNode) : Context C :=
  { fiber := ctx.fiber, isolate := ctx.isolate, scope := node :: ctx.scope
    intercept := ctx.intercept }

def withConfiguredIntercept (ctx : Context C) (name : String) (configured : ConfiguredLayer C) :
    Context C :=
  { fiber := ctx.fiber, isolate := ctx.isolate
    intercept := { name := name, configured := configured } :: ctx.intercept
    scope := ctx.scope }

def withIntercept (ctx : Context C) (S : C.TypeId) (layer : C.Layer S) : Context C :=
  ctx.withConfiguredIntercept (C.NAME S) { serviceType := S, value := layer }

/-! ### Configuration -/

/-- The loop of `resolve_config`: the layers of this name, innermost first. -/
def collect (name : String) : List (InterceptLayer C) → List (ConfiguredLayer C)
  | [] => []
  | current :: outer =>
      if current.name = name then current.configured :: collect name outer
      else collect name outer

/-- `resolve_config`; `none` where a downcast after the contract check panics. -/
def resolveConfig (ctx : Context C) (S : C.TypeId) (base head : Option (C.Layer S)) :
    Option (Except (ConfigResolutionError C S) (C.Resolved S)) :=
  let configured := (collect (C.NAME S) ctx.intercept).reverse
  if configured.any fun layer => !layer.matchesContract S then
    some (.error (.contractMismatch (C.NAME S)))
  else
    (configured.mapM (ConfiguredLayer.downcastRef S)).map fun layers =>
      (C.composeConfig S base layers head).mapError .compose

end Context

end Axes
end CordisCore
