import CordisCore.Context.Axes

/-!
# Derivations — the views of one Runtime and where they come from

A world is the counters of one Runtime with every view derived so far.  Each
view keeps the derivations on its way from the root view, in the order in which
they were made, and the axes are compared with readings of that path.
-/

namespace CordisCore
namespace Axes

open Interleaving

variable {C : Contracts}

/-! ## The world -/

/-- What a caller asks of a view. -/
inductive Derivation (C : Contracts) where
  | isolatedService (name : String)
  | serviceRealms (pairs : List (String × ServiceRealm))
  | childScope
  | intercept (S : C.TypeId) (layer : C.Layer S)
  | configuredIntercept (name : String) (configured : ConfiguredLayer C)
  | fiber (fiber : Nat)

/-- A derivation as it took effect, with the identity allocated for it. -/
inductive Derived (C : Contracts) where
  | isolatedService (name : String) (key : RealmKey)
  | serviceRealms (pairs : List (String × ServiceRealm))
  | childScope (node : ScopeNode)
  | configuredIntercept (name : String) (configured : ConfiguredLayer C)
  | fiber (fiber : Nat)

/-- The derivations from the root view, the first one first. -/
abbrev Path (C : Contracts) := List (Derived C)

/-- One Runtime's identity space and every view derived in it. -/
structure World (C : Contracts) where
  membership : RealmMembership
  sn : SnCounters := {}
  /-- The addresses of scope nodes handed out so far. -/
  nodes : Nat := 0
  /-- The realm keys allocated so far, the latest first. -/
  realms : List RealmKey := []
  views : List (Context C × Path C) := [(Context.root, [])]

namespace World

def push (w : World C) (ctx : Context C) (path : Path C) : World C :=
  { w with views := w.views ++ [(ctx, path)] }

/-- `new_service_realm`: the counter moves and one key is out. -/
def newServiceRealm (w : World C) : Option (World C × ServiceRealm) :=
  w.sn.nextRealmKey.map fun out =>
    ({ w with sn := out.1, realms := out.2 :: w.realms },
      { membership := w.membership, key := out.2 })

/-- Derive a view; a refused batch derives none and leaves the world as it is. -/
def derive (w : World C) (ctx : Context C) (path : Path C) : Derivation C → Option (World C)
  | .isolatedService name =>
      (ctx.withIsolatedService name w.sn).map fun out =>
        let key : RealmKey := { key := out.1.realm }
        { w with sn := out.1, realms := key :: w.realms }.push out.2
          (path ++ [Derived.isolatedService name key])
  | .serviceRealms pairs =>
      match ctx.withServiceRealms w.membership pairs with
      | .ok ctx' => some (w.push ctx' (path ++ [Derived.serviceRealms pairs]))
      -- a refused batch derives nothing
      | .error _ => some w
  | .childScope =>
      some ({ w with nodes := w.nodes + 1 }.push (ctx.withChildScope w.nodes)
        (path ++ [Derived.childScope w.nodes]))
  | .intercept S layer =>
      some (w.push (ctx.withIntercept S layer)
        (path ++ [Derived.configuredIntercept (C.NAME S) { serviceType := S, value := layer }]))
  | .configuredIntercept name configured =>
      some (w.push (ctx.withConfiguredIntercept name configured)
        (path ++ [Derived.configuredIntercept name configured]))
  | .fiber fiber => some (w.push (ctx.withFiber fiber) (path ++ [Derived.fiber fiber]))

end World

inductive Act (C : Contracts) where
  | newServiceRealm
  | root
  | derive (source : Nat) (derivation : Derivation C)

/-- Any holder of any view derives from it, in any order. -/
def runtime (C : Contracts) (membership : RealmMembership) : Automaton (World C) (Act C) where
  init := { membership := membership }
  step w
    | .newServiceRealm => w.newServiceRealm.map Prod.fst
    | .root => some (w.push Context.root [])
    | .derive source derivation =>
        match w.views[source]? with
        | some (ctx, path) => w.derive ctx path derivation
        | none => none

/-! ## Readings of a path -/

namespace Derived

/-- The realm that this derivation gives to a Service name. -/
def maps (name : String) : Derived C → Option RealmKey
  | isolatedService service key => if service = name then some key else none
  | serviceRealms pairs => (pairs.lookup name).map ServiceRealm.key
  | _ => none

def isIsolate : Derived C → Bool
  | isolatedService _ _ => true
  | serviceRealms _ => true
  | _ => false

def node : Derived C → Option ScopeNode
  | childScope node => some node
  | _ => none

def layer : Derived C → Option (InterceptLayer C)
  | configuredIntercept name configured => some { name := name, configured := configured }
  | _ => none

def selects : Derived C → Option Nat
  | .fiber selected => some selected
  | _ => none

end Derived

namespace Path

/-- The isolate derivations alone. -/
def isolates (path : Path C) : Path C :=
  path.filter Derived.isIsolate

/-- The last derivation that maps the name decides, else the default realm. -/
def realm (path : Path C) (name : String) : RealmKey :=
  (path.reverse.findSome? (Derived.maps name)).getD RealmKey.DEFAULT

/-- The scope derivations alone, each by the node it made. -/
def scopes (path : Path C) : List ScopeNode :=
  path.filterMap Derived.node

/-- The intercept derivations alone, outermost first. -/
def intercepts (path : Path C) : List (InterceptLayer C) :=
  path.filterMap Derived.layer

/-- The layers declared for a Service name, outermost first. -/
def layers (path : Path C) (name : String) : List (ConfiguredLayer C) :=
  (path.intercepts.filter fun entry => entry.name = name).map InterceptLayer.configured

/-- The fiber selected last, else the root fiber. -/
def fiber (path : Path C) : Nat :=
  (path.reverse.findSome? Derived.selects).getD 0

end Path

/-! ## What one view says -/

/-- Every axis of the view is the reading of its own derivations. -/
structure Reads (ctx : Context C) (path : Path C) : Prop where
  isolate : ∀ name, lookup name ctx.isolate = path.reverse.findSome? (Derived.maps name)
  scope : ctx.scope = path.scopes.reverse
  intercept : ctx.intercept = path.intercepts.reverse
  fiber : ctx.fiber = path.fiber

theorem lookup_deriveIsolate (ctx : Context C) (map : IsolateLayer) (name : String) :
    lookup name (ctx.deriveIsolate map).isolate =
      (map.lookup name).or (lookup name ctx.isolate) := by
  simp only [Context.deriveIsolate, lookup]
  cases map.lookup name <;> rfl

theorem lookup_map_key (pairs : List (String × ServiceRealm)) (name : String) :
    (pairs.map fun (service, realm) => (service, realm.key)).lookup name =
      (pairs.lookup name).map ServiceRealm.key := by
  induction pairs with
  | nil => rfl
  | cons row pairs ih =>
      rcases row with ⟨service, realm⟩
      simp only [List.map_cons, List.lookup_cons]
      cases name == service
      · exact ih
      · rfl

theorem findSome?_snoc {α β : Type} (f : α → Option β) (path : List α) (last : α) :
    (path ++ [last]).reverse.findSome? f = (f last).or (path.reverse.findSome? f) := by
  simp only [List.reverse_append, List.reverse_singleton, List.singleton_append,
    List.findSome?_cons]
  cases f last <;> rfl

namespace Reads

variable {ctx : Context C} {path : Path C}

theorem root : Reads (Context.root : Context C) [] :=
  { isolate := fun _ => rfl, scope := rfl, intercept := rfl, fiber := rfl }

/-- A derivation that prepends this map, and says so on the path. -/
theorem deriveIsolate (h : Reads ctx path) {map : IsolateLayer} {last : Derived C}
    (hmap : ∀ name, map.lookup name = last.maps name) (hnode : last.node = none)
    (hlayer : last.layer = none) (hfiber : last.selects = none) :
    Reads (ctx.deriveIsolate map) (path ++ [last]) where
  isolate name := by
    rw [lookup_deriveIsolate, findSome?_snoc, h.isolate name, hmap name]
  scope := by
    simp only [Context.deriveIsolate, Path.scopes, List.filterMap_append, List.filterMap_cons,
      hnode, List.filterMap_nil, List.append_nil]
    exact h.scope
  intercept := by
    simp only [Context.deriveIsolate, Path.intercepts, List.filterMap_append,
      List.filterMap_cons, hlayer, List.filterMap_nil, List.append_nil]
    exact h.intercept
  fiber := by
    simp only [Context.deriveIsolate, Path.fiber, findSome?_snoc, hfiber]
    exact h.fiber

theorem childScope (h : Reads ctx path) (node : ScopeNode) :
    Reads (ctx.withChildScope node) (path ++ [Derived.childScope node]) where
  isolate name := by
    rw [findSome?_snoc]
    exact h.isolate name
  scope := by
    have hscopes : (path ++ [Derived.childScope node]).scopes = path.scopes ++ [node] := by
      simp [Path.scopes, Derived.node]
    rw [hscopes, List.reverse_append, ← h.scope]
    rfl
  intercept := by
    have hsame : (path ++ [Derived.childScope node]).intercepts = path.intercepts := by
      simp [Path.intercepts, Derived.layer]
    rw [hsame]
    exact h.intercept
  fiber := by
    simp only [Path.fiber, findSome?_snoc, Derived.selects]
    exact h.fiber

theorem configuredIntercept (h : Reads ctx path) (name : String)
    (configured : ConfiguredLayer C) :
    Reads (ctx.withConfiguredIntercept name configured)
      (path ++ [Derived.configuredIntercept name configured]) where
  isolate service := by
    rw [findSome?_snoc]
    exact h.isolate service
  scope := by
    have hsame : (path ++ [Derived.configuredIntercept name configured]).scopes =
        path.scopes := by
      simp [Path.scopes, Derived.node]
    rw [hsame]
    exact h.scope
  intercept := by
    have hlayers : (path ++ [Derived.configuredIntercept name configured]).intercepts =
        path.intercepts ++ [{ name := name, configured := configured }] := by
      simp [Path.intercepts, Derived.layer]
    rw [hlayers, List.reverse_append, ← h.intercept]
    rfl
  fiber := by
    simp only [Path.fiber, findSome?_snoc, Derived.selects]
    exact h.fiber

theorem withFiber (h : Reads ctx path) (fiber : Nat) :
    Reads (ctx.withFiber fiber) (path ++ [Derived.fiber fiber]) where
  isolate name := by
    rw [findSome?_snoc]
    exact h.isolate name
  scope := by
    have hsame : (path ++ [Derived.fiber fiber]).scopes = path.scopes := by
      simp [Path.scopes, Derived.node]
    rw [hsame]
    exact h.scope
  intercept := by
    have hsame : (path ++ [Derived.fiber fiber]).intercepts = path.intercepts := by
      simp [Path.intercepts, Derived.layer]
    rw [hsame]
    exact h.intercept
  fiber := by
    simp only [Path.fiber, findSome?_snoc, Derived.selects, Option.some_or, Option.getD_some]
    rfl

end Reads

end Axes
end CordisCore
