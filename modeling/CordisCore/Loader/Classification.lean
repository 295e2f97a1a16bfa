import CordisCore.Loader.Placement

/-!
# Classification — one outcome per entry, from its own declaration and answers

What an entry becomes depends on the disabled plugins above it, on its own
declaration and on what the resolver and the creation answered for it.  The side
map of a load is shown to hold the outermost disabled plugin of every entry
visited so far.
-/

namespace CordisCore
namespace Loader

open Interleaving Relation Scanning
open Axes (Contracts Context RealmMembership ServiceRealm)

variable {C : Contracts}

/-! ## Disabled ancestry -/

namespace LoadPlan

variable (plan : LoadPlan)

/-- One entry declares the other as its parent. -/
def Parent (above below : EntryId) : Prop :=
  ∃ node ∈ plan.nodes, node.id = below ∧ node.parent = some above

/-- A proper ancestor. -/
abbrev Ancestor : EntryId → EntryId → Prop :=
  TransGen plan.Parent

/-- The entry is a plugin that is declared disabled. -/
def Disabled (id : EntryId) : Prop :=
  ∃ node ∈ plan.nodes, node.id = id ∧ ∃ entry, node.entry = .plugin entry ∧ entry.disabled = true

/-- A disabled entry with no disabled one above it. -/
def Topmost (id : EntryId) : Prop :=
  plan.Disabled id ∧ ∀ above, plan.Ancestor above id → ¬ plan.Disabled above

/-- The outermost disabled ancestor of an entry. -/
def Prunes (ancestor id : EntryId) : Prop :=
  plan.Topmost ancestor ∧ plan.Ancestor ancestor id

/-- No disabled entry is above this one. -/
def Open (id : EntryId) : Prop :=
  ∀ above, plan.Ancestor above id → ¬ plan.Disabled above

variable {plan}

theorem node_unique {a b : PlanNode} (ha : a ∈ plan.nodes) (hb : b ∈ plan.nodes)
    (h : a.id = b.id) : a = b := by
  rcases List.getElem?_of_mem ha with ⟨i, hi⟩
  rcases List.getElem?_of_mem hb with ⟨j, hj⟩
  obtain rfl := plan.index_unique hi hj h
  rw [hi, Option.some.injEq] at hj
  exact hj

/-- The ancestors of an entry are its parent and what is above that. -/
theorem ancestor_iff {node : PlanNode} (hnode : node ∈ plan.nodes) {above : EntryId} :
    plan.Ancestor above node.id ↔
      ∃ parent, node.parent = some parent ∧ (above = parent ∨ plan.Ancestor above parent) := by
  constructor
  · intro h
    rcases (TransGen.tail'_iff).mp h with ⟨parent, hup, other, hother, hid, hparent⟩
    obtain rfl := node_unique hother hnode hid
    refine ⟨parent, hparent, ?_⟩
    rcases reflTransGen_iff_eq_or_transGen.mp hup with rfl | hup
    · exact .inl rfl
    · exact .inr hup
  · rintro ⟨parent, hparent, hup⟩
    have hstep : plan.Parent parent node.id := ⟨node, hnode, rfl, hparent⟩
    rcases hup with rfl | hup
    · exact .single hstep
    · exact hup.tail hstep

/-- What prunes an entry prunes its parent, or is its parent. -/
theorem prunes_iff {node : PlanNode} (hnode : node ∈ plan.nodes) {ancestor : EntryId} :
    plan.Prunes ancestor node.id ↔ ∃ parent, node.parent = some parent ∧
      plan.Topmost ancestor ∧ (ancestor = parent ∨ plan.Ancestor ancestor parent) := by
  unfold Prunes
  rw [ancestor_iff hnode]
  constructor
  · rintro ⟨htop, parent, hparent, hup⟩
    exact ⟨parent, hparent, htop, hup⟩
  · rintro ⟨parent, hparent, htop, hup⟩
    exact ⟨htop, parent, hparent, hup⟩

/-- Above every disabled entry, or at it, there is a topmost one. -/
theorem exists_topmost {index : Nat} {node : PlanNode} (hnode : plan.nodes[index]? = some node)
    (hdisabled : plan.Disabled node.id) :
    ∃ top, plan.Topmost top ∧ (top = node.id ∨ plan.Ancestor top node.id) := by
  induction index using Nat.strongRecOn generalizing node with
  | ind index ih =>
      by_cases hopen : ∃ above, plan.Ancestor above node.id ∧ plan.Disabled above
      · rcases hopen with ⟨above, hup, habove⟩
        have hlower : ∀ {a d : EntryId}, plan.Ancestor a d → ∀ {j : Nat} {below : PlanNode},
            plan.nodes[j]? = some below → below.id = d →
              ∃ i < j, ∃ upper, plan.nodes[i]? = some upper ∧ upper.id = a := by
          intro a d h
          induction h with
          | single hstep =>
              rintro j below hbelow rfl
              rcases hstep with ⟨other, hother, hid, hparent⟩
              obtain rfl := node_unique hother (List.mem_of_getElem? hbelow) hid
              exact plan.parent_before hbelow hparent
          | tail _ hstep ihup =>
              rintro j below hbelow rfl
              rcases hstep with ⟨other, hother, hid, hparent⟩
              obtain rfl := node_unique hother (List.mem_of_getElem? hbelow) hid
              rcases plan.parent_before hbelow hparent with ⟨k, hk, mid, hmid, hmid_id⟩
              rcases ihup hmid hmid_id with ⟨i, hi, upper, hupper, hid⟩
              exact ⟨i, Nat.lt_trans hi hk, upper, hupper, hid⟩
        rcases hlower hup hnode rfl with ⟨i, hi, upper, hupper, rfl⟩
        rcases ih i hi hupper habove with ⟨top, htop, htop_up⟩
        refine ⟨top, htop, .inr ?_⟩
        rcases htop_up with rfl | htop_up
        · exact hup
        · exact htop_up.trans hup
      · refine ⟨node.id, ⟨hdisabled, fun above hup habove => hopen ⟨above, hup, habove⟩⟩, .inl rfl⟩

end LoadPlan

/-! ## Accounts -/

/-- What a load performed for one entry, and the outcome it pushed. -/
structure Account (C : Contracts) where
  node : PlanNode
  performed : Events C
  rows : List Placement
  outcome : EntryOutcome

/-- All that happened in the round of the entry. -/
def Account.events (account : Account C) : Events C :=
  account.performed ++ [⟨.push account.outcome, ()⟩]

/-- The view that a batch of placements gives: its rows select their realms, everything else is
as in the view of the caller. -/
structure Placed (membership : RealmMembership) (ctx : Context C) (entry : PluginEntry)
    (rows : List Placement) (placed : Context C) : Prop where
  declared : rows.map Prod.fst = entry.isolate
  selects : ∀ row ∈ rows, placed.isolateKey row.1.service = row.2.key
  own : ∀ row ∈ rows, row.2.membership = membership
  others : ∀ name, name ∉ entry.isolate.map IsolateEntry.service →
    placed.isolateKey name = ctx.isolateKey name
  axes : placed.scope = ctx.scope ∧ placed.intercept = ctx.intercept ∧ placed.fiber = ctx.fiber

/-- The request that an entry makes of its resolver. -/
def PluginEntry.request (entry : PluginEntry) (key : String) : PluginRequest :=
  { resolveKey := key, config := entry.config, inject := entry.inject }

/-- The outcome follows from the declaration of the entry and from its own answers. -/
inductive Classified (plan : LoadPlan) (membership : RealmMembership) (ctx : Context C)
    (node : PlanNode) : Events C → List Placement → EntryOutcome → Prop where
  | pruned {ancestor : EntryId} (h : plan.Prunes ancestor node.id) :
      Classified plan membership ctx node [] [] (.pruned node.id ancestor)
  | group (h : plan.Open node.id) (hentry : node.entry = .group) :
      Classified plan membership ctx node [] [] (.group node.id)
  | disabled (h : plan.Open node.id) {entry : PluginEntry} (hentry : node.entry = .plugin entry)
      (hdisabled : entry.disabled = true) :
      Classified plan membership ctx node [] [] (.disabled node.id)
  | resolverFailed (h : plan.Open node.id) {entry : PluginEntry} {key : String}
      {resolution : Resolution} {failure : ResolverFailure} (hentry : node.entry = .plugin entry)
      (henabled : entry.disabled = false) (hkey : entry.resolveKey = some key)
      (hanswer : resolution.normalize = some (.error failure)) :
      Classified plan membership ctx node [⟨.resolve (entry.request key), resolution⟩] []
        (.failed node.id key (.resolver failure))
  | unresolved (h : plan.Open node.id) {entry : PluginEntry} {key : String}
      {resolution : Resolution} (hentry : node.entry = .plugin entry)
      (henabled : entry.disabled = false) (hkey : entry.resolveKey = some key)
      (hanswer : resolution.normalize = some (.ok none)) :
      Classified plan membership ctx node [⟨.resolve (entry.request key), resolution⟩] []
        (.failed node.id key (.unresolvedKey key))
  | refused (h : plan.Open node.id) {entry : PluginEntry} {key : String} {resolution : Resolution}
      {prepared : PreparedPlugin} {allocs : Events C} {rows : List Placement} {placed : Context C}
      (hentry : node.entry = .plugin entry) (henabled : entry.disabled = false)
      (hkey : entry.resolveKey = some key)
      (hanswer : resolution.normalize = some (.ok (some prepared)))
      (hallocs : Allocations membership allocs) (hplaced : Placed membership ctx entry rows placed) :
      Classified plan membership ctx node
        (⟨.resolve (entry.request key), resolution⟩ :: allocs ++
          [⟨.spawnStart placed prepared, .refused⟩])
        rows (.failed node.id key (.spawn .inactiveContext))
  | spawnFailed (h : plan.Open node.id) {entry : PluginEntry} {key : String}
      {resolution : Resolution} {prepared : PreparedPlugin} {allocs : Events C}
      {rows : List Placement} {placed : Context C} {fiber : Runtime.FiberId} {error : SpawnError}
      (hentry : node.entry = .plugin entry) (henabled : entry.disabled = false)
      (hkey : entry.resolveKey = some key)
      (hanswer : resolution.normalize = some (.ok (some prepared)))
      (hallocs : Allocations membership allocs) (hplaced : Placed membership ctx entry rows placed) :
      Classified plan membership ctx node
        (⟨.resolve (entry.request key), resolution⟩ :: allocs ++
          [⟨.spawnStart placed prepared, .created fiber⟩, ⟨.spawnEnd fiber, .failed error⟩])
        rows (.failed node.id key (.spawn error))
  | spawned (h : plan.Open node.id) {entry : PluginEntry} {key : String} {resolution : Resolution}
      {prepared : PreparedPlugin} {allocs : Events C} {rows : List Placement} {placed : Context C}
      {fiber : Runtime.FiberId} (hentry : node.entry = .plugin entry)
      (henabled : entry.disabled = false) (hkey : entry.resolveKey = some key)
      (hanswer : resolution.normalize = some (.ok (some prepared)))
      (hallocs : Allocations membership allocs) (hplaced : Placed membership ctx entry rows placed) :
      Classified plan membership ctx node
        (⟨.resolve (entry.request key), resolution⟩ :: allocs ++
          [⟨.spawnStart placed prepared, .created fiber⟩, ⟨.spawnEnd fiber, .delivered⟩])
        rows (.spawned node.id key fiber)

/-! ## Placing a validated batch -/

theorem validatePlugin_ok {id : EntryId} {entry : PluginEntry}
    (h : validatePlugin id entry = .ok ()) :
    (∃ key, entry.resolveKey = some key) ∧ (entry.isolate.map IsolateEntry.service).Nodup := by
  simp only [validatePlugin] at h
  split at h
  · cases h
  · rename_i hidentity
    split at h
    · cases h
    · split at h
      · cases h
      · rename_i hisolate
        refine ⟨?_, firstRepeated_nil_eq_none.mp hisolate⟩
        unfold PluginEntry.resolveKey
        cases hkey : entry.key with
        | some key => exact ⟨key, rfl⟩
        | none =>
            cases hname : entry.name with
            | some name => exact ⟨name, rfl⟩
            | none =>
                rw [hkey, hname] at hidentity
                exact absurd rfl hidentity

theorem lookup_of_unique {rows : List Placement}
    (h : (rows.map fun row => row.1.service).Nodup) {row : Placement} (hrow : row ∈ rows) :
    (rows.map fun row => (row.1.service, row.2.key)).lookup row.1.service = some row.2.key := by
  induction rows with
  | nil => cases hrow
  | cons first rows ih =>
      simp only [List.map_cons, List.nodup_cons] at h
      rw [List.map_cons, List.lookup_cons]
      rcases List.mem_cons.mp hrow with rfl | hrest
      · simp
      · have hne : row.1.service ≠ first.1.service := by
          intro heq
          exact h.1 (List.mem_map.mpr ⟨row, hrest, heq⟩)
        rw [beq_eq_false_iff_ne.mpr hne]
        exact ih h.2 hrest

theorem lookup_of_absent {rows : List Placement} {name : String}
    (h : name ∉ rows.map fun row => row.1.service) :
    (rows.map fun row => (row.1.service, row.2.key)).lookup name = none := by
  induction rows with
  | nil => rfl
  | cons first rows ih =>
      simp only [List.map_cons, List.mem_cons, not_or] at h
      rw [List.map_cons, List.lookup_cons, beq_eq_false_iff_ne.mpr h.1]
      exact ih h.2

/-- The batch that a load asks for is refused or gives exactly its rows. -/
theorem placed_of_ok {membership : RealmMembership} {ctx placed : Context C} {entry : PluginEntry}
    {rows : List Placement} (hunique : (entry.isolate.map IsolateEntry.service).Nodup)
    (hrows : rows.map Prod.fst = entry.isolate)
    (hok : ctx.withServiceRealms membership (rows.map fun row => (row.1.service, row.2)) =
      .ok placed) : Placed membership ctx entry rows placed := by
  have hservices : rows.map (fun row => row.1.service) =
      entry.isolate.map IsolateEntry.service := by
    rw [← hrows, List.map_map]
    rfl
  have hderived := Axes.withServiceRealms_ok hok
  rw [List.map_map] at hderived
  change placed = ctx.deriveIsolate (rows.map fun row => (row.1.service, row.2.key)) at hderived
  subst hderived
  refine ⟨hrows, ?_, ?_, ?_, rfl, rfl, rfl⟩
  · intro row hrow
    have hlookup := lookup_of_unique (hservices ▸ hunique) hrow
    rw [Context.isolateKey, Axes.lookup_deriveIsolate, hlookup]
    rfl
  · intro row hrow
    have hforeign : Context.firstForeign membership
        (rows.map fun row => (row.1.service, row.2)) = none := by
      simp only [Context.withServiceRealms] at hok
      split at hok
      · cases hok
      · split at hok
        · cases hok
        · assumption
    exact Axes.own_of_firstForeign hforeign (row.1.service, row.2)
      (List.mem_map.mpr ⟨row, hrow, rfl⟩)
  · intro name hname
    have hlookup := lookup_of_absent (hservices ▸ hname)
    rw [Context.isolateKey, Axes.lookup_deriveIsolate, hlookup]
    rfl

/-- A validated batch on realms of this Runtime is not refused. -/
theorem exists_placed {membership : RealmMembership} {ctx : Context C} {entry : PluginEntry}
    {rows : List Placement} (hunique : (entry.isolate.map IsolateEntry.service).Nodup)
    (hrows : rows.map Prod.fst = entry.isolate) (hown : ∀ row ∈ rows, row.2.membership = membership) :
    ∃ placed, ctx.withServiceRealms membership (rows.map fun row => (row.1.service, row.2)) =
      .ok placed := by
  refine ⟨_, ctx.withServiceRealms_accepted membership _ ?_ ?_⟩
  · have hservices : (rows.map fun row => (row.1.service, row.2)).map Prod.fst =
        entry.isolate.map IsolateEntry.service := by
      rw [← hrows, List.map_map, List.map_map]
      rfl
    rw [hservices]
    exact hunique
  · intro pair hpair
    rcases List.mem_map.mp hpair with ⟨row, hrow, rfl⟩
    exact hown row hrow

theorem along_place (membership : RealmMembership) (ctx : Context C) (entry : PluginEntry)
    (hunique : (entry.isolate.map IsolateEntry.service).Nodup) {env : RealmEnvironment}
    {rows : List Placement} {events : Events C} (h : Placing membership env rows events) :
    Follows (place membership ctx env entry.isolate)
      (fun out more => (∃ allocs, more = events ++ allocs ∧ Allocations membership allocs) ∧
        ∃ own : List Placement, Placed membership ctx entry own out.2 ∧
          Placing membership out.1 (rows ++ own) more) events := by
  unfold place
  split
  · rename_i hempty
    have hnone : entry.isolate = [] := List.isEmpty_iff.mp hempty
    refine ⟨⟨[], (List.append_nil _).symm, nofun⟩, [], ?_, by rwa [List.append_nil]⟩
    exact ⟨hnone.symm, nofun, nofun, fun _ _ => rfl, rfl, rfl, rfl⟩
  · refine (along_mappings membership entry.isolate env rows events h).andThen rfl ?_
    rintro ⟨env₁, pairs⟩ more ⟨hallocs, own, hown, rfl, hplacing⟩
    have hrealms : ∀ row ∈ own, row.2.membership = membership := fun row hrow =>
      hplacing.rows_own row (List.mem_append_right _ hrow)
    obtain ⟨placed, hok⟩ : ∃ placed, ctx.withServiceRealms membership
        (own.map fun row => (row.1.service, row.2)) = .ok placed :=
      exists_placed hunique hown hrealms
    simp only [hok]
    exact ⟨hallocs, own, placed_of_ok hunique hown hok, hplacing⟩

end Loader
end CordisCore
