import CordisCore.Loader.Classification

/-!
# Outcomes — the rows that a finished load returns

The rounds of a load are followed from one entry to the next.  The rows come in
execution order, each with the account of its own entry, and no realm of a load
is ever handed to anybody else.
-/

namespace CordisCore
namespace Loader

open Interleaving
open Axes (Contracts Context RealmMembership ServiceRealm)

variable {C : Contracts}

/-! ## The side map -/

/-- The side map after these nodes: for each of them the topmost disabled entry above it or at
it, if there is one. -/
structure Remembers (plan : LoadPlan) (map : List (EntryId × EntryId)) (done : List PlanNode) :
    Prop where
  exact : ∀ node ∈ done, ∀ top, map.lookup node.id = some top ↔
    plan.Topmost top ∧ (top = node.id ∨ plan.Ancestor top node.id)
  keys : ∀ id, map.lookup id ≠ none → ∃ node ∈ done, node.id = id

namespace Remembers

variable {plan : LoadPlan} {map : List (EntryId × EntryId)} {done : List PlanNode}

theorem start : Remembers plan [] [] where
  exact := nofun
  keys _ h := absurd rfl h

/-- What an entry inherits from the side map is what prunes it. -/
theorem inherited (h : Remembers plan map done) {node : PlanNode} (hnode : node ∈ plan.nodes)
    (hparent : ∀ parent, node.parent = some parent → ∃ above ∈ done, above.id = parent)
    {top : EntryId} : (node.parent.bind fun parent => map.lookup parent) = some top ↔
      plan.Prunes top node.id := by
  rw [LoadPlan.prunes_iff hnode, Option.bind_eq_some_iff]
  constructor
  · rintro ⟨parent, hp, hlookup⟩
    rcases hparent parent hp with ⟨above, habove, rfl⟩
    exact ⟨above.id, hp, (h.exact above habove top).mp hlookup⟩
  · rintro ⟨parent, hp, htop⟩
    rcases hparent parent hp with ⟨above, habove, rfl⟩
    exact ⟨above.id, hp, (h.exact above habove top).mpr htop⟩

/-- An entry that inherits nothing has no disabled entry above it. -/
theorem open_of_none (h : Remembers plan map done) {node : PlanNode} (hnode : node ∈ plan.nodes)
    (hparent : ∀ parent, node.parent = some parent → ∃ above ∈ done, above.id = parent)
    (hnone : (node.parent.bind fun parent => map.lookup parent) = none) :
    plan.Open node.id := by
  intro above hup hdisabled
  obtain ⟨other, hother, rfl, hplugin⟩ := hdisabled
  rcases List.getElem?_of_mem hother with ⟨i, hi⟩
  rcases LoadPlan.exists_topmost hi ⟨other, hother, rfl, hplugin⟩ with ⟨top, htop, htop_up⟩
  have hprunes : plan.Prunes top node.id := by
    refine ⟨htop, ?_⟩
    rcases htop_up with rfl | htop_up
    · exact hup
    · exact htop_up.trans hup
  have hlookup := (h.inherited hnode hparent).mpr hprunes
  rw [hnone] at hlookup
  cases hlookup

/-- One more node, with or without a row in the map. -/
theorem visit (h : Remembers plan map done) {node : PlanNode}
    (hfresh : ∀ other ∈ done, other.id ≠ node.id) {map' : List (EntryId × EntryId)}
    (hkept : ∀ id, id ≠ node.id → map'.lookup id = map.lookup id)
    (hown : ∀ top, map'.lookup node.id = some top ↔
      plan.Topmost top ∧ (top = node.id ∨ plan.Ancestor top node.id)) :
    Remembers plan map' (done ++ [node]) where
  exact other hother top := by
    rcases List.mem_append.mp hother with hold | hnew
    · rw [hkept _ (hfresh other hold)]
      exact h.exact other hold top
    · rw [List.mem_singleton.mp hnew]
      exact hown top
  keys id hid := by
    by_cases heq : id = node.id
    · exact ⟨node, List.mem_append_right _ (List.mem_singleton_self _), heq.symm⟩
    · rw [hkept id heq] at hid
      rcases h.keys id hid with ⟨other, hother, hother_id⟩
      exact ⟨other, List.mem_append_left _ hother, hother_id⟩

theorem lookup_cons_self (map : List (EntryId × EntryId)) (id top : EntryId) :
    ((id, top) :: map).lookup id = some top := by
  simp

theorem lookup_cons_of_ne (map : List (EntryId × EntryId)) {id other top : EntryId}
    (h : other ≠ id) : ((id, top) :: map).lookup other = map.lookup other := by
  rw [List.lookup_cons, beq_eq_false_iff_ne.mpr h]

/-- A pruned entry passes on what pruned it. -/
theorem pruned (h : Remembers plan map done) {node : PlanNode} (hnode : node ∈ plan.nodes)
    (hparent : ∀ parent, node.parent = some parent → ∃ above ∈ done, above.id = parent)
    (hfresh : ∀ other ∈ done, other.id ≠ node.id) {ancestor : EntryId}
    (hprunes : plan.Prunes ancestor node.id) :
    Remembers plan ((node.id, ancestor) :: map) (done ++ [node]) := by
  refine h.visit hfresh (fun id hid => lookup_cons_of_ne map hid) fun top => ?_
  rw [lookup_cons_self, Option.some.injEq]
  constructor
  · rintro rfl
    exact ⟨hprunes.1, .inr hprunes.2⟩
  · rintro ⟨htop, rfl | hup⟩
    · exact absurd hprunes.1.1 (htop.2 ancestor hprunes.2)
    · -- the parent remembers one topmost entry only
      have hfirst := (h.inherited hnode hparent).mpr hprunes
      have hsecond := (h.inherited hnode hparent).mpr ⟨htop, hup⟩
      rw [hfirst, Option.some.injEq] at hsecond
      exact hsecond

theorem disabled (h : Remembers plan map done) {node : PlanNode}
    (hfresh : ∀ other ∈ done, other.id ≠ node.id) (hopen : plan.Open node.id)
    (hdisabled : plan.Disabled node.id) :
    Remembers plan ((node.id, node.id) :: map) (done ++ [node]) := by
  refine h.visit hfresh (fun id hid => lookup_cons_of_ne map hid) fun top => ?_
  rw [lookup_cons_self, Option.some.injEq]
  constructor
  · rintro rfl
    exact ⟨⟨hdisabled, hopen⟩, .inl rfl⟩
  · rintro ⟨htop, rfl | hup⟩
    · rfl
    · exact absurd htop.1 (hopen top hup)

theorem enabled (h : Remembers plan map done) {node : PlanNode}
    (hfresh : ∀ other ∈ done, other.id ≠ node.id) (hopen : plan.Open node.id)
    (henabled : ¬ plan.Disabled node.id) : Remembers plan map (done ++ [node]) := by
  refine h.visit hfresh (fun _ _ => rfl) fun top => ?_
  have hnone : map.lookup node.id = none := by
    cases hlookup : map.lookup node.id with
    | none => rfl
    | some found =>
        rcases h.keys node.id (by rw [hlookup]; exact nofun) with ⟨other, hother, hid⟩
        exact absurd hid (hfresh other hother)
  rw [hnone]
  constructor
  · exact nofun
  · rintro ⟨htop, rfl | hup⟩
    · exact absurd htop.1 henabled
    · exact absurd htop.1 (hopen top hup)

end Remembers

theorem LoadPlan.not_disabled {plan : LoadPlan} {node : PlanNode} (hnode : node ∈ plan.nodes)
    (h : ∀ entry, node.entry = .plugin entry → entry.disabled = false) :
    ¬ plan.Disabled node.id := by
  rintro ⟨other, hother, hid, entry, hentry, hdisabled⟩
  obtain rfl := LoadPlan.node_unique hother hnode hid
  rw [h entry hentry] at hdisabled
  cases hdisabled

/-! ## One round -/

/-- What one round adds to the path, the placements and the side map. -/
def Rounded (plan : LoadPlan) (membership : RealmMembership) (ctx : Context C) (node : PlanNode)
    (done : List PlanNode) (rows : List Placement) (events : Events C)
    (out : Locals × EntryOutcome) (more : Events C) : Prop :=
  Remembers plan out.1.disabledByEntry (done ++ [node]) ∧
    ∃ performed own, more = events ++ performed ∧
      Classified plan membership ctx node performed own out.2 ∧
        Placing membership out.1.realms (rows ++ own) more

/-- `spawn` performs one or two operations; what they answer decides. -/
theorem along_spawn (placed : Context C) (prepared : PreparedPlugin) {events : Events C} :
    Follows (spawn placed prepared)
      (fun result more => realmsOf more = realmsOf events ∧
        ((more = events ++ [⟨.spawnStart placed prepared, .refused⟩] ∧
            result = .error .inactiveContext) ∨
          (∃ fiber error, more = events ++ [⟨.spawnStart placed prepared, .created fiber⟩,
            ⟨.spawnEnd fiber, .failed error⟩] ∧ result = .error error) ∨
          ∃ fiber, more = events ++ [⟨.spawnStart placed prepared, .created fiber⟩,
            ⟨.spawnEnd fiber, .delivered⟩] ∧ result = .ok fiber)) events := by
  refine Program.Along.bind (Program.Along.perform trivial fun started _ => ?_)
  cases started with
  | unwound => exact panicked_last _ rfl
  | refused =>
      refine ⟨?_, .inl ⟨rfl, rfl⟩⟩
      rw [realmsOf_append]
      exact List.append_nil _
  | created fiber =>
      refine Program.Along.bind (Program.Along.perform trivial fun ended _ => ?_)
      have hquiet : ∀ ended, realmsOf (events ++ [⟨.spawnStart placed prepared, .created fiber⟩] ++
          [⟨.spawnEnd fiber, ended⟩]) = realmsOf events := by
        intro ended
        rw [realmsOf_append, realmsOf_append]
        exact (List.append_nil _).trans (List.append_nil _)
      cases ended with
      | unwound => exact panicked_last _ rfl
      | failed error =>
          exact ⟨hquiet _, .inr (.inl ⟨fiber, error, List.append_assoc .., rfl⟩)⟩
      | delivered =>
          exact ⟨hquiet _, .inr (.inr ⟨fiber, List.append_assoc .., rfl⟩)⟩

theorem Placing.same {membership : RealmMembership} {env : RealmEnvironment}
    {rows : List Placement} {events more : Events C} (h : Placing membership env rows events)
    (hsame : realmsOf more = realmsOf events) : Placing membership env rows more := by
  refine ⟨h.env_own, h.rows_own, ?_⟩
  rw [hsame]
  exact h.placed

theorem along_loadPlugin {plan : LoadPlan} (membership : RealmMembership) (ctx : Context C)
    {node : PlanNode} {entry : PluginEntry} {locals : Locals} {done : List PlanNode}
    {rows : List Placement} {events : Events C} (hnode : node ∈ plan.nodes)
    (hentry : node.entry = .plugin entry) (henabled : entry.disabled = false)
    (hopen : plan.Open node.id)
    (hremembers : Remembers plan locals.disabledByEntry (done ++ [node]))
    (hplacing : Placing membership locals.realms rows events) :
    Follows (loadPlugin membership ctx node.id entry locals)
      (Rounded plan membership ctx node done rows events) events := by
  rcases List.getElem?_of_mem hnode with ⟨index, hindex⟩
  rcases validatePlugin_ok (plan.validated hindex hentry) with ⟨⟨key, hkey⟩, hunique⟩
  simp only [loadPlugin, hkey]
  refine Program.Along.bind (Program.Along.perform trivial fun resolution _ => ?_)
  have hresolved : Placing membership locals.realms rows
      (events ++ [⟨.resolve (entry.request key), resolution⟩]) := hplacing.quiet rfl
  cases hanswer : Resolution.normalize resolution with
  | none =>
      cases resolution with
      | escaped payload => exact panicked_last _ rfl
      | returned | failed | panicked => cases hanswer
  | some answer =>
      rcases answer with failure | (_ | prepared)
      · exact ⟨hremembers, _, [], rfl,
          .resolverFailed hopen hentry henabled hkey hanswer, by rwa [List.append_nil]⟩
      · exact ⟨hremembers, _, [], rfl,
          .unresolved hopen hentry henabled hkey hanswer, by rwa [List.append_nil]⟩
      · refine (along_place membership ctx entry hunique hresolved).andThen rfl ?_
        rintro ⟨realms, placed⟩ more ⟨⟨allocs, rfl, hallocs⟩, own, hplaced, hplacing'⟩
        refine (along_spawn placed prepared).andThen rfl ?_
        rintro result more ⟨hsame, hcases⟩
        have hlater := hplacing'.same hsame
        rcases hcases with ⟨rfl, rfl⟩ | ⟨fiber, error, rfl, rfl⟩ | ⟨fiber, rfl, rfl⟩
        · refine ⟨hremembers, ⟨.resolve (entry.request key), resolution⟩ :: allocs ++
            [⟨.spawnStart placed prepared, .refused⟩], own, ?_,
            .refused hopen hentry henabled hkey hanswer hallocs hplaced, hlater⟩
          simp [PluginEntry.request]
        · refine ⟨hremembers, ⟨.resolve (entry.request key), resolution⟩ :: allocs ++
            [⟨.spawnStart placed prepared, .created fiber⟩, ⟨.spawnEnd fiber, .failed error⟩],
            own, ?_, .spawnFailed hopen hentry henabled hkey hanswer hallocs hplaced, hlater⟩
          simp [PluginEntry.request]
        · refine ⟨hremembers, ⟨.resolve (entry.request key), resolution⟩ :: allocs ++
            [⟨.spawnStart placed prepared, .created fiber⟩, ⟨.spawnEnd fiber, .delivered⟩],
            own, ?_, .spawned hopen hentry henabled hkey hanswer hallocs hplaced, hlater⟩
          simp [PluginEntry.request]

theorem along_loadNode {plan : LoadPlan} (membership : RealmMembership) (ctx : Context C)
    {node : PlanNode} {locals : Locals} {done : List PlanNode} {rows : List Placement}
    {events : Events C} (hnode : node ∈ plan.nodes)
    (hparent : ∀ parent, node.parent = some parent → ∃ above ∈ done, above.id = parent)
    (hfresh : ∀ other ∈ done, other.id ≠ node.id)
    (hremembers : Remembers plan locals.disabledByEntry done)
    (hplacing : Placing membership locals.realms rows events) :
    Follows (loadNode membership ctx node locals)
      (Rounded plan membership ctx node done rows events) events := by
  have hplain : Placing membership locals.realms (rows ++ []) events := by
    rwa [List.append_nil]
  unfold loadNode
  split
  · rename_i ancestor hinherited
    have hprunes := (hremembers.inherited hnode hparent).mp hinherited
    exact ⟨hremembers.pruned hnode hparent hfresh hprunes, [], [], (List.append_nil _).symm,
      .pruned hprunes, hplain⟩
  · rename_i hinherited
    have hopen := hremembers.open_of_none hnode hparent hinherited
    cases hentry : node.entry with
    | group =>
        have henabled := LoadPlan.not_disabled hnode fun entry h => by
          rw [hentry] at h
          cases h
        exact ⟨hremembers.enabled hfresh hopen henabled, [], [], (List.append_nil _).symm,
          .group hopen hentry, hplain⟩
    | plugin entry =>
        cases hdisabled : entry.disabled with
        | true =>
            simp only [hdisabled, if_true]
            exact ⟨hremembers.disabled hfresh hopen ⟨node, hnode, rfl, entry, hentry, hdisabled⟩,
              [], [], (List.append_nil _).symm, .disabled hopen hentry hdisabled, hplain⟩
        | false =>
            simp only [hdisabled, Bool.false_eq_true, if_false]
            have henabled := LoadPlan.not_disabled hnode fun other h => by
              rw [hentry, PlanEntry.plugin.injEq] at h
              exact h ▸ hdisabled
            exact along_loadPlugin membership ctx hnode hentry hdisabled hopen
              (hremembers.enabled hfresh hopen henabled) hplacing

/-! ## All rounds -/

/-- The accounts of the rounds so far. -/
structure Told (plan : LoadPlan) (membership : RealmMembership) (ctx : Context C)
    (accounts : List (Account C)) (locals : Locals) (events : Events C) : Prop where
  log : events = ⟨.withCapacity, ()⟩ :: accounts.flatMap Account.events
  nodes : ∀ account ∈ accounts, account.node ∈ plan.nodes
  classified : ∀ account ∈ accounts, Classified plan membership ctx account.node
    account.performed account.rows account.outcome
  remembers : Remembers plan locals.disabledByEntry (accounts.map Account.node)
  placing : Placing membership locals.realms (accounts.flatMap Account.rows) events

/-- How the rest of a load ends: on a panic, or with an account of every entry left. -/
def Ends (plan : LoadPlan) (membership : RealmMembership) (ctx : Context C)
    (accounts : List (Account C)) (order : List Nat) (answer : Answer) (more : Events C) : Prop :=
  answer = .unwound ∨ ∃ (rest : List (Account C)) (locals : Locals) (events : Events C)
    (entries : List EntryOutcome), answer = .loaded entries ∧
      Told plan membership ctx (accounts ++ rest) locals events ∧
        rest.map (fun account => some account.node) = order.map (plan.nodes[·]?) ∧
          more = events ++ [⟨.finish, entries⟩]

theorem along_unwinding {plan : LoadPlan} {membership : RealmMembership} {ctx : Context C}
    {accounts : List (Account C)} {order : List Nat} {events : Events C}
    (h : Panicked events) : Program.Along Admits Guarded (unwinding : Prog C Answer)
      (Ends plan membership ctx accounts order) events :=
  Program.Along.bind (Program.Along.perform h fun _ _ => .inl rfl)

theorem along_loadFrom {plan : LoadPlan} (membership : RealmMembership) (ctx : Context C)
    {whole : List Nat} (hpreorder : Forest.Preorder (descendants plan.nodes)
      (childrenOf plan.nodes none) whole) (hperm : whole.Perm (List.range plan.nodes.length)) :
    ∀ (order before : List Nat) (accounts : List (Account C)) (locals : Locals)
      (events : Events C), whole = before ++ order →
      accounts.map (fun account => some account.node) = before.map (plan.nodes[·]?) →
      Told plan membership ctx accounts locals events →
      Program.Along Admits Guarded (loadFrom plan membership ctx order locals)
        (Ends plan membership ctx accounts order) events := by
  intro order
  induction order with
  | nil =>
      intro before accounts locals events _ _ htold
      refine Program.Along.bind (Program.Along.perform trivial fun entries _ => ?_)
      exact .inr ⟨[], locals, events, entries, rfl, by rwa [List.append_nil], rfl, rfl⟩
  | cons index order ih =>
      intro before accounts locals events hwhole hbefore htold
      have hmem : index ∈ whole := by simp [hwhole]
      have hindex : index < plan.nodes.length := List.mem_range.mp (hperm.mem_iff.mp hmem)
      have hnode : plan.nodes[index]? = some plan.nodes[index] := List.getElem?_eq_getElem hindex
      -- what was visited has its account
      have hvisited : ∀ i ∈ before, ∃ account ∈ accounts, plan.nodes[i]? = some account.node := by
        intro i hi
        have himage : plan.nodes[i]? ∈ accounts.map fun account => some account.node := by
          rw [hbefore]
          exact List.mem_map.mpr ⟨i, hi, rfl⟩
        rcases List.mem_map.mp himage with ⟨account, haccount, heq⟩
        exact ⟨account, haccount, heq.symm⟩
      have hparent : ∀ parent, plan.nodes[index].parent = some parent →
          ∃ above ∈ accounts.map Account.node, above.id = parent := by
        intro parent hp
        -- in preorder the parent of a node comes before it
        rcases hpreorder.parent_before before index order hwhole with hroot | ⟨i, hi, hbelow⟩
        · rcases mem_childrenOf.mp hroot with ⟨node, hsame, hnone⟩
          rw [hnode, Option.some.injEq] at hsame
          rw [hsame, hnone] at hp
          cases hp
        · rcases plan.mem_descendants.mp hbelow with ⟨above, node, habove, hsame, hid⟩
          rw [hnode, Option.some.injEq] at hsame
          rw [hsame, hid, Option.some.injEq] at hp
          rcases hvisited i hi with ⟨account, haccount, heq⟩
          rw [habove, Option.some.injEq] at heq
          exact ⟨account.node, List.mem_map.mpr ⟨account, haccount, rfl⟩, heq ▸ hp⟩
      have hfresh : ∀ other ∈ accounts.map Account.node, other.id ≠ plan.nodes[index].id := by
        intro other hother hid
        rcases List.mem_map.mp hother with ⟨account, haccount, rfl⟩
        have himage : some account.node ∈ before.map (plan.nodes[·]?) := by
          rw [← hbefore]
          exact List.mem_map.mpr ⟨account, haccount, rfl⟩
        rcases List.mem_map.mp himage with ⟨i, hi, heq⟩
        obtain rfl := plan.index_unique heq hnode hid
        have hnodup : whole.Nodup := hperm.nodup_iff.mpr List.nodup_range
        rw [hwhole] at hnodup
        exact (List.nodup_append.mp hnodup).2.2 _ hi _ (List.mem_cons_self ..) rfl
      simp only [loadFrom, hnode]
      refine Program.Along.bind ((along_loadNode membership ctx (List.getElem_mem hindex) hparent
        hfresh htold.remembers htold.placing).mono fun out more hout => ?_)
      cases out with
      -- a resolver or a spawn that unwinds ends the load at this node
      | none => exact along_unwinding hout
      | some out =>
          rcases out with ⟨locals', outcome⟩
          rcases hout with ⟨hremembers, performed, own, rfl, hclassified, hplacing⟩
          refine Program.Along.bind (Program.Along.perform trivial fun _ _ => ?_)
          -- the outcome is pushed before the next node is looked at
          let account : Account C :=
            { node := plan.nodes[index], performed := performed, rows := own, outcome := outcome }
          have htold' : Told plan membership ctx (accounts ++ [account]) locals'
              (events ++ performed ++ [⟨.push outcome, ()⟩]) := by
            constructor
            case log =>
              rw [htold.log]
              simp [account, Account.events]
            case nodes =>
              intro other hother
              rcases List.mem_append.mp hother with hold | hnew
              · exact htold.nodes other hold
              · rw [List.mem_singleton.mp hnew]
                exact List.getElem_mem hindex
            case classified =>
              intro other hother
              rcases List.mem_append.mp hother with hold | hnew
              · exact htold.classified other hold
              · rw [List.mem_singleton.mp hnew]
                exact hclassified
            case remembers => simpa [account] using hremembers
            case placing =>
              have hpushed : Placing membership locals'.realms (accounts.flatMap Account.rows ++ own)
                  (events ++ performed ++ [⟨.push outcome, ()⟩]) := hplacing.quiet rfl
              simpa [account] using hpushed
          have hwhole' : whole = (before ++ [index]) ++ order := by simp [hwhole]
          have hbefore' : (accounts ++ [account]).map (fun account => some account.node) =
              (before ++ [index]).map (plan.nodes[·]?) := by
            simp [hbefore, account]
          refine (ih (before ++ [index]) (accounts ++ [account]) locals' _ hwhole' hbefore'
            htold').mono ?_
          rintro answer more (hunwound | ⟨rest, locals'', events', entries, rfl, htold'', hrest, rfl⟩)
          · exact .inl hunwound
          · refine .inr ⟨account :: rest, locals'', events', entries, rfl, ?_, ?_, rfl⟩
            · simpa using htold''
            · simp [hrest, account]

/-- Every path of a load ends: it unwinds after a panic, or returns with every entry accounted
for in preorder. -/
theorem along_load (plan : LoadPlan) (membership : RealmMembership) (ctx : Context C) :
    ∃ order, plan.executionOrder = some order ∧
      Forest.Preorder (descendants plan.nodes) (childrenOf plan.nodes none) order ∧
        order.Perm (List.range plan.nodes.length) ∧
          Program.Along Admits Guarded (load plan membership ctx)
            (Ends plan membership ctx [] order) [] := by
  rcases plan.executionOrder_preorder with ⟨order, horder, hpreorder, hperm⟩
  refine ⟨order, horder, hpreorder, hperm, ?_⟩
  simp only [load, horder]
  refine Program.Along.bind (Program.Along.perform trivial fun _ _ => ?_)
  refine along_loadFrom membership ctx hpreorder hperm order [] [] {} _ rfl rfl ?_
  refine ⟨rfl, nofun, nofun, .start, ?_⟩
  exact Placing.start.quiet rfl

end Loader
end CordisCore
