import CordisCore.Loader.Order

/-!
# Building — every history of a builder freezes a forest

A declaration is admitted or refused by what the builder holds, and what it
holds always passes the complete validation.
-/

namespace CordisCore
namespace Loader

open Forest Relation Scanning

/-! ## Validation, in words -/

/-- A declaration can be resolved and names no Service twice. -/
structure PluginEntry.Valid (entry : PluginEntry) : Prop where
  identity : ¬ (entry.key = none ∧ entry.name = none)
  inject : (entry.inject.map InjectEntry.service).Nodup
  isolate : (entry.isolate.map IsolateEntry.service).Nodup

theorem validatePlugin_eq_ok {id : EntryId} {entry : PluginEntry} :
    validatePlugin id entry = .ok () ↔ entry.Valid := by
  unfold validatePlugin
  split
  · rename_i hnone
    rw [Bool.and_eq_true, Option.isNone_iff_eq_none, Option.isNone_iff_eq_none] at hnone
    exact ⟨nofun, fun h => absurd hnone h.identity⟩
  · rename_i hsome
    rw [Bool.and_eq_true, Option.isNone_iff_eq_none, Option.isNone_iff_eq_none] at hsome
    split
    · rename_i service hinject
      refine ⟨nofun, fun h => ?_⟩
      rw [firstRepeated_nil_eq_none.mpr h.inject] at hinject
      cases hinject
    · rename_i hinject
      split
      · rename_i service hisolate
        refine ⟨nofun, fun h => ?_⟩
        rw [firstRepeated_nil_eq_none.mpr h.isolate] at hisolate
        cases hisolate
      · rename_i hisolate
        exact ⟨fun _ => ⟨hsome, firstRepeated_nil_eq_none.mp hinject, firstRepeated_nil_eq_none.mp hisolate⟩, fun _ => rfl⟩

/-- The incremental test of a node is the one that the complete validation makes. -/
theorem validateFrom_push {lineage : Nat} {nodes : List PlanNode} {node : PlanNode}
    {capable : List EntryId} (h : validateFrom lineage capable nodes = .ok ())
    (hnode : validateNode lineage ((nodes.map PlanNode.id).reverse ++ capable) node = .ok ()) :
    validateFrom lineage capable (nodes ++ [node]) = .ok () := by
  induction nodes generalizing capable with
  | nil =>
      have hfirst : validateNode lineage capable node = .ok () := by simpa using hnode
      simp only [List.nil_append, validateFrom, hfirst]
  | cons first nodes ih =>
      simp only [validateFrom] at h
      cases hfirst : validateNode lineage capable first with
      | error error =>
          rw [hfirst] at h
          cases h
      | ok =>
          simp only [hfirst] at h
          have hcapable : first.entry.isParentCapable = true := by
            cases first.entry <;> rfl
          rw [hcapable, if_pos rfl] at h
          simp only [List.cons_append, validateFrom, hfirst, hcapable, if_true]
          refine ih h ?_
          simpa using hnode

/-! ## Histories of a builder -/

/-- One addition. A parent is any identity at all. -/
inductive Call where
  | addPlugin (parent : Option EntryId) (entry : PluginEntry)
  /-- The group's name is not retained. -/
  | addGroup (parent : Option EntryId)

namespace Call

def parent : Call → Option EntryId
  | addPlugin parent _ | addGroup parent => parent

def entry : Call → PlanEntry
  | addPlugin _ entry => .plugin entry
  | addGroup _ => .group

/-- The parent is nobody or a node of the builder, and a plugin is a valid declaration. -/
structure Admissible (b : LoadPlanBuilder) (call : Call) : Prop where
  parent : ∀ parent, call.parent = some parent → ∃ node ∈ b.nodes, node.id = parent
  valid : ∀ entry, call.entry = .plugin entry → entry.Valid

end Call

namespace LoadPlanBuilder

def call (b : LoadPlanBuilder) : Call → LoadPlanBuilder × Except PlanError EntryId
  | .addPlugin parent entry => b.addPlugin parent entry
  | .addGroup parent => b.addGroup parent

/-- The builder after these additions. -/
def build (b : LoadPlanBuilder) (calls : List Call) : LoadPlanBuilder :=
  calls.foldl (fun b c => (b.call c).1) b

/-- The nodes are of this lineage and pass the complete validation. -/
structure Validated (b : LoadPlanBuilder) : Prop where
  own : ∀ node ∈ b.nodes, node.id.lineage = b.lineage
  complete : validateComplete b.lineage b.nodes = .ok ()

theorem validateParent_eq_ok {b : LoadPlanBuilder} (h : b.Validated) {parent : Option EntryId} :
    b.validateParent parent = .ok () ↔
      ∀ id, parent = some id → ∃ node ∈ b.nodes, node.id = id := by
  cases parent with
  | none => simp [validateParent]
  | some id =>
      simp only [validateParent, Option.some.injEq, forall_eq']
      constructor
      · intro hok
        split at hok
        · rename_i hknown
          rw [Bool.and_eq_true, List.any_eq_true] at hknown
          rcases hknown.2 with ⟨node, hnode, hid⟩
          rw [Bool.and_eq_true, decide_eq_true_eq] at hid
          exact ⟨node, hnode, hid.1⟩
        · cases hok
      · rintro ⟨node, hnode, rfl⟩
        have hown : node.id.belongsTo b.lineage = true := by
          rw [EntryId.belongsTo, beq_iff_eq]
          exact h.own node hnode
        have hany : (b.nodes.any fun other =>
            other.id = node.id && other.entry.isParentCapable) = true := by
          refine List.any_eq_true.mpr ⟨node, hnode, ?_⟩
          cases node.entry <;> simp [PlanEntry.isParentCapable]
        rw [hown, hany]
        rfl

/-- What an addition does: an admissible one appends its node, any other one appends nothing. -/
theorem call_spec {b : LoadPlanBuilder} (h : b.Validated) (c : Call) :
    (c.Admissible b ∧ b.call c = (b.push c.parent c.entry, .ok b.freshId)) ∨
      (¬ c.Admissible b ∧ (b.call c).1.lineage = b.lineage ∧ (b.call c).1.nodes = b.nodes ∧
        ∃ error, (b.call c).2 = .error error) := by
  cases c with
  | addGroup parent =>
      simp only [call, addGroup]
      cases hparent : b.validateParent parent with
      | error error =>
          refine .inr ⟨fun hadm => ?_, rfl, rfl, error, rfl⟩
          have hok : b.validateParent parent = .ok () := (validateParent_eq_ok h).mpr hadm.parent
          rw [hok] at hparent
          cases hparent
      | ok => exact .inl ⟨⟨(validateParent_eq_ok h).mp hparent, nofun⟩, rfl⟩
  | addPlugin parent entry =>
      simp only [call, addPlugin]
      cases hparent : b.validateParent parent with
      | error error =>
          refine .inr ⟨fun hadm => ?_, rfl, rfl, error, rfl⟩
          have hok : b.validateParent parent = .ok () := (validateParent_eq_ok h).mpr hadm.parent
          rw [hok] at hparent
          cases hparent
      | ok =>
          simp only
          cases hplugin : validatePlugin b.freshId entry with
          | error error =>
              refine .inr ⟨fun hadm => ?_, rfl, rfl, error, rfl⟩
              rw [validatePlugin_eq_ok.mpr (hadm.valid entry rfl)] at hplugin
              cases hplugin
          | ok =>
              refine .inl ⟨⟨(validateParent_eq_ok h).mp hparent, fun other hother => ?_⟩, rfl⟩
              simp only [Call.entry, PlanEntry.plugin.injEq] at hother
              exact hother ▸ validatePlugin_eq_ok.mp hplugin

/-- An admissible node passes the test of the complete validation. -/
theorem validateNode_of_admissible {b : LoadPlanBuilder} (h : b.Validated) {c : Call}
    (hadm : c.Admissible b) : validateNode b.lineage ((b.nodes.map PlanNode.id).reverse ++ [])
      (b.node c.parent c.entry) = .ok () := by
  have hentry : ∀ entry, c.entry = .plugin entry → validatePlugin b.freshId entry = .ok () :=
    fun entry hc => validatePlugin_eq_ok.mpr (hadm.valid entry hc)
  simp only [validateNode, node]
  cases hparent : c.parent with
  | none =>
      cases hc : c.entry with
      | plugin entry => exact hentry entry hc
      | group => rfl
  | some parent =>
      rcases hadm.parent parent hparent with ⟨above, habove, rfl⟩
      have hown : above.id.belongsTo b.lineage = true := by
        rw [EntryId.belongsTo, beq_iff_eq]
        exact h.own above habove
      have hknown : ((b.nodes.map PlanNode.id).reverse ++ []).contains above.id = true := by
        rw [List.contains_iff_mem, List.append_nil, List.mem_reverse]
        exact List.mem_map_of_mem habove
      simp only [hown, hknown, Bool.not_true, Bool.or_self, Bool.false_eq_true, if_false]
      cases hc : c.entry with
      | plugin entry => exact hentry entry hc
      | group => rfl

theorem validated_new (lineage : Nat) : (new lineage).Validated where
  own := nofun
  complete := rfl

theorem validated_call {b : LoadPlanBuilder} (h : b.Validated) (c : Call) :
    (b.call c).1.Validated := by
  rcases call_spec h c with ⟨hadm, hcall⟩ | ⟨-, hlineage, hnodes, -⟩
  · rw [hcall]
    refine ⟨fun node hnode => ?_, validateFrom_push h.complete (validateNode_of_admissible h hadm)⟩
    rcases List.mem_append.mp hnode with hold | hnew
    · exact h.own node hold
    · rw [List.mem_singleton.mp hnew]
      rfl
  · refine ⟨fun node hnode => ?_, ?_⟩
    · rw [hnodes] at hnode
      rw [hlineage]
      exact h.own node hnode
    · rw [hlineage, hnodes]
      exact h.complete

theorem validated_build {b : LoadPlanBuilder} (h : b.Validated) (calls : List Call) :
    (b.build calls).Validated := by
  induction calls generalizing b with
  | nil => exact h
  | cons c calls ih => exact ih (validated_call h c)

/-- The nodes that were admitted stay where they are. -/
theorem nodes_prefix_build {b : LoadPlanBuilder} (h : b.Validated) (calls : List Call) :
    b.nodes <+: (b.build calls).nodes := by
  induction calls generalizing b with
  | nil => exact List.prefix_refl _
  | cons c calls ih =>
      refine List.IsPrefix.trans ?_ (ih (validated_call h c))
      show b.nodes <+: (b.call c).1.nodes
      rcases call_spec h c with ⟨-, hcall⟩ | ⟨-, -, hnodes, -⟩
      · rw [hcall]
        exact List.prefix_append _ _
      · exact ⟨[], by rw [hnodes, List.append_nil]⟩

end LoadPlanBuilder

/-! ## Frozen forests -/

/-- The nodes are walked in declaration-ordered preorder: each once, every node after what is
above it, and with its subtree right behind it. -/
structure Walked (plan : LoadPlan) (order : List Nat) : Prop where
  terminates : plan.executionOrder = some order
  preorder : Preorder (descendants plan.nodes) (childrenOf plan.nodes none) order
  once : order.Perm (List.range plan.nodes.length)
  above_first : ∀ {before i after}, order = before ++ i :: after →
    ∀ {j}, Ordered.Above (descendants plan.nodes) j i → j ≠ i → j ∈ before
  contiguous : ∀ {i}, i < plan.nodes.length → ∃ before subtree after,
    order = before ++ i :: subtree ++ after ∧
      ∀ j, j ∈ i :: subtree ↔ Ordered.Above (descendants plan.nodes) i j

namespace LoadPlan

variable (plan : LoadPlan)

theorem above_first {order : List Nat}
    (h : Preorder (descendants plan.nodes) (childrenOf plan.nodes none) order)
    {i j : Nat} (hup : Ordered.Above (descendants plan.nodes) j i) (hne : j ≠ i) :
    ∀ {before after : List Nat}, order = before ++ i :: after → j ∈ before := by
  induction hup with
  | refl => exact absurd rfl hne
  | @tail k i hjk hk ih =>
      intro before after hsplit
      have hparent : k ∈ before := by
        rcases h.parent_before before i after hsplit with hroot | ⟨parent, hbefore, hbelow⟩
        · rcases mem_childrenOf.mp hroot with ⟨node, hnode, hnone⟩
          rcases plan.mem_descendants.mp hk with ⟨_, same, _, hsame, hsome⟩
          rw [hnode, Option.some.injEq] at hsame
          rw [← hsame, hnone] at hsome
          cases hsome
        · exact plan.ordered.parent _ _ _ hbelow hk ▸ hbefore
      by_cases hjk' : j = k
      · exact hjk' ▸ hparent
      · rcases List.append_of_mem hparent with ⟨first, rest, hbefore⟩
        have hearlier : order = first ++ k :: (rest ++ i :: after) := by
          rw [hsplit, hbefore, List.append_assoc, List.cons_append]
        rw [hbefore]
        exact List.mem_append_left _ (ih hjk' hearlier)

theorem walked : ∃ order, Walked plan order := by
  rcases plan.executionOrder_preorder with ⟨order, hrun, hpre, hperm⟩
  refine ⟨order, hrun, hpre, hperm, fun hsplit _ hup hne => plan.above_first hpre hup hne hsplit, ?_⟩
  intro i hi
  have hmem : i ∈ order := hperm.mem_iff.mpr (List.mem_range.mpr hi)
  rcases hpre.subtree hmem with ⟨before, subtree, after, hsplit, hsub⟩
  refine ⟨before, subtree, after, hsplit, fun j => ?_⟩
  rw [List.mem_cons, plan.ordered.mem_iff hsub]
  constructor
  · rintro (rfl | ⟨c, hc, hcj⟩)
    · exact .refl
    · exact .head hc hcj
  · intro hup
    rcases ReflTransGen.cases_head hup with rfl | ⟨c, hc, hcj⟩
    · exact .inl rfl
    · exact .inr ⟨c, hc, hcj⟩

end LoadPlan

/-- What holds of a builder after any history. -/
structure Forested (b : LoadPlanBuilder) : Prop where
  /-- An addition fails exactly when it is not admissible, and then admits nothing. -/
  fails : ∀ call : Call, ((∃ error, (b.call call).2 = .error error) ↔ ¬ call.Admissible b) ∧
    (¬ call.Admissible b → (b.call call).1.nodes = b.nodes)
  /-- An admissible addition appends one node, which carries the identity that is returned. -/
  admits : ∀ call : Call, call.Admissible b → ∃ id,
    (b.call call).2 = .ok id ∧ id ∉ b.nodes.map PlanNode.id ∧
      (b.call call).1.nodes = b.nodes ++ [{ id := id, parent := call.parent, entry := call.entry }]
  parents : ∀ {index : Nat} {node : PlanNode} {parent : EntryId}, b.nodes[index]? = some node → node.parent = some parent →
    ∃ i < index, ∃ above : PlanNode, b.nodes[i]? = some above ∧ above.id = parent
  distinct : (b.nodes.map PlanNode.id).Nodup
  stable : ∀ calls, b.nodes <+: (b.build calls).nodes
  freezes : ∃ plan, b.finish = .ok plan ∧ plan.nodes = b.nodes ∧ ∃ order, Walked plan order

/-- Every history of additions to a builder keeps a forest that can be frozen. -/
theorem building_forest (lineage : Nat) (calls : List Call) :
    Forested ((LoadPlanBuilder.new lineage).build calls) := by
  have hvalid := LoadPlanBuilder.validated_build (LoadPlanBuilder.validated_new lineage) calls
  generalize (LoadPlanBuilder.new lineage).build calls = b at hvalid
  have hfinish : b.finish = .ok
      { lineage := b.lineage, nodes := b.nodes, unique := b.unique, complete := hvalid.complete } := by
    unfold LoadPlanBuilder.finish
    split
    · rename_i error herror
      rw [hvalid.complete] at herror
      cases herror
    · rfl
  constructor
  case fails =>
    intro call
    rcases LoadPlanBuilder.call_spec hvalid call with ⟨hadm, hcall⟩ | ⟨hnot, -, hnodes, herror⟩
    · refine ⟨⟨?_, fun hnot => absurd hadm hnot⟩, fun hnot => absurd hadm hnot⟩
      rintro ⟨error, herror⟩
      rw [hcall] at herror
      cases herror
    · exact ⟨⟨fun _ => hnot, fun _ => herror⟩, fun _ => hnodes⟩
  case admits =>
    intro call hadm
    rcases LoadPlanBuilder.call_spec hvalid call with ⟨-, hcall⟩ | ⟨hnot, -⟩
    · refine ⟨b.freshId, by rw [hcall], fun hmem => ?_, by rw [hcall]; rfl⟩
      rcases List.mem_map.mp hmem with ⟨node, hnode, hid⟩
      have hold := b.allocated node hnode
      rw [hid] at hold
      exact Nat.lt_irrefl _ hold
    · exact absurd hadm hnot
  case parents =>
    intro index node parent hnode hparent
    rcases (validateFrom_ok hvalid.complete hnode).1 parent hparent with hnone | hbefore
    · cases hnone
    · exact hbefore
  case distinct => exact b.unique
  case stable => exact LoadPlanBuilder.nodes_prefix_build hvalid
  case freezes => exact ⟨_, hfinish, rfl, LoadPlan.walked _⟩

end Loader
end CordisCore
