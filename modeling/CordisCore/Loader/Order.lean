import CordisCore.Loader.Plan
import Mathlib.Data.List.Nodup

/-!
# Execution order — a load visits every node of its plan once

The nodes of a finished plan are a forest whose parents stand first, so the walk
over the stack ends and gives the preorder of that forest.
-/

namespace CordisCore
namespace Loader

open Forest Relation

/-! ## What validation guarantees -/

theorem mem_childrenOf {nodes : List PlanNode} {parent : Option EntryId} {index : Nat} :
    index ∈ childrenOf nodes parent ↔ ∃ node, nodes[index]? = some node ∧ node.parent = parent := by
  simp only [childrenOf, List.mem_filterMap, Prod.exists, List.mem_zipIdx_iff_getElem?,
    Option.ite_none_right_eq_some, Option.some.injEq]
  constructor
  · rintro ⟨node, _, hnode, hparent, rfl⟩
    exact ⟨node, hnode, hparent⟩
  · rintro ⟨node, hnode, hparent⟩
    exact ⟨node, index, hnode, hparent, rfl⟩

theorem childrenOf_nodup (nodes : List PlanNode) (parent : Option EntryId) :
    (childrenOf nodes parent).Nodup := by
  have hindices : (nodes.zipIdx.map Prod.snd).Nodup := by
    rw [List.zipIdx_map_snd]
    exact List.nodup_range'
  have hsub : (childrenOf nodes parent).Sublist (nodes.zipIdx.map Prod.snd) := by
    unfold childrenOf
    induction nodes.zipIdx with
    | nil => exact .slnil
    | cons row rows ih =>
        rcases row with ⟨node, index⟩
        simp only [List.filterMap_cons, List.map_cons]
        split
        · rename_i hskip
          exact ih.cons _
        · rename_i kept hkept
          split at hkept
          · obtain rfl := Option.some.inj hkept
            exact ih.cons_cons _
          · cases hkept
  exact hindices.sublist hsub

/-- Every parent that a validated node names stands before it, and every plugin is validated. -/
theorem validateFrom_ok {lineage : Nat} {nodes : List PlanNode} {capable : List EntryId}
    (h : validateFrom lineage capable nodes = .ok ()) {index : Nat} {node : PlanNode}
    (hnode : nodes[index]? = some node) :
    (∀ parent, node.parent = some parent → parent ∈ capable ∨
      ∃ i < index, ∃ above, nodes[i]? = some above ∧ above.id = parent) ∧
    ∀ entry, node.entry = .plugin entry → validatePlugin node.id entry = .ok () := by
  induction nodes generalizing capable index with
  | nil => simp at hnode
  | cons first nodes ih =>
      simp only [validateFrom] at h
      split at h
      · cases h
      · rename_i hfirst
        cases index with
        | zero =>
            obtain rfl : first = node := by simpa using hnode
            simp only [validateNode] at hfirst
            split at hfirst
            · rename_i parent entry hparent
              split at hfirst
              · cases hfirst
              · rename_i hknown
                simp only [Bool.or_eq_true, Bool.not_eq_true', not_or, Bool.not_eq_false,
                  List.contains_iff_mem] at hknown
                -- a first node may only name a parent that was there before
                refine ⟨fun p hp => ?_, fun entry hentry => ?_⟩
                · rw [hparent, Option.some.injEq] at hp
                  exact .inl (hp ▸ hknown.2)
                · rw [hentry] at hfirst
                  exact hfirst
            · rename_i plugin hparent hplugin
              refine ⟨fun p hp => ?_, fun entry hentry => ?_⟩
              · rw [hparent] at hp
                cases hp
              · rw [hplugin, PlanEntry.plugin.injEq] at hentry
                exact hentry ▸ hfirst
            · rename_i hparent hgroup
              refine ⟨fun p hp => ?_, fun entry hentry => ?_⟩
              · rw [hparent] at hp
                cases hp
              · rw [hgroup] at hentry
                cases hentry
        | succ index =>
            rcases ih h (by simpa using hnode) with ⟨hparents, hplugins⟩
            refine ⟨fun parent hparent => ?_, hplugins⟩
            -- what became capable at the first node is that node itself
            rcases hparents parent hparent with hcapable | ⟨i, hi, above, habove, hid⟩
            · split at hcapable
              · rcases List.mem_cons.mp hcapable with rfl | hold
                · exact .inr ⟨0, Nat.succ_pos _, first, rfl, rfl⟩
                · exact .inl hold
              · exact .inl hcapable
            · exact .inr ⟨i + 1, Nat.succ_lt_succ hi, above, by simpa using habove, hid⟩

namespace LoadPlan

variable (plan : LoadPlan)

/-- The parent that a node names stands before it. -/
theorem parent_before {index : Nat} {node : PlanNode} (hnode : plan.nodes[index]? = some node)
    {parent : EntryId} (hparent : node.parent = some parent) :
    ∃ i < index, ∃ above, plan.nodes[i]? = some above ∧ above.id = parent := by
  rcases (validateFrom_ok plan.complete hnode).1 parent hparent with hnone | hbefore
  · cases hnone
  · exact hbefore

theorem validated {index : Nat} {node : PlanNode} (hnode : plan.nodes[index]? = some node)
    {entry : PluginEntry} (hentry : node.entry = .plugin entry) :
    validatePlugin node.id entry = .ok () :=
  (validateFrom_ok plan.complete hnode).2 entry hentry

/-- Nodes are told apart by their identities. -/
theorem index_unique {i j : Nat} {a b : PlanNode} (ha : plan.nodes[i]? = some a)
    (hb : plan.nodes[j]? = some b) (hid : a.id = b.id) : i = j := by
  rcases List.getElem?_eq_some_iff.mp ha with ⟨hi, rfl⟩
  rcases List.getElem?_eq_some_iff.mp hb with ⟨hj, rfl⟩
  have hids : (plan.nodes.map PlanNode.id).get ⟨i, by simpa using hi⟩ =
      (plan.nodes.map PlanNode.id).get ⟨j, by simpa using hj⟩ := by simpa using hid
  exact (List.Nodup.getElem_inj_iff plan.unique).mp hids

theorem mem_descendants {i c : Nat} : c ∈ descendants plan.nodes i ↔
    ∃ above node, plan.nodes[i]? = some above ∧ plan.nodes[c]? = some node ∧
      node.parent = some above.id := by
  unfold descendants
  split
  · rename_i above habove
    rw [mem_childrenOf]
    constructor
    · rintro ⟨node, hnode, hparent⟩
      exact ⟨above, node, habove, hnode, hparent⟩
    · rintro ⟨other, node, hother, hnode, hparent⟩
      rw [habove, Option.some.injEq] at hother
      exact ⟨node, hnode, hother ▸ hparent⟩
  · rename_i hnone
    simp [hnone]

/-- The nodes of a plan are a forest. -/
theorem ordered : Ordered (descendants plan.nodes) plan.nodes.length where
  after i c hc := by
    rcases plan.mem_descendants.mp hc with ⟨above, node, habove, hnode, hparent⟩
    rcases plan.parent_before hnode hparent with ⟨j, hj, other, hother, hid⟩
    obtain rfl := plan.index_unique habove hother hid.symm
    exact ⟨hj, (List.getElem?_eq_some_iff.mp hnode).1⟩
  parent i j c hi hj := by
    rcases plan.mem_descendants.mp hi with ⟨above, node, habove, hnode, hparent⟩
    rcases plan.mem_descendants.mp hj with ⟨other, same, hother, hsame, hparent'⟩
    rw [hnode, Option.some.injEq] at hsame
    subst hsame
    rw [hparent, Option.some.injEq] at hparent'
    exact plan.index_unique habove hother hparent'
  nodup i := by
    unfold descendants
    split
    · exact childrenOf_nodup _ _
    · exact List.nodup_nil

/-- Some root is above every node. -/
theorem exists_root (index : Nat) (h : index < plan.nodes.length) :
    ∃ root ∈ childrenOf plan.nodes none, Ordered.Above (descendants plan.nodes) root index := by
  induction index using Nat.strongRecOn with
  | ind index ih =>
      have hnode : plan.nodes[index]? = some plan.nodes[index] := List.getElem?_eq_getElem h
      cases hparent : plan.nodes[index].parent with
      | none => exact ⟨index, mem_childrenOf.mpr ⟨_, hnode, hparent⟩, .refl⟩
      | some parent =>
          rcases plan.parent_before hnode hparent with ⟨i, hi, above, habove, hid⟩
          rcases ih i hi (Nat.lt_trans hi h) with ⟨root, hroot, hup⟩
          refine ⟨root, hroot, hup.tail (plan.mem_descendants.mpr ?_)⟩
          exact ⟨above, _, habove, hnode, by rw [hparent, hid]⟩

theorem root_unique {a b index : Nat} (ha : a ∈ childrenOf plan.nodes none)
    (hb : b ∈ childrenOf plan.nodes none)
    (hup : Ordered.Above (descendants plan.nodes) a index)
    (hup' : Ordered.Above (descendants plan.nodes) b index) : a = b := by
  have htop : ∀ {a b : Nat}, b ∈ childrenOf plan.nodes none →
      Ordered.Above (descendants plan.nodes) a b → a = b := by
    intro a b hb hab
    rcases ReflTransGen.cases_tail hab with rfl | ⟨k, -, hk⟩
    · rfl
    · rcases plan.mem_descendants.mp hk with ⟨above, node, -, hnode, hparent⟩
      rcases mem_childrenOf.mp hb with ⟨same, hsame, hnone⟩
      rw [hnode, Option.some.injEq] at hsame
      rw [hsame, hnone] at hparent
      cases hparent
  rcases plan.ordered.above_total hup hup' with hab | hba
  · exact htop hb hab
  · exact (htop ha hba).symm

open Classical in
/-- The loop over the stack ends with the preorder of the plan forest, every node in it once. -/
theorem executionOrder_preorder : ∃ order, plan.executionOrder = some order ∧
    Preorder (descendants plan.nodes) (childrenOf plan.nodes none) order ∧
      order.Perm (List.range plan.nodes.length) := by
  rcases Preorder.exists_of_increasing plan.ordered.after (childrenOf plan.nodes none) with
    ⟨order, horder⟩
  have hcount : ∀ index, order.count index = (List.range plan.nodes.length).count index := by
    intro index
    rw [plan.ordered.count_eq horder, List.countP_eq_length_filter]
    by_cases hindex : index < plan.nodes.length
    · rcases plan.exists_root index hindex with ⟨root, hroot, hup⟩
      have honly : (childrenOf plan.nodes none).filter
          (fun i => decide (Ordered.Above (descendants plan.nodes) i index)) = [root] := by
        refine List.perm_singleton.mp ((List.perm_ext_iff_of_nodup
          ((childrenOf_nodup _ _).filter _) (List.pairwise_singleton _ _)).mpr fun i => ?_)
        simp only [List.mem_filter, decide_eq_true_eq, List.mem_singleton]
        constructor
        · rintro ⟨hi, hi'⟩
          exact plan.root_unique hi hroot hi' hup
        · rintro rfl
          exact ⟨hroot, hup⟩
      rw [honly, List.count_eq_one_of_mem List.nodup_range (List.mem_range.mpr hindex)]
      rfl
    · have hnone : (childrenOf plan.nodes none).filter
          (fun i => decide (Ordered.Above (descendants plan.nodes) i index)) = [] := by
        refine List.filter_eq_nil_iff.mpr fun i hi => ?_
        simp only [decide_eq_true_eq]
        intro hup
        rcases ReflTransGen.cases_tail hup with rfl | ⟨k, -, hk⟩
        · rcases mem_childrenOf.mp hi with ⟨node, hnode, -⟩
          exact hindex (List.getElem?_eq_some_iff.mp hnode).1
        · exact hindex (plan.ordered.after _ _ hk).2
      rw [hnone, List.count_eq_zero_of_not_mem (by simpa using hindex)]
      rfl
  have hperm : order.Perm (List.range plan.nodes.length) := List.perm_iff_count.mpr hcount
  refine ⟨order, ?_, horder, hperm⟩
  have hrounds : order.length ≤ plan.nodes.length := by
    simp [hperm.length_eq]
  exact stackWalk_eq horder hrounds

end LoadPlan

end Loader
end CordisCore
