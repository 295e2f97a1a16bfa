import Mathlib.Data.List.Count
import Mathlib.Logic.Relation

/-!
# Forests — the loop over a stack and the recursive order

A forest is given by the children of each node.  Where children come after their
parents and no node has two parents, the loop that pops a node and pushes its
children visits every node below the roots exactly once, in preorder.
-/

namespace CordisCore
namespace Forest

open Relation

/-! ## Preorder of a forest -/

/-- The order in which a forest with these roots is walked: a root, what is below it, the next
root. -/
inductive Preorder (below : Nat → List Nat) : List Nat → List Nat → Prop where
  | nil : Preorder below [] []
  | root {index : Nat} {roots first rest : List Nat} (hfirst : Preorder below (below index) first)
      (hrest : Preorder below roots rest) : Preorder below (index :: roots) (index :: first ++ rest)

namespace Preorder

variable {below : Nat → List Nat}

theorem append {a b order order' : List Nat} (ha : Preorder below a order)
    (hb : Preorder below b order') : Preorder below (a ++ b) (order ++ order') := by
  induction ha with
  | nil => exact hb
  | root hfirst _ _ ihrest =>
      rw [List.cons_append, List.append_assoc]
      exact .root hfirst ihrest

/-- One round of the loop takes the first root and puts its children in its place. -/
theorem visit_round {index : Nat} {roots order : List Nat} (h : Preorder below (index :: roots) order) :
    ∃ rest, order = index :: rest ∧ Preorder below (below index ++ roots) rest := by
  cases h with
  | root hfirst hrest => exact ⟨_, rfl, hfirst.append hrest⟩

/-- What is walked is a root or comes after its parent. -/
theorem parent_before {roots order : List Nat} (h : Preorder below roots order) :
    ∀ before index after, order = before ++ index :: after →
      index ∈ roots ∨ ∃ parent ∈ before, index ∈ below parent := by
  induction h with
  | nil => simp
  | @root top roots first rest _ _ ihfirst ihrest =>
      intro before index after hsplit
      rcases before with _ | ⟨head, before⟩
      · obtain ⟨rfl, -⟩ := List.cons_eq_cons.mp (by simpa using hsplit)
        exact .inl (List.mem_cons_self ..)
      · simp only [List.cons_append, List.cons.injEq] at hsplit
        rcases hsplit with ⟨rfl, hsplit⟩
        rcases List.append_eq_append_iff.mp hsplit with
          ⟨more, hbefore, hrest⟩ | ⟨more, hfirst, hafter⟩
        · rcases ihrest more index after hrest with hroot | ⟨parent, hparent, hbelow⟩
          · exact .inl (List.mem_cons_of_mem _ hroot)
          · exact .inr ⟨parent, by simp [hbefore, hparent], hbelow⟩
        · rcases more with _ | ⟨next, more⟩
          · rcases ihrest [] index after (by simpa using hafter.symm) with
              hroot | ⟨parent, hparent, -⟩
            · exact .inl (List.mem_cons_of_mem _ hroot)
            · cases hparent
          · simp only [List.cons_append, List.cons.injEq] at hafter
            rcases hafter with ⟨rfl, -⟩
            rcases ihfirst before index more hfirst with hchild | ⟨parent, hparent, hbelow⟩
            · exact .inr ⟨top, List.mem_cons_self .., hchild⟩
            · exact .inr ⟨parent, List.mem_cons_of_mem _ hparent, hbelow⟩

/-- What is below a node is walked right behind it. -/
theorem subtree {roots order : List Nat} (h : Preorder below roots order) {index : Nat}
    (hmem : index ∈ order) : ∃ before first after, order = before ++ index :: first ++ after ∧
      Preorder below (below index) first := by
  induction h with
  | nil => cases hmem
  | @root top roots first rest hfirst _ ihfirst ihrest =>
      rcases List.mem_append.mp hmem with hfirst' | hrest
      · rcases List.mem_cons.mp hfirst' with rfl | hbelow
        · exact ⟨[], first, rest, rfl, hfirst⟩
        · rcases ihfirst hbelow with ⟨before, sub, after, rfl, hsub⟩
          exact ⟨top :: before, sub, after ++ rest, by simp, hsub⟩
      · rcases ihrest hrest with ⟨before, sub, after, rfl, hsub⟩
        exact ⟨top :: first ++ before, sub, after, by simp, hsub⟩

/-- Children that stand after their parents leave only finite descents. -/
theorem exists_of_increasing {bound : Nat} (hbelow : ∀ i, ∀ c ∈ below i, i < c ∧ c < bound) :
    ∀ roots, ∃ order, Preorder below roots order := by
  have hone : ∀ rest index, bound - index ≤ rest → ∃ order, Preorder below [index] order := by
    intro rest
    induction rest with
    | zero =>
        intro index hrest
        have hnone : below index = [] := by
          refine List.eq_nil_iff_forall_not_mem.mpr fun c hc => ?_
          have hbounds := hbelow index c hc
          omega
        have hleaf : Preorder below (below index) [] := by
          rw [hnone]
          exact .nil
        exact ⟨_, .root hleaf .nil⟩
    | succ rest ih =>
        intro index hrest
        have hall : ∀ cs : List Nat, (∀ c ∈ cs, c ∈ below index) →
            ∃ order, Preorder below cs order := by
          intro cs
          induction cs with
          | nil => exact fun _ => ⟨[], .nil⟩
          | cons c cs ihcs =>
              intro hcs
              have hbounds := hbelow index c (hcs c (List.mem_cons_self ..))
              rcases ih c (by omega) with ⟨first, hfirst⟩
              rcases ihcs fun d hd => hcs d (List.mem_cons_of_mem _ hd) with ⟨others, hothers⟩
              exact ⟨_, hfirst.append hothers⟩
        rcases hall (below index) fun _ h => h with ⟨order, horder⟩
        exact ⟨_, .root horder .nil⟩
  intro roots
  induction roots with
  | nil => exact ⟨[], .nil⟩
  | cons index roots ih =>
      rcases hone _ index (Nat.le_refl _) with ⟨first, hfirst⟩
      rcases ih with ⟨rest, hrest⟩
      exact ⟨_, hfirst.append hrest⟩

end Preorder

/-! ## The loop over a stack -/

/-- Pop a node, push its children; the top of the stack is the first of the list.  `none` when
the loop is not over after so many rounds. -/
def stackWalk (below : Nat → List Nat) : Nat → List Nat → List Nat → Option (List Nat)
  | _, [], order => some order
  | 0, _ :: _, _ => none
  | rounds + 1, index :: stack, order =>
      stackWalk below rounds (below index ++ stack) (order ++ [index])

theorem stackWalk_eq {below : Nat → List Nat} {order : List Nat} :
    ∀ {stack done : List Nat} {rounds : Nat}, Preorder below stack order →
      order.length ≤ rounds → stackWalk below rounds stack done = some (done ++ order) := by
  induction order with
  | nil =>
      intro stack done rounds h _
      cases h
      cases rounds <;> simp [stackWalk]
  | cons head order ih =>
      intro stack done rounds h hrounds
      cases stack with
      | nil => cases h
      | cons index stack =>
          rcases h.visit_round with ⟨rest, heq, hrest⟩
          obtain ⟨rfl, rfl⟩ := List.cons_eq_cons.mp heq
          cases rounds with
          | zero => simp at hrounds
          | succ rounds =>
              rw [stackWalk, ih hrest (by simpa using hrounds), List.append_assoc]
              rfl

/-! ## Every node once -/

/-- Children come after their parents, below a bound, and each has one parent. -/
structure Ordered (below : Nat → List Nat) (bound : Nat) : Prop where
  after : ∀ i, ∀ c ∈ below i, i < c ∧ c < bound
  parent : ∀ i j c, c ∈ below i → c ∈ below j → i = j
  nodup : ∀ i, (below i).Nodup

namespace Ordered

variable {below : Nat → List Nat} {bound : Nat}

/-- `i` is `j` or above it. -/
abbrev Above (below : Nat → List Nat) : Nat → Nat → Prop :=
  ReflTransGen fun i c => c ∈ below i

theorem le_of_above (h : Ordered below bound) {i j : Nat} (hij : Above below i j) : i ≤ j := by
  induction hij with
  | refl => exact Nat.le_refl _
  | tail _ hstep ih => exact Nat.le_trans ih (Nat.le_of_lt (h.after _ _ hstep).1)

/-- What is above one node stands in one line. -/
theorem above_total (h : Ordered below bound) {a b j : Nat} (ha : Above below a j)
    (hb : Above below b j) : Above below a b ∨ Above below b a := by
  induction ha with
  | refl => exact .inr hb
  | tail hal hstep ih =>
      rcases ReflTransGen.cases_tail hb with rfl | ⟨k, hbk, hk⟩
      · exact .inl (hal.tail hstep)
      · obtain rfl := h.parent _ _ _ hstep hk
        exact ih hbk

/-- Exactly one child of a node leads to a node strictly below it. -/
theorem child_unique (h : Ordered below bound) {i c d j : Nat} (hc : c ∈ below i)
    (hd : d ∈ below i) (hcj : Above below c j) (hdj : Above below d j) : c = d := by
  have hno : ∀ {c d : Nat}, c ∈ below i → d ∈ below i → Above below c d → c = d := by
    intro c d hc hd hcd
    rcases ReflTransGen.cases_tail hcd with rfl | ⟨k, hck, hk⟩
    · rfl
    · obtain rfl := h.parent _ _ _ hd hk
      exact absurd (h.le_of_above hck) (Nat.not_le.mpr (h.after _ _ hc).1)
  rcases h.above_total hcj hdj with hcd | hdc
  · exact hno hc hd hcd
  · exact (hno hd hc hdc).symm

open Classical in
/-- How often a node is walked: once for every root above it. -/
theorem count_eq (h : Ordered below bound) {roots order : List Nat}
    (horder : Preorder below roots order) (j : Nat) :
    order.count j = roots.countP fun i => decide (Above below i j) := by
  induction horder with
  | nil => rfl
  | @root index roots first rest _ _ ihfirst ihrest =>
      rw [List.cons_append, List.count_cons, List.count_append, ihfirst, ihrest,
        List.countP_cons]
      by_cases hself : index = j
      · -- the node itself: none of its children is above it
        subst hself
        have hnone : (below index).countP (fun i => decide (Above below i index)) = 0 := by
          rw [List.countP_eq_zero]
          intro c hc
          have hlt := (h.after _ _ hc).1
          simp only [decide_eq_true_eq]
          exact fun hup => absurd (h.le_of_above hup) (Nat.not_le.mpr hlt)
        have hrefl : Above below index index := .refl
        simp [hnone, hrefl]
      · have hchildren : (below index).countP (fun i => decide (Above below i j)) =
            if Above below index j then 1 else 0 := by
          split
          · rename_i hup
            rcases ReflTransGen.cases_head hup with heq | ⟨c, hc, hcj⟩
            · exact absurd heq hself
            · rw [List.countP_eq_length_filter]
              have honly : (below index).filter (fun i => decide (Above below i j)) = [c] := by
                refine List.perm_singleton.mp ((List.perm_ext_iff_of_nodup
                  ((h.nodup index).filter _) (List.pairwise_singleton _ _)).mpr fun d => ?_)
                simp only [List.mem_filter, decide_eq_true_eq, List.mem_singleton]
                constructor
                · rintro ⟨hd, hdj⟩
                  exact h.child_unique hd hc hdj hcj
                · rintro rfl
                  exact ⟨hc, hcj⟩
              rw [honly]
              rfl
          · rename_i hup
            rw [List.countP_eq_zero]
            intro c hc
            simp only [decide_eq_true_eq]
            exact fun hcj => hup (.head hc hcj)
        simp only [hchildren, beq_iff_eq, hself, if_false, decide_eq_true_eq]
        omega

/-- A walk visits what is below its roots. -/
theorem mem_iff (h : Ordered below bound) {roots order : List Nat}
    (horder : Preorder below roots order) {j : Nat} :
    j ∈ order ↔ ∃ i ∈ roots, Above below i j := by
  classical
  rw [← List.count_pos_iff, h.count_eq horder, List.countP_pos_iff]
  simp only [decide_eq_true_eq]

end Ordered

end Forest
end CordisCore
