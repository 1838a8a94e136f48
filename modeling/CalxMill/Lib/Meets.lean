import Mathlib.Data.List.Basic
import Mathlib.Order.MinMax

/-!
# Meets over a tree

The leaves of a tree have values in a linear order.  A node takes the meet of
its two sides, and cuts it to a cap unless the node is endorsed.  Where in the
tree a cut is made plays no part: the root is the least leaf, cut once unless
every node is endorsed.
-/

namespace CalxMill.Lib

/-- A binary tree with a label at each leaf and at each inner node. -/
inductive Compound (ι : Type*) where
  | leaf (i : ι)
  | node (i : ι) (l r : Compound ι)

namespace Compound

variable {ι α : Type*}

def leaves : Compound ι → List ι
  | leaf i => [i]
  | node _ l r => l.leaves ++ r.leaves

def nodes : Compound ι → List ι
  | leaf _ => []
  | node i l r => i :: (l.nodes ++ r.nodes)

variable [LinearOrder α] (f : ι → α) (endorsed : ι → Prop) (cap : α)

open Classical in
noncomputable def value : Compound ι → α
  | leaf i => f i
  | node i l r => if endorsed i then min l.value r.value else min (min l.value r.value) cap

variable {f endorsed cap}

theorem le_value_iff {t : Compound ι} {x : α} : x ≤ t.value f endorsed cap ↔
    (∀ i ∈ t.leaves, x ≤ f i) ∧ (x ≤ cap ∨ ∀ i ∈ t.nodes, endorsed i) := by
  induction t with
  | leaf i => simp [value, leaves, nodes]
  | node i l r ihl ihr =>
      rw [value, leaves, nodes, List.forall_mem_append, List.forall_mem_cons,
        List.forall_mem_append]
      split
      · next hi =>
          rw [le_min_iff, ihl, ihr]
          tauto
      · next hi =>
          rw [le_min_iff, le_min_iff, ihl, ihr]
          tauto

/-- The root depends on the set of the leaves, and on whether all nodes are endorsed. -/
theorem value_congr {t t' : Compound ι} (hleaves : ∀ i, i ∈ t.leaves ↔ i ∈ t'.leaves)
    (hnodes : (∀ i ∈ t.nodes, endorsed i) ↔ ∀ i ∈ t'.nodes, endorsed i) :
    t.value f endorsed cap = t'.value f endorsed cap := by
  apply eq_of_forall_le_iff
  intro x
  rw [le_value_iff, le_value_iff, hnodes]
  simp only [hleaves]

end Compound

end CalxMill.Lib
