import CalxMill.Lib.Assoc
import Mathlib.Algebra.BigOperators.Group.Finset.Basic
import Mathlib.Algebra.BigOperators.Ring.Finset
import Mathlib.Algebra.Order.Field.Basic
import Mathlib.Order.Bounds.Basic

/-!
# Totals by key and their peak

A list of keyed amounts has a total for every key, zero for a key it does not
have.  The totals are additive in the list.  When no key repeats and no amount
is negative, the largest amount is the largest total.
-/

namespace CalxMill.Lib

variable {ι κ K : Type*}

section Totals

variable [DecidableEq ι] [DecidableEq κ] [AddCommMonoid K]

def tally : List (ι × K) → ι → K
  | [], _ => 0
  | e :: l, i => (if e.1 = i then e.2 else 0) + tally l i

@[simp] theorem tally_nil (i : ι) : tally ([] : List (ι × K)) i = 0 := rfl

theorem tally_cons (e : ι × K) (l : List (ι × K)) (i : ι) :
    tally (e :: l) i = (if e.1 = i then e.2 else 0) + tally l i := rfl

theorem tally_singleton (k : ι) (x : K) (i : ι) :
    tally [(k, x)] i = if k = i then x else 0 := add_zero _

theorem tally_append (l l' : List (ι × K)) (i : ι) :
    tally (l ++ l') i = tally l i + tally l' i := by
  induction l with
  | nil => rw [List.nil_append, tally_nil, zero_add]
  | cons e l ih => rw [List.cons_append, tally_cons, tally_cons, ih, add_assoc]

theorem tally_flatMap {α : Type*} (g : α → List (ι × K)) (l : List α) (i : ι) :
    tally (l.flatMap g) i = (l.map fun a ↦ tally (g a) i).sum := by
  induction l with
  | nil => rfl
  | cons a l ih => rw [List.flatMap_cons, tally_append, ih, List.map_cons, List.sum_cons]

theorem tally_eq_zero {l : List (ι × K)} {i : ι} (h : i ∉ Assoc.keys l) : tally l i = 0 := by
  induction l with
  | nil => rfl
  | cons e l ih =>
      have hcons : Assoc.keys (e :: l) = e.1 :: Assoc.keys l := rfl
      rw [hcons, List.mem_cons, not_or] at h
      rw [tally_cons, if_neg (Ne.symm h.1), ih h.2, add_zero]

/-- An amount added to the entry of `k`, with the keys read through `f`. -/
theorem tally_map_alter_add (f : κ → ι) (k : κ) (x : K) (l : List (κ × K)) (i : ι) :
    tally ((Assoc.alter (fun c ↦ c.getD 0 + x) k l).map fun e ↦ (f e.1, e.2)) i =
      tally (l.map fun e ↦ (f e.1, e.2)) i + if f k = i then x else 0 := by
  induction l with
  | nil => simp [Assoc.alter, tally_cons]
  | cons e l ih =>
      by_cases hkey : e.1 = k
      · rw [Assoc.alter, if_pos hkey, List.map_cons, List.map_cons, tally_cons, tally_cons, hkey,
          Option.getD_some]
        split
        · rw [add_right_comm]
        · rw [zero_add, add_zero]
      · rw [Assoc.alter, if_neg hkey, List.map_cons, tally_cons, ih, List.map_cons, tally_cons,
          add_assoc]

theorem tally_alter_add (k : ι) (x : K) (l : List (ι × K)) (i : ι) :
    tally (Assoc.alter (fun c ↦ c.getD 0 + x) k l) i = tally l i + if k = i then x else 0 := by
  simpa using tally_map_alter_add id k x l i

theorem sum_alter_add (k : ι) (x : K) (l : List (ι × K)) :
    ((Assoc.alter (fun c ↦ c.getD 0 + x) k l).map (·.2)).sum = (l.map (·.2)).sum + x := by
  induction l with
  | nil => simp [Assoc.alter]
  | cons e l ih =>
      by_cases hkey : e.1 = k
      · rw [Assoc.alter, if_pos hkey, List.map_cons, List.map_cons, List.sum_cons, List.sum_cons,
          Option.getD_some, add_right_comm]
      · rw [Assoc.alter, if_neg hkey, List.map_cons, List.map_cons, List.sum_cons, List.sum_cons,
          ih, add_assoc]

/-- An entry whose key does not repeat is its total. -/
theorem tally_of_mem {l : List (ι × K)} (h : (Assoc.keys l).Nodup) {e : ι × K} (he : e ∈ l) :
    tally l e.1 = e.2 := by
  induction l with
  | nil => cases he
  | cons e' l ih =>
      obtain ⟨hmem, hnodup⟩ := List.nodup_cons.mp h
      rcases List.mem_cons.mp he with rfl | he
      · rw [tally_cons, if_pos rfl, tally_eq_zero hmem, add_zero]
      · have hne : e'.1 ≠ e.1 := fun hkey ↦ hmem (hkey ▸ Assoc.mem_keys_of_mem he)
        rw [tally_cons, if_neg hne, zero_add, ih hnodup he]

/-- The totals of keys that cover the list add up to all of it. -/
theorem sum_map_tally {l : List (ι × K)} {ks : List ι} (hks : ks.Nodup) (h : ∀ e ∈ l, e.1 ∈ ks) :
    (ks.map (tally l)).sum = (l.map (·.2)).sum := by
  rw [← List.sum_toFinset _ hks]
  induction l with
  | nil => exact Finset.sum_eq_zero fun k _ ↦ tally_nil k
  | cons e l ih =>
      obtain ⟨he, hl⟩ := List.forall_mem_cons.mp h
      have hsplit := Finset.sum_congr rfl fun k (_ : k ∈ ks.toFinset) ↦ tally_cons e l k
      rw [hsplit, Finset.sum_add_distrib, ih hl, Finset.sum_ite_eq,
        if_pos (List.mem_toFinset.mpr he), List.map_cons, List.sum_cons]

/-- A lookup among distinct keys reads the total. -/
theorem getD_lookup [BEq ι] [LawfulBEq ι] {l : List (ι × K)} (h : (Assoc.keys l).Nodup) (i : ι) :
    (l.lookup i).getD 0 = tally l i := by
  induction l with
  | nil => rfl
  | cons e l ih =>
      obtain ⟨hmem, hnodup⟩ := List.nodup_cons.mp h
      rw [List.lookup_cons, tally_cons]
      by_cases hkey : e.1 = i
      · subst hkey
        rw [beq_self_eq_true, if_pos rfl, tally_eq_zero hmem, add_zero]
        rfl
      · have hne : (i == e.1) = false := by simpa using Ne.symm hkey
        rw [hne, if_neg hkey, zero_add]
        exact ih hnodup

/-! ## Regrouped entries -/

/-- The same keys and totals, with the entries reordered, split or merged. -/
structure Regroups (l l' : List (ι × K)) : Prop where
  keys_subset : ∀ e ∈ l', e.1 ∈ Assoc.keys l
  tally_eq : ∀ i, tally l' i = tally l i

variable {l l' : List (ι × K)}

theorem Regroups.of_perm (h : l.Perm l') : Regroups l l' := by
  refine ⟨fun e he ↦ Assoc.mem_keys_of_mem (h.mem_iff.mpr he), fun i ↦ ?_⟩
  induction h with
  | nil => rfl
  | cons e _ ih => rw [tally_cons, tally_cons, ih]
  | swap e e' l => rw [tally_cons, tally_cons, tally_cons, tally_cons, add_left_comm]
  | trans _ _ ih ih' => exact ih'.trans ih

theorem Regroups.split (k : ι) (x y : K) (l : List (ι × K)) :
    Regroups ((k, x + y) :: l) ((k, x) :: (k, y) :: l) := by
  refine ⟨fun e he ↦ ?_, fun i ↦ ?_⟩
  · rcases List.mem_cons.mp he with rfl | he
    · exact List.mem_cons_self
    · rcases List.mem_cons.mp he with rfl | he
      · exact List.mem_cons_self
      · exact List.mem_cons_of_mem _ (Assoc.mem_keys_of_mem he)
  · rw [tally_cons, tally_cons, tally_cons]
    split
    · rw [add_assoc]
    · rw [zero_add]

example : Regroups [('a', 3), ('b', 1)] [('a', 1), ('a', 2), ('b', 1)] :=
  .split 'a' 1 2 [('b', 1)]

/-- The entries of `l'` added to those of `l` key by key. -/
theorem regroups_foldl_alter (l' : List (ι × K)) (l : List (ι × K)) :
    Regroups (l ++ l')
      (l'.foldl (fun l e ↦ Assoc.alter (fun c ↦ c.getD 0 + e.2) e.1 l) l) := by
  induction l' generalizing l with
  | nil =>
      rw [List.append_nil]
      exact .of_perm (.refl l)
  | cons e l' ih =>
      obtain ⟨hkeys, htally⟩ := ih (Assoc.alter (fun c ↦ c.getD 0 + e.2) e.1 l)
      refine ⟨fun e' he' ↦ ?_, fun i ↦ ?_⟩
      · have hmem := hkeys e' he'
        rw [Assoc.keys_append, Assoc.keys_alter] at hmem
        rw [Assoc.keys_append]
        split at hmem
        · rcases List.mem_append.mp hmem with h | h
          · exact List.mem_append_left _ h
          · exact List.mem_append_right _ (List.mem_cons_of_mem _ h)
        · rw [List.append_assoc] at hmem
          exact hmem
      · rw [List.foldl_cons, htally, tally_append, tally_alter_add, tally_append, tally_cons,
          add_assoc]

end Totals

/-! ## Weighted counts -/

section Weighted

variable [DecidableEq ι] [CommSemiring K]

/-- A sum of weights by key depends on the total counts alone. -/
theorem sum_map_count_mul {l : List (ι × ℕ)} {s : Finset ι} (hs : ∀ e ∈ l, e.1 ∈ s) (g : ι → K) :
    (l.map fun e ↦ (e.2 : K) * g e.1).sum = ∑ i ∈ s, ((tally l i : ℕ) : K) * g i := by
  induction l with
  | nil => simp
  | cons e l ih =>
      have hmem := hs e List.mem_cons_self
      have hsplit : ∀ i ∈ s, ((tally (e :: l) i : ℕ) : K) * g i =
          (if e.1 = i then (e.2 : K) * g i else 0) + ((tally l i : ℕ) : K) * g i := by
        intro i _
        rw [tally_cons]
        split <;> simp [add_mul]
      rw [List.map_cons, List.sum_cons, ih fun e he ↦ hs e (List.mem_cons_of_mem _ he),
        Finset.sum_congr rfl hsplit, Finset.sum_add_distrib, Finset.sum_ite_eq, if_pos hmem]

theorem Regroups.sum_map_count_mul {l l' : List (ι × ℕ)} (h : Regroups l l') (g : ι → K) :
    (l'.map fun e ↦ (e.2 : K) * g e.1).sum = (l.map fun e ↦ (e.2 : K) * g e.1).sum := by
  have hl : ∀ e ∈ l, e.1 ∈ (Assoc.keys l).toFinset :=
    fun e he ↦ List.mem_toFinset.mpr (Assoc.mem_keys_of_mem he)
  have hl' : ∀ e ∈ l', e.1 ∈ (Assoc.keys l).toFinset :=
    fun e he ↦ List.mem_toFinset.mpr (h.keys_subset e he)
  rw [Lib.sum_map_count_mul hl g, Lib.sum_map_count_mul hl' g]
  simp only [h.tally_eq]

end Weighted

/-! ## The peak of the totals -/

/-- The largest value of a family. -/
def IsPeak [LE K] (f : ι → K) (m : K) : Prop := IsGreatest (Set.range f) m

theorem IsPeak.mono [Preorder K] {f g : ι → K} {a b : K} (hf : IsPeak f a) (hg : IsPeak g b)
    (h : ∀ i, f i ≤ g i) : a ≤ b := by
  obtain ⟨i, rfl⟩ := hf.1
  exact (h i).trans (hg.2 ⟨i, rfl⟩)

theorem IsPeak.unique [PartialOrder K] {f : ι → K} {a b : K} (ha : IsPeak f a)
    (hb : IsPeak f b) : a = b :=
  IsGreatest.unique ha hb

section Ordered

variable [Field K] [LinearOrder K] [IsStrictOrderedRing K]

theorem IsPeak.le_add {f g : ι → K} {a b c : K} (hf : IsPeak f a) (hg : IsPeak g b)
    (h : IsPeak (fun i ↦ f i + g i) c) : c ≤ a + b := by
  obtain ⟨i, rfl⟩ := h.1
  exact add_le_add (hf.2 ⟨i, rfl⟩) (hg.2 ⟨i, rfl⟩)

theorem IsPeak.mul_left {f : ι → K} {a k : K} (hk : 0 ≤ k) (hf : IsPeak f a) :
    IsPeak (fun i ↦ k * f i) (k * a) := by
  obtain ⟨i, rfl⟩ := hf.1
  refine ⟨⟨i, rfl⟩, ?_⟩
  rintro _ ⟨j, rfl⟩
  exact mul_le_mul_of_nonneg_left (hf.2 ⟨j, rfl⟩) hk

end Ordered

theorem tally_nonneg [DecidableEq ι] [AddCommMonoid K] [PartialOrder K] [IsOrderedAddMonoid K]
    {l : List (ι × K)} (hnonneg : ∀ e ∈ l, 0 ≤ e.2) (i : ι) : 0 ≤ tally l i := by
  induction l with
  | nil => exact le_rfl
  | cons e l ih =>
      obtain ⟨he, hl⟩ := List.forall_mem_cons.mp hnonneg
      refine add_nonneg ?_ (ih hl)
      split
      · exact he
      · exact le_rfl

/-- The largest entry is the peak of the totals. -/
theorem isPeak_tally [DecidableEq ι] [AddCommMonoid K] [LinearOrder K] {l : List (ι × K)}
    (hkeys : (Assoc.keys l).Nodup) (hnonneg : ∀ e ∈ l, 0 ≤ e.2) {m : K} (hmem : m ∈ l.map (·.2))
    (hmax : ∀ x ∈ l.map (·.2), x ≤ m) : IsPeak (tally l) m := by
  obtain ⟨e, he, rfl⟩ := List.mem_map.mp hmem
  refine ⟨⟨e.1, tally_of_mem hkeys he⟩, ?_⟩
  rintro _ ⟨i, rfl⟩
  by_cases hi : i ∈ Assoc.keys l
  · obtain ⟨e', he', rfl⟩ := Assoc.mem_keys.mp hi
    rw [tally_of_mem hkeys he']
    exact hmax _ (List.mem_map_of_mem he')
  · rw [tally_eq_zero hi]
    exact hnonneg e he

end CalxMill.Lib
