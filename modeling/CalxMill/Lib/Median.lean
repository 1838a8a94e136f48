import Mathlib.Algebra.Order.Field.Basic
import Mathlib.Data.List.GetD
import Mathlib.Data.List.Sort
import Mathlib.Tactic.Linarith

/-!
# The median of a list

The middle of the sorted list, or the mean of the two middle elements.  It
lies between two elements of the list.  The upper median stays in an interval
that holds more than half of the elements, whatever the others are.
-/

namespace CalxMill.Lib

variable {K : Type*} [Field K] [LinearOrder K]

def sortedMedian (l : List K) : K :=
  let v := l.insertionSort (· ≤ ·)
  let n := v.length
  if n % 2 = 1 then v.getD (n / 2) 0 else (v.getD (n / 2 - 1) 0 + v.getD (n / 2) 0) / 2

variable [IsStrictOrderedRing K]

theorem exists_le_sortedMedian_le {l : List K} (hl : l ≠ []) :
    ∃ a ∈ l, ∃ b ∈ l, a ≤ sortedMedian l ∧ sortedMedian l ≤ b := by
  have hmem : ∀ i < (l.insertionSort (· ≤ ·)).length,
      (l.insertionSort (· ≤ ·)).getD i 0 ∈ l := by
    intro i hi
    rw [List.getD_eq_getElem _ _ hi]
    exact (List.mem_insertionSort _).mp (List.getElem_mem hi)
  have hpos : 0 < (l.insertionSort (· ≤ ·)).length := by
    rw [List.length_insertionSort]
    exact List.length_pos_iff.mpr hl
  unfold sortedMedian
  generalize l.insertionSort (· ≤ ·) = v at hmem hpos
  dsimp only
  split
  next => exact ⟨_, hmem _ (by omega), _, hmem _ (by omega), le_rfl, le_rfl⟩
  next =>
    have ha := hmem (v.length / 2 - 1) (by omega)
    have hb := hmem (v.length / 2) (by omega)
    rcases le_total (v.getD (v.length / 2 - 1) 0) (v.getD (v.length / 2) 0) with h | h
    · exact ⟨_, ha, _, hb, by linarith, by linarith⟩
    · exact ⟨_, hb, _, ha, by linarith, by linarith⟩

omit [IsStrictOrderedRing K] in
/-- The median does not depend on the order of the list. -/
theorem sortedMedian_perm {l l' : List K} (h : l.Perm l') : sortedMedian l = sortedMedian l' := by
  have hperm : (l.insertionSort (· ≤ ·)).Perm (l'.insertionSort (· ≤ ·)) :=
    (List.perm_insertionSort _ l).trans (h.trans (List.perm_insertionSort _ l').symm)
  have hsorted : l.insertionSort (· ≤ ·) = l'.insertionSort (· ≤ ·) :=
    hperm.eq_of_pairwise (fun a b _ _ ↦ le_antisymm) (List.pairwise_insertionSort _ l)
      (List.pairwise_insertionSort _ l')
  rw [sortedMedian, sortedMedian, hsorted]

theorem sortedMedian_pos {l : List K} (hl : l ≠ []) (h : ∀ a ∈ l, 0 < a) : 0 < sortedMedian l := by
  obtain ⟨a, ha, -, -, hle, -⟩ := exists_le_sortedMedian_le hl
  exact (h a ha).trans_le hle

/-! ## The upper median -/

section Upper

variable {α : Type*}

theorem countP_le_of_take {v : List α} {p : α → Bool} {k : ℕ} (h : ∀ x ∈ v.take k, ¬ p x) :
    v.countP p ≤ v.length - k := by
  have hzero := List.countP_eq_zero.mpr h
  have hrest : (v.drop k).countP p ≤ (v.drop k).length := List.countP_le_length
  rw [List.length_drop] at hrest
  rwa [← List.take_append_drop k v, List.countP_append, hzero, Nat.zero_add,
    List.take_append_drop]

theorem countP_le_of_drop {v : List α} {p : α → Bool} {k : ℕ} (h : ∀ x ∈ v.drop k, ¬ p x) :
    v.countP p ≤ k := by
  have hzero := List.countP_eq_zero.mpr h
  have hrest : (v.take k).countP p ≤ (v.take k).length := List.countP_le_length
  rw [← List.take_append_drop k v, List.countP_append, hzero, Nat.add_zero]
  exact hrest.trans (List.length_take_le k v)

variable [LinearOrder α] {lo hi : α}

/-- The upper one of the two middle elements on even length. -/
def upperMedian (l : List α) : Option α := (l.insertionSort (· ≤ ·))[l.length / 2]?

/-- An interval that holds the strict majority of the elements holds the upper
median: on either side of it at most half of the elements are left. -/
theorem upperMedian_mem_Icc {l : List α}
    (h : l.length < 2 * l.countP (fun x ↦ lo ≤ x ∧ x ≤ hi)) :
    ∃ c, upperMedian l = some c ∧ lo ≤ c ∧ c ≤ hi := by
  have hsorted := List.sortedLE_insertionSort (l := l)
  have hperm := List.perm_insertionSort (· ≤ ·) l
  rw [← hperm.countP_eq, ← hperm.length_eq] at h
  rw [upperMedian, ← hperm.length_eq]
  generalize l.insertionSort (· ≤ ·) = v at hsorted h
  have hcount : v.countP (fun x ↦ lo ≤ x ∧ x ≤ hi) ≤ v.length := List.countP_le_length
  have hmid : v.length / 2 < v.length := by omega
  have hmono : ∀ (i j : ℕ) (hj : j < v.length) (hij : i ≤ j), v[i] ≤ v[j] :=
    fun i j hj hij ↦ hsorted.getElem_le_getElem_of_le hij
  refine ⟨_, List.getElem?_eq_getElem hmid, ?_, ?_⟩
  · by_contra hlow
    have hcount := countP_le_of_take (v := v) (p := fun x ↦ lo ≤ x ∧ x ≤ hi)
      (k := v.length / 2 + 1) ?_
    · omega
    · intro x hx
      obtain ⟨j, hj, rfl⟩ := List.mem_take_iff_getElem.mp hx
      have hlt : v[j] < lo := (hmono j _ hmid (by omega)).trans_lt (not_le.mp hlow)
      simp [hlt]
  · by_contra hhigh
    have hcount := countP_le_of_drop (v := v) (p := fun x ↦ lo ≤ x ∧ x ≤ hi)
      (k := v.length / 2) ?_
    · omega
    · intro x hx
      obtain ⟨j, hj, rfl⟩ := List.mem_drop_iff_getElem.mp hx
      have hlt : hi < v[v.length / 2 + j] :=
        (not_le.mp hhigh).trans_le (hmono _ _ (by omega) (Nat.le_add_right _ _))
      simp [hlt]

end Upper

end CalxMill.Lib
