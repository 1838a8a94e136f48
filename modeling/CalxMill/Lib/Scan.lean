import Mathlib.Data.List.Induction
import Mathlib.Order.Lattice
import Mathlib.Tactic.Common

/-!
# Scanning for the first maximum

A scan keeps the largest value seen so far and the place where it was first
seen; a later value must be strictly greater to displace it.
-/

namespace CalxMill.Lib

variable {α β : Type*} [LinearOrder β]

/-- The scan over the values of `f`, from `start` at place zero. -/
def scanMax (f : α → β) (l : List α) (start : β) : β × ℕ :=
  l.zipIdx.foldl (fun best e ↦ if best.1 < f e.1 then (f e.1, e.2) else best) (start, 0)

variable {f : α → β} {l : List α} {start : β}

@[simp] theorem scanMax_nil : scanMax f [] start = (start, 0) := rfl

theorem scanMax_append_singleton (a : α) : scanMax f (l ++ [a]) start =
    if (scanMax f l start).1 < f a then (f a, l.length) else scanMax f l start := by
  rw [scanMax, List.zipIdx_append, List.foldl_append, List.zipIdx_singleton, List.foldl_cons,
    List.foldl_nil, Nat.zero_add]
  rfl

theorem le_scanMax : start ≤ (scanMax f l start).1 := by
  induction l using List.reverseRecOn with
  | nil => exact le_rfl
  | append_singleton l a ih =>
      rw [scanMax_append_singleton]
      split
      · next h => exact ih.trans h.le
      · exact ih

theorem le_scanMax_of_mem {a : α} (h : a ∈ l) : f a ≤ (scanMax f l start).1 := by
  induction l using List.reverseRecOn with
  | nil => cases h
  | append_singleton l b ih =>
      rw [scanMax_append_singleton]
      rcases List.mem_append.mp h with h | h
      · split
        · next hlt => exact (ih h).trans hlt.le
        · exact ih h
      · obtain rfl := List.mem_singleton.mp h
        split
        · exact le_rfl
        · next hlt => exact not_lt.mp hlt

/-- A value above the start is attained, at the first place where it can be. -/
theorem scanMax_attained (h : start < (scanMax f l start).1) :
    ∃ a, l[(scanMax f l start).2]? = some a ∧ f a = (scanMax f l start).1 ∧
      ∀ i b, i < (scanMax f l start).2 → l[i]? = some b → f b < (scanMax f l start).1 := by
  induction l using List.reverseRecOn with
  | nil => exact absurd h (lt_irrefl start)
  | append_singleton l a ih =>
      rw [scanMax_append_singleton] at h ⊢
      by_cases hlt : (scanMax f l start).1 < f a
      · rw [if_pos hlt]
        refine ⟨a, List.getElem?_concat_length, rfl, fun i b hi hb ↦ ?_⟩
        rw [List.getElem?_append_left hi] at hb
        exact (le_scanMax_of_mem (List.mem_of_getElem? hb)).trans_lt hlt
      · rw [if_neg hlt] at h ⊢
        obtain ⟨b, hb, hvalue, hfirst⟩ := ih h
        have hlen := (List.getElem?_eq_some_iff.mp hb).1
        refine ⟨b, ?_, hvalue, fun i c hi hc ↦ ?_⟩
        · rw [List.getElem?_append_left hlen, hb]
        · rw [List.getElem?_append_left (Nat.lt_trans hi hlen)] at hc
          exact hfirst i c hi hc

theorem scanMax_le_iff {b : β} :
    (scanMax f l start).1 ≤ b ↔ start ≤ b ∧ ∀ a ∈ l, f a ≤ b := by
  constructor
  · exact fun h ↦ ⟨le_scanMax.trans h, fun a ha ↦ (le_scanMax_of_mem ha).trans h⟩
  · rintro ⟨hstart, hl⟩
    rcases (le_scanMax (f := f) (l := l)).eq_or_lt with heq | hlt
    · rwa [← heq]
    · obtain ⟨a, ha, hvalue, -⟩ := scanMax_attained hlt
      exact hvalue ▸ hl a (List.mem_of_getElem? ha)

end CalxMill.Lib
