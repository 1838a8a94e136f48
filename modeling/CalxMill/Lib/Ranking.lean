import Mathlib.Data.List.Sort

/-!
# Rankings

A stable sort by a comparison puts the first of the best in front: the element
that a scan for the best finds when later ones have to be better to displace
it.  The comparison has to be total on the list alone.
-/

namespace CalxMill.Lib

variable {α : Type*} {r : α → α → Prop} {l : List α}

/-- At least as good as the whole list, and better than all in front of it. -/
def Leads (r : α → α → Prop) (l : List α) (e : α) : Prop :=
  ∃ pre post, l = pre ++ e :: post ∧ (∀ x ∈ pre, ¬ r x e) ∧ ∀ x ∈ post, r e x

/-- The comparison is total on the list. -/
def TotalOn (r : α → α → Prop) (l : List α) : Prop := ∀ x ∈ l, ∀ y ∈ l, r x y ∨ r y x

theorem TotalOn.tail {a : α} (h : TotalOn r (a :: l)) : TotalOn r l :=
  fun x hx y hy ↦ h x (List.mem_cons_of_mem a hx) y (List.mem_cons_of_mem a hy)

theorem Leads.mem {e : α} (h : Leads r l e) : e ∈ l := by
  obtain ⟨pre, post, rfl, -⟩ := h
  exact List.mem_append_right _ List.mem_cons_self

/-- One of two leaders would stand in front of the other. -/
theorem Leads.unique {e e' : α} (h : Leads r l e) (h' : Leads r l e') : e = e' := by
  obtain ⟨pre, post, rfl, hpre, hpost⟩ := h
  obtain ⟨pre', post', hsplit, hpre', hpost'⟩ := h'
  rcases List.append_eq_append_iff.mp hsplit with ⟨mid, hmid, htail⟩ | ⟨mid, hmid, htail⟩
  · cases mid with
    | nil => exact (List.cons.inj htail).1
    | cons x mid =>
        obtain ⟨rfl, hrest⟩ := List.cons.inj htail
        have he : e ∈ pre' := hmid ▸ List.mem_append_right _ List.mem_cons_self
        have he' : e' ∈ post := hrest ▸ List.mem_append_right _ List.mem_cons_self
        exact absurd (hpost e' he') (hpre' e he)
  · cases mid with
    | nil => exact (List.cons.inj htail).1.symm
    | cons x mid =>
        obtain ⟨rfl, hrest⟩ := List.cons.inj htail
        have he' : e' ∈ pre := hmid ▸ List.mem_append_right _ List.mem_cons_self
        have he : e ∈ post' := hrest ▸ List.mem_append_right _ List.mem_cons_self
        exact absurd (hpost' e he) (hpre e' he')

variable [DecidableRel r]

theorem leads_head?_insertionSort (htrans : ∀ a b c, r a b → r b c → r a c)
    (htotal : TotalOn r l) {e : α} (h : (l.insertionSort r).head? = some e) : Leads r l e := by
  induction l generalizing e with
  | nil => cases h
  | cons a l ih =>
      rw [List.insertionSort_cons] at h
      cases hsort : l.insertionSort r with
      | nil =>
          have hl : l = [] := List.length_eq_zero_iff.mp (by
            rw [← List.length_insertionSort r l, hsort, List.length_nil])
          rw [hsort, List.orderedInsert_nil] at h
          obtain rfl := Option.some.inj h
          exact ⟨[], l, rfl, List.forall_mem_nil _, hl ▸ List.forall_mem_nil _⟩
      | cons b bs =>
          have hlead := ih htotal.tail (e := b) (by rw [hsort, List.head?_cons])
          rw [hsort, List.orderedInsert] at h
          split at h
          · next hab =>
              -- the new element is no worse than the leader of the rest
              obtain rfl := Option.some.inj h
              refine ⟨[], l, rfl, List.forall_mem_nil _, fun x hx ↦ ?_⟩
              obtain ⟨pre, post, rfl, hpre, hpost⟩ := hlead
              rcases List.mem_append.mp hx with hx' | hx'
              · have hb : b ∈ a :: (pre ++ b :: post) := by simp
                have hxb := (htotal x (List.mem_cons_of_mem a hx) b hb).resolve_left (hpre x hx')
                exact htrans a b x hab hxb
              · rcases List.mem_cons.mp hx' with rfl | hx'
                · exact hab
                · exact htrans a b x hab (hpost x hx')
          · next hab =>
              obtain rfl := Option.some.inj h
              obtain ⟨pre, post, rfl, hpre, hpost⟩ := hlead
              exact ⟨a :: pre, post, rfl, List.forall_mem_cons.mpr ⟨hab, hpre⟩, hpost⟩

theorem pairwise_orderedInsert (htrans : ∀ a b c, r a b → r b c → r a c) {a : α}
    (htotal : ∀ x ∈ l, r a x ∨ r x a) (h : l.Pairwise r) : (l.orderedInsert r a).Pairwise r := by
  induction l with
  | nil => exact List.pairwise_singleton r a
  | cons b l ih =>
      obtain ⟨hb, hl⟩ := List.pairwise_cons.mp h
      rw [List.orderedInsert]
      split
      · next hab =>
          refine List.pairwise_cons.mpr ⟨List.forall_mem_cons.mpr ⟨hab, fun x hx ↦ ?_⟩, h⟩
          exact htrans a b x hab (hb x hx)
      · next hab =>
          obtain ⟨hab', htotal⟩ := List.forall_mem_cons.mp htotal
          refine List.pairwise_cons.mpr ⟨fun x hx ↦ ?_, ih htotal hl⟩
          rcases List.mem_cons.mp ((List.perm_orderedInsert r a l).mem_iff.mp hx) with rfl | hx
          · exact hab'.resolve_left hab
          · exact hb x hx

/-- A list that the comparison is total on is sorted by it. -/
theorem pairwise_insertionSort (htrans : ∀ a b c, r a b → r b c → r a c) (htotal : TotalOn r l) :
    (l.insertionSort r).Pairwise r := by
  induction l with
  | nil => exact List.Pairwise.nil
  | cons a l ih =>
      rw [List.insertionSort_cons]
      refine pairwise_orderedInsert htrans (fun x hx ↦ ?_) (ih htotal.tail)
      have hx' := List.mem_cons_of_mem a ((List.mem_insertionSort r).mp hx)
      exact htotal a List.mem_cons_self x hx'

/-! ## The best of a list -/

/-- `top` are the best `k` of the list, in their order. -/
structure Best (r : α → α → Prop) (k : ℕ) (l top : List α) : Prop where
  length : top.length = min k l.length
  sorted : top.Pairwise r
  rest : ∃ rest, (top ++ rest).Perm l ∧ ∀ x ∈ top, ∀ y ∈ rest, r x y

theorem best_take [Std.Total r] [IsTrans α r] (k : ℕ) (l : List α) :
    Best r k l ((l.insertionSort r).take k) := by
  have hsorted := List.pairwise_insertionSort r l
  rw [← List.take_append_drop k (l.insertionSort r), List.pairwise_append] at hsorted
  obtain ⟨htop, -, hrest⟩ := hsorted
  refine ⟨?_, htop, (l.insertionSort r).drop k, ?_, hrest⟩
  · rw [List.length_take, List.length_insertionSort]
  · rw [List.take_append_drop]
    exact List.perm_insertionSort r l

/-- The sort keeps the order of the elements that it cannot tell apart. -/
theorem filter_insertionSort [Std.Total r] [IsTrans α r] {p : α → Bool}
    (h : ∀ x ∈ l, ∀ y ∈ l, p x → p y → r x y) : (l.insertionSort r).filter p = l.filter p := by
  have hties : (l.filter p).Pairwise r := by
    apply List.pairwise_of_forall_mem_list
    intro x hx y hy
    obtain ⟨hx, hpx⟩ := List.mem_filter.mp hx
    obtain ⟨hy, hpy⟩ := List.mem_filter.mp hy
    exact h x hx y hy hpx hpy
  have hsub := (List.sublist_insertionSort hties List.filter_sublist).filter p
  simp only [List.filter_filter, Bool.and_self] at hsub
  have hlen := ((List.perm_insertionSort r l).filter p).length_eq
  exact (hsub.eq_of_length hlen.symm).symm

end CalxMill.Lib
