import CalxMill.Lib.Assoc
import Mathlib.Data.List.Perm.Lattice

/-!
# Partitions of a list by key

Keyed groups partition a list when their keys are distinct, each group holds
what the list holds of its key, and every element has its group.  Grouping a
list partitions it, and partitions are composed: the groups may be reordered,
renamed, chosen by key, put together from two halves and partitioned again.
-/

namespace CalxMill.Lib.Assoc

variable {α α' β : Type*} [DecidableEq α] [DecidableEq α']

structure Partitions (key : β → α) (l : List β) (groups : List (α × List β)) : Prop where
  nodup : (keys groups).Nodup
  ne_nil : ∀ e ∈ groups, e.2 ≠ []
  eq_filter : ∀ e ∈ groups, e.2 = l.filter fun b ↦ key b = e.1
  covers : ∀ b ∈ l, key b ∈ keys groups

theorem partitions_groupOn (key : β → α) (l : List β) : Partitions key l (groupOn key l) where
  nodup := nodup_keys_groupOn key l
  ne_nil _ he := (eq_filter_of_mem_groupOn he).1
  eq_filter _ he := (eq_filter_of_mem_groupOn he).2
  covers _ hb := mem_keys.mpr (exists_mem_groupOn key hb)

namespace Partitions

variable {key key' : β → α} {l : List β} {groups groups' : List (α × List β)} {e : α × List β}

theorem mem_iff (h : Partitions key l groups) (he : e ∈ groups) {b : β} :
    b ∈ e.2 ↔ b ∈ l ∧ key b = e.1 := by
  rw [h.eq_filter e he, List.mem_filter, decide_eq_true_eq]

theorem exists_mem (h : Partitions key l groups) {b : β} (hb : b ∈ l) :
    ∃ e ∈ groups, e.1 = key b ∧ b ∈ e.2 := by
  obtain ⟨e, he, hkey⟩ := mem_keys.mp (h.covers b hb)
  exact ⟨e, he, hkey, (h.mem_iff he).mpr ⟨hb, hkey.symm⟩⟩

theorem exists_key (h : Partitions key l groups) {k : α} (hk : k ∈ keys groups) :
    ∃ b ∈ l, key b = k := by
  obtain ⟨e, he, rfl⟩ := mem_keys.mp hk
  obtain ⟨b, hb⟩ := List.exists_mem_of_ne_nil _ (h.ne_nil e he)
  exact ⟨b, (h.mem_iff he).mp hb⟩

theorem congr (h : Partitions key l groups) (hkey : ∀ b ∈ l, key' b = key b) :
    Partitions key' l groups where
  nodup := h.nodup
  ne_nil := h.ne_nil
  eq_filter e he := by
    rw [h.eq_filter e he]
    exact List.filter_congr fun b hb ↦ by rw [hkey b hb]
  covers b hb := hkey b hb ▸ h.covers b hb

theorem perm (h : Partitions key l groups) (hperm : groups'.Perm groups) :
    Partitions key l groups' where
  nodup := (hperm.map Prod.fst).nodup_iff.mpr h.nodup
  ne_nil e he := h.ne_nil e (hperm.mem_iff.mp he)
  eq_filter e he := h.eq_filter e (hperm.mem_iff.mp he)
  covers b hb := (hperm.map Prod.fst).mem_iff.mpr (h.covers b hb)

/-- The groups under other names. -/
theorem map (h : Partitions key l groups) {f : α → α'} (hf : Function.Injective f) :
    Partitions (fun b ↦ f (key b)) l (groups.map fun e ↦ (f e.1, e.2)) where
  nodup := by
    have hkeys : keys (groups.map fun e ↦ (f e.1, e.2)) = (keys groups).map f := by simp [keys]
    rw [hkeys]
    exact h.nodup.map hf
  ne_nil := List.forall_mem_map.mpr h.ne_nil
  eq_filter := by
    refine List.forall_mem_map.mpr fun e he ↦ ?_
    simpa [hf.eq_iff] using h.eq_filter e he
  covers b hb := by
    obtain ⟨e, he, hkey⟩ := mem_keys.mp (h.covers b hb)
    exact mem_keys.mpr ⟨_, List.mem_map_of_mem he, congrArg f hkey⟩

/-- The groups of some keys. -/
theorem filter (h : Partitions key l groups) (p : α → Bool) :
    Partitions key (l.filter fun b ↦ p (key b)) (groups.filter fun e ↦ p e.1) where
  nodup := h.nodup.sublist (List.filter_sublist.map Prod.fst)
  ne_nil e he := h.ne_nil e (List.mem_of_mem_filter he)
  eq_filter e he := by
    obtain ⟨he, hp⟩ := List.mem_filter.mp he
    rw [h.eq_filter e he, List.filter_filter]
    apply List.filter_congr
    intro b _
    by_cases hkey : key b = e.1
    · simp [hkey, hp]
    · simp [hkey]
  covers b hb := by
    obtain ⟨hb, hp⟩ := List.mem_filter.mp hb
    obtain ⟨e, he, hkey⟩ := mem_keys.mp (h.covers b hb)
    exact mem_keys.mpr ⟨e, List.mem_filter.mpr ⟨he, hkey ▸ hp⟩, hkey⟩

/-- A half that shares no key with the rest has the whole groups of its keys. -/
theorem eq_filter_of_half {p : β → Bool} (h : Partitions key (l.filter p) groups) (he : e ∈ groups)
    (hdisjoint : ∀ b ∈ l, ∀ b' ∈ l, p b = true → p b' = false → key b ≠ key b') :
    e.2 = l.filter fun b ↦ key b = e.1 := by
  obtain ⟨b₀, hb₀, hkey₀⟩ := h.exists_key (mem_keys_of_mem he)
  obtain ⟨hb₀, hp₀⟩ := List.mem_filter.mp hb₀
  rw [h.eq_filter e he, List.filter_filter]
  apply List.filter_congr
  intro b hb
  by_cases hkey : key b = e.1
  · cases hp : p b with
    | true => simp
    | false => exact absurd (hkey₀.trans hkey.symm) (hdisjoint b₀ hb₀ b hb hp₀ hp)
  · simp [hkey]

/-- Two halves without a common key. -/
theorem append {p : β → Bool} (h : Partitions key (l.filter p) groups)
    (h' : Partitions key (l.filter fun b ↦ !p b) groups')
    (hdisjoint : ∀ b ∈ l, ∀ b' ∈ l, p b = true → p b' = false → key b ≠ key b') :
    Partitions key l (groups ++ groups') := by
  have hdisjoint' : ∀ b ∈ l, ∀ b' ∈ l, (!p b) = true → (!p b') = false → key b ≠ key b' := by
    intro b hb b' hb' hp hp'
    exact (hdisjoint b' hb' b hb (by simpa using hp') (by simpa using hp)).symm
  refine ⟨?_, List.forall_mem_append.mpr ⟨h.ne_nil, h'.ne_nil⟩, ?_, fun b hb ↦ ?_⟩
  · rw [keys_append]
    refine List.nodup_append.mpr ⟨h.nodup, h'.nodup, ?_⟩
    intro k hk k' hk' hkk'
    obtain ⟨b, hb, rfl⟩ := h.exists_key hk
    obtain ⟨b', hb', rfl⟩ := h'.exists_key hk'
    rw [List.mem_filter] at hb hb'
    exact hdisjoint b hb.1 b' hb'.1 hb.2 (by simpa using hb'.2) hkk'
  · refine List.forall_mem_append.mpr ⟨fun e he ↦ ?_, fun e he ↦ ?_⟩
    · exact h.eq_filter_of_half he hdisjoint
    · exact h'.eq_filter_of_half he hdisjoint'
  · rw [keys_append, List.mem_append]
    cases hp : p b with
    | true => exact Or.inl (h.covers b (List.mem_filter.mpr ⟨hb, hp⟩))
    | false => exact Or.inr (h'.covers b (List.mem_filter.mpr ⟨hb, by simp [hp]⟩))

/-- Every group partitioned once more. -/
theorem nested {key' : β → α'} {inner : α × List β → List (α' × List β)}
    (h : Partitions key l groups) (hinner : ∀ e ∈ groups, Partitions key' e.2 (inner e)) :
    Partitions (fun b ↦ (key b, key' b)) l
      (groups.flatMap fun e ↦ (inner e).map fun x ↦ ((e.1, x.1), x.2)) := by
  refine ⟨?_, fun e he ↦ ?_, fun e he ↦ ?_, fun b hb ↦ ?_⟩
  · rw [keys, List.map_flatMap, List.nodup_flatMap]
    constructor
    · intro e he
      have hkeys : ((inner e).map fun x ↦ ((e.1, x.1), x.2)).map Prod.fst =
          (keys (inner e)).map (Prod.mk e.1) := by
        simp [keys]
      rw [hkeys]
      exact (hinner e he).nodup.map fun _ _ hk ↦ (Prod.mk.inj hk).2
    · refine (List.pairwise_map.mp h.nodup).imp fun hne k hk hk' ↦ hne ?_
      simp only [List.map_map, List.mem_map, Function.comp_apply] at hk hk'
      obtain ⟨x, -, rfl⟩ := hk
      obtain ⟨x', -, hk'⟩ := hk'
      exact (Prod.mk.inj hk').1.symm
  · obtain ⟨e', he', he⟩ := List.mem_flatMap.mp he
    obtain ⟨x, hx, rfl⟩ := List.mem_map.mp he
    exact (hinner e' he').ne_nil x hx
  · obtain ⟨e', he', he⟩ := List.mem_flatMap.mp he
    obtain ⟨x, hx, rfl⟩ := List.mem_map.mp he
    rw [(hinner e' he').eq_filter x hx, h.eq_filter e' he', List.filter_filter]
    apply List.filter_congr
    intro b _
    rw [← Bool.decide_and]
    simp [Prod.ext_iff, and_comm]
  · obtain ⟨e, he, hkey, hmem⟩ := h.exists_mem hb
    obtain ⟨x, hx, hkey', -⟩ := (hinner e he).exists_mem hmem
    exact mem_keys.mpr ⟨_, List.mem_flatMap.mpr ⟨e, he, List.mem_map_of_mem hx⟩,
      Prod.ext hkey hkey'⟩

/-- Every element is counted once. -/
theorem flatMap_perm (h : Partitions key l groups) : (groups.flatMap Prod.snd).Perm l := by
  induction groups generalizing l with
  | nil =>
      have hnil : l = [] := List.eq_nil_iff_forall_not_mem.mpr fun b hb ↦ by
        simpa [keys] using h.covers b hb
      rw [hnil, List.flatMap_nil]
  | cons e groups ih =>
      have hnodup : e.1 ∉ keys groups ∧ (keys groups).Nodup := List.nodup_cons.mp h.nodup
      have hrest : Partitions key (l.filter fun b ↦ !decide (key b = e.1)) groups := by
        refine ⟨hnodup.2, fun e' he' ↦ h.ne_nil e' (List.mem_cons_of_mem _ he'), ?_, ?_⟩
        · intro e' he'
          have hne : e'.1 ≠ e.1 := fun hkey ↦ hnodup.1 (hkey ▸ mem_keys_of_mem he')
          rw [h.eq_filter e' (List.mem_cons_of_mem _ he'), List.filter_filter]
          apply List.filter_congr
          intro b _
          by_cases hkey : key b = e'.1
          · simp [hkey, hne]
          · simp [hkey]
        · intro b hb
          obtain ⟨hb, hkey⟩ := List.mem_filter.mp hb
          exact (List.mem_cons.mp (h.covers b hb)).resolve_left (by simpa using hkey)
      rw [List.flatMap_cons, h.eq_filter e List.mem_cons_self]
      exact ((ih hrest).append_left _).trans (List.filter_append_perm _ l)

end Partitions

end CalxMill.Lib.Assoc
