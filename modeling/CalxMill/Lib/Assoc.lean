import Mathlib.Data.List.Induction
import Mathlib.Data.List.Nodup
import Mathlib.Data.List.Perm.Subperm
import Mathlib.Data.List.Sort

/-!
# Association lists

A list of keyed entries read by first match.  An entry is either the first one
of its key or a repeat, and two lists hold the same assignment when they have
the same keys and related values.
-/

namespace CalxMill.Lib.Assoc

variable {α β γ : Type*}

def keys (l : List (α × β)) : List α := l.map Prod.fst

@[simp] theorem mem_keys {l : List (α × β)} {k : α} : k ∈ keys l ↔ ∃ e ∈ l, e.1 = k := by
  simp [keys]

theorem keys_append (l l' : List (α × β)) : keys (l ++ l') = keys l ++ keys l' :=
  List.map_append

theorem mem_keys_of_mem {l : List (α × β)} {e : α × β} (h : e ∈ l) : e.1 ∈ keys l :=
  List.mem_map_of_mem h

theorem eq_of_nodup {l : List (α × β)} (h : (keys l).Nodup) {e e' : α × β} (he : e ∈ l)
    (he' : e' ∈ l) (hkey : e.1 = e'.1) : e = e' :=
  List.inj_on_of_nodup_map h he he' hkey

/-- An entry with an earlier entry of the same key in front of it. -/
def Repeats (l : List (α × β)) (e : α × β) : Prop :=
  ∃ pre post, l = pre ++ e :: post ∧ e.1 ∈ keys pre

theorem Repeats.mem {l : List (α × β)} {e : α × β} (h : Repeats l e) : e ∈ l := by
  obtain ⟨pre, post, rfl, -⟩ := h
  exact List.mem_append_right _ List.mem_cons_self

theorem Repeats.not_nodup {l : List (α × β)} {e : α × β} (h : Repeats l e) :
    ¬ (keys l).Nodup := by
  obtain ⟨pre, post, rfl, hkey⟩ := h
  intro hnodup
  rw [keys, List.map_append, List.map_cons, List.nodup_append] at hnodup
  exact hnodup.2.2 e.1 hkey e.1 List.mem_cons_self rfl

/-- Same keys, and related values wherever the keys agree. -/
structure SameAssignment (r : β → γ → Prop) (l : List (α × β)) (l' : List (α × γ)) : Prop where
  left : ∀ e ∈ l, ∃ e' ∈ l', e'.1 = e.1
  right : ∀ e' ∈ l', ∃ e ∈ l, e.1 = e'.1
  values : ∀ e ∈ l, ∀ e' ∈ l', e.1 = e'.1 → r e.2 e'.2

theorem SameAssignment.length_eq {r : β → γ → Prop} {l : List (α × β)} {l' : List (α × γ)}
    (h : SameAssignment r l l') (hl : (keys l).Nodup) (hl' : (keys l').Nodup) :
    l.length = l'.length := by
  have hsub : keys l ⊆ keys l' := by
    intro k hk
    obtain ⟨e, he, rfl⟩ := mem_keys.mp hk
    exact mem_keys.mpr (h.left e he)
  have hsub' : keys l' ⊆ keys l := by
    intro k hk
    obtain ⟨e, he, rfl⟩ := mem_keys.mp hk
    exact mem_keys.mpr (h.right e he)
  have hperm := (List.perm_ext_iff_of_nodup hl hl').mpr fun k ↦ ⟨@hsub k, @hsub' k⟩
  simpa [keys] using hperm.length_eq

/-- For distinct keys a length comparison and one inclusion decide the
assignment. -/
theorem sameAssignment_of_length_eq {r : β → γ → Prop} {l : List (α × β)} {l' : List (α × γ)}
    (hl : (keys l).Nodup) (hlen : l.length = l'.length)
    (hsub : ∀ e ∈ l, ∃ e' ∈ l', e'.1 = e.1 ∧ r e.2 e'.2) : SameAssignment r l l' := by
  have hkeys : keys l ⊆ keys l' := by
    intro k hk
    obtain ⟨e, he, rfl⟩ := mem_keys.mp hk
    obtain ⟨e', he', hkey, -⟩ := hsub e he
    exact mem_keys.mpr ⟨e', he', hkey⟩
  have hperm : (keys l).Perm (keys l') := by
    apply (List.subperm_of_subset hl hkeys).perm_of_length_le
    simp [keys, hlen]
  have hl' : (keys l').Nodup := hperm.nodup_iff.mp hl
  refine ⟨fun e he ↦ ?_, fun e' he' ↦ ?_, fun e he e' he' hkey ↦ ?_⟩
  · obtain ⟨e', he', hkey, -⟩ := hsub e he
    exact ⟨e', he', hkey⟩
  · exact mem_keys.mp (hperm.mem_iff.mpr (mem_keys_of_mem he'))
  · obtain ⟨e'', he'', hkey', hr⟩ := hsub e he
    obtain rfl := eq_of_nodup hl' he'' he' (hkey'.trans hkey)
    exact hr

/-- The entry of a key, found by a search and changed in place. -/
theorem modify_findIdx? [DecidableEq α] {ks : List α} (hks : ks.Nodup) {a : α} (ha : a ∈ ks)
    (g : α → β) (f : β → β) :
    ∃ i, (ks.map fun k ↦ (k, g k)).findIdx? (·.1 = a) = some i ∧
      (ks.map fun k ↦ (k, g k)).modify i (fun e ↦ (e.1, f e.2)) =
        ks.map fun k ↦ (k, if k = a then f (g k) else g k) := by
  induction ks with
  | nil => cases ha
  | cons k ks ih =>
      obtain ⟨hk, hks⟩ := List.nodup_cons.mp hks
      by_cases hka : k = a
      · refine ⟨0, by simp [List.findIdx?_cons, hka], ?_⟩
        have hrest : ∀ k' ∈ ks, k' ≠ a := fun k' hk' heq ↦ hk (hka ▸ heq ▸ hk')
        simp only [List.map_cons, List.modify_zero_cons, if_pos hka]
        refine congrArg _ (List.map_congr_left fun k' hk' ↦ ?_)
        rw [if_neg (hrest k' hk')]
      · obtain ⟨i, hfind, hmodify⟩ := ih hks (List.mem_of_ne_of_mem (Ne.symm hka) ha)
        refine ⟨i + 1, by simp [List.findIdx?_cons, hka, hfind], ?_⟩
        rw [List.map_cons, List.modify_succ_cons, hmodify, List.map_cons, if_neg hka]

/-! ## First matches -/

theorem lookup_map [BEq α] (g : β → γ) (k : α) (l : List (α × β)) :
    (l.map fun e ↦ (e.1, g e.2)).lookup k = (l.lookup k).map g := by
  induction l with
  | nil => rfl
  | cons e l ih =>
      rw [List.map_cons, List.lookup_cons, List.lookup_cons, ih]
      split <;> rfl

/-- Among distinct keys an entry is the first match of its key. -/
theorem lookup_of_mem [BEq α] [LawfulBEq α] {l : List (α × β)} (h : (keys l).Nodup) {e : α × β}
    (he : e ∈ l) : l.lookup e.1 = some e.2 := by
  obtain ⟨pre, post, rfl⟩ := List.append_of_mem he
  rw [List.lookup_eq_some_iff]
  refine ⟨pre, post, rfl, fun e' he' ↦ ?_⟩
  rw [keys, List.map_append, List.map_cons, List.nodup_append] at h
  have hne := h.2.2 e'.1 (List.mem_map_of_mem he') e.1 List.mem_cons_self
  simpa using hne.symm

theorem lookup_isSome [BEq α] [LawfulBEq α] {l : List (α × β)} {k : α} :
    (l.lookup k).isSome = true ↔ k ∈ keys l := by
  rw [List.lookup_isSome_iff, mem_keys]
  exact exists_congr fun e ↦ and_congr_right fun _ ↦ beq_iff_eq.trans eq_comm

/-- The order of distinct keys does not matter. -/
theorem lookup_perm [BEq α] [LawfulBEq α] {l l' : List (α × β)} (h : l.Perm l')
    (hl : (keys l).Nodup) (k : α) : l.lookup k = l'.lookup k := by
  have hkeys : (keys l).Perm (keys l') := h.map Prod.fst
  by_cases hk : k ∈ keys l
  · obtain ⟨e, he, rfl⟩ := mem_keys.mp hk
    rw [lookup_of_mem hl he, lookup_of_mem (hkeys.nodup_iff.mp hl) (h.mem_iff.mp he)]
  · have hk' : k ∉ keys l' := fun hmem ↦ hk (hkeys.mem_iff.mpr hmem)
    rw [← lookup_isSome, Option.not_isSome_iff_eq_none] at hk hk'
    rw [hk, hk']

theorem lookup_filter [BEq α] [LawfulBEq α] {p : α × β → Bool} {k : α} (h : ∀ b, p (k, b) = true)
    (l : List (α × β)) : (l.filter p).lookup k = l.lookup k := by
  induction l with
  | nil => rfl
  | cons e l ih =>
      obtain ⟨k', b⟩ := e
      by_cases hkey : k = k'
      · subst hkey
        rw [List.filter_cons_of_pos (h b), List.lookup_cons_self, List.lookup_cons_self]
      · have hne : (k == k') = false := by simpa using hkey
        rw [List.lookup_cons, hne, List.filter_cons]
        split
        · rw [List.lookup_cons, hne, ih]
        · exact ih

variable [DecidableEq α]

theorem find?_key_eq_some {l : List (α × β)} {k : α} {e : α × β}
    (h : l.find? (·.1 = k) = some e) : e ∈ l ∧ e.1 = k :=
  ⟨List.mem_of_find?_eq_some h, by simpa using List.find?_some h⟩

theorem first_or_repeats {l : List (α × β)} {e : α × β} (h : e ∈ l) :
    l.find? (·.1 = e.1) = some e ∨ Repeats l e := by
  induction l with
  | nil => cases h
  | cons e' l ih =>
      by_cases hkey : e'.1 = e.1
      · rcases List.mem_cons.mp h with rfl | h
        · left
          simp
        · right
          obtain ⟨pre, post, rfl⟩ := List.append_of_mem h
          exact ⟨e' :: pre, post, rfl, by simp [keys, hkey]⟩
      · have hne : e ≠ e' := fun heq ↦ hkey (heq ▸ rfl)
        rcases ih ((List.mem_cons.mp h).resolve_left hne) with h | ⟨pre, post, rfl, hpre⟩
        · left
          simpa [hkey] using h
        · right
          refine ⟨e' :: pre, post, rfl, ?_⟩
          exact List.mem_cons_of_mem _ hpre

/-- Change the entry of `k`, or append one: the first match is updated. -/
def alter (f : Option β → β) (k : α) : List (α × β) → List (α × β)
  | [] => [(k, f none)]
  | e :: l => if e.1 = k then (e.1, f (some e.2)) :: l else e :: alter f k l

@[simp] theorem lookup_alter_self [BEq α] [LawfulBEq α] (f : Option β → β) (k : α)
    (l : List (α × β)) : (alter f k l).lookup k = some (f (l.lookup k)) := by
  induction l with
  | nil => simp [alter]
  | cons e l ih =>
      obtain ⟨k', b⟩ := e
      by_cases hkey : k' = k
      · subst hkey
        simp [alter]
      · have hne : (k == k') = false := by simpa using Ne.symm hkey
        simpa [alter, hkey, List.lookup_cons, hne] using ih

theorem lookup_alter_of_ne [BEq α] [LawfulBEq α] (f : Option β → β) {k k' : α} (h : k' ≠ k)
    (l : List (α × β)) : (alter f k l).lookup k' = l.lookup k' := by
  induction l with
  | nil =>
      have hne : (k' == k) = false := by simpa using h
      simp [alter, List.lookup_cons, hne]
  | cons e l ih =>
      by_cases hkey : e.1 = k
      · have hne : (k' == e.1) = false := by simpa [hkey] using h
        rw [alter, if_pos hkey, List.lookup_cons, List.lookup_cons, hne]
      · rw [alter, if_neg hkey, List.lookup_cons, List.lookup_cons, ih]

theorem alter_map {g : β → γ} {f : Option β → β} {f' : Option γ → γ}
    (h : ∀ b, f' (b.map g) = g (f b)) (k : α) (l : List (α × β)) :
    alter f' k (l.map fun e ↦ (e.1, g e.2)) = (alter f k l).map fun e ↦ (e.1, g e.2) := by
  induction l with
  | nil =>
      have hnone : f' none = g (f none) := h none
      simp [alter, hnone]
  | cons e l ih =>
      have hsome : f' (some (g e.2)) = g (f (some e.2)) := h (some e.2)
      rw [List.map_cons, alter, alter]
      split
      · rw [hsome, List.map_cons]
      · rw [ih, List.map_cons]

/-- The entry at the index of its key, changed in place. -/
theorem modify_eq_alter (f : β → β) (b : β) {k : α} {l : List (α × β)} {i : ℕ}
    (h : l.findIdx? (·.1 = k) = some i) :
    l.modify i (fun e ↦ (e.1, f e.2)) = alter (fun c ↦ f (c.getD b)) k l := by
  induction l generalizing i with
  | nil => cases h
  | cons e l ih =>
      rw [List.findIdx?_cons] at h
      by_cases hkey : e.1 = k
      · simp only [hkey, decide_true, if_true, Option.some.injEq] at h
        subst h
        rw [List.modify_zero_cons, alter, if_pos hkey]
        rfl
      · simp only [hkey, decide_false, Bool.false_eq_true, if_false] at h
        obtain ⟨j, hj, rfl⟩ := Option.map_eq_some_iff.mp h
        rw [List.modify_succ_cons, alter, if_neg hkey, ih hj]

/-- A new entry, changed behind the others. -/
theorem modify_append_eq_alter (f : β → β) (b : β) {k : α} {l : List (α × β)}
    (h : l.findIdx? (·.1 = k) = none) :
    (l ++ [(k, b)]).modify l.length (fun e ↦ (e.1, f e.2)) =
      alter (fun c ↦ f (c.getD b)) k l := by
  induction l with
  | nil => rfl
  | cons e l ih =>
      rw [List.findIdx?_eq_none_iff] at h
      have hkey : e.1 ≠ k := by simpa using h e List.mem_cons_self
      have hrest : l.findIdx? (·.1 = k) = none :=
        List.findIdx?_eq_none_iff.mpr fun x hx ↦ h x (List.mem_cons_of_mem _ hx)
      rw [List.cons_append, List.length_cons, List.modify_succ_cons, alter, if_neg hkey, ih hrest]

theorem keys_alter (f : Option β → β) (k : α) (l : List (α × β)) :
    keys (alter f k l) = if k ∈ keys l then keys l else keys l ++ [k] := by
  induction l with
  | nil => simp [alter, keys]
  | cons e l ih =>
      by_cases hkey : e.1 = k
      · simp [alter, keys, hkey]
      · have halter : keys (alter f k (e :: l)) = e.1 :: keys (alter f k l) := by
          rw [alter, if_neg hkey]
          rfl
        have hmem : k ∈ keys (e :: l) ↔ k ∈ keys l :=
          List.mem_cons.trans (or_iff_right (Ne.symm hkey))
        rw [halter, ih]
        by_cases hk : k ∈ keys l
        · rw [if_pos hk, if_pos (hmem.mpr hk)]
          rfl
        · rw [if_neg hk, if_neg (mt hmem.mp hk)]
          rfl

theorem nodup_keys_alter (f : Option β → β) (k : α) {l : List (α × β)} (h : (keys l).Nodup) :
    (keys (alter f k l)).Nodup := by
  rw [keys_alter]
  split
  next => exact h
  next hk => exact List.nodup_append.mpr ⟨h, by simp, by rintro a ha b hb rfl; simp_all⟩

theorem nodup_keys_foldl_alter (f : γ → Option β → β) (key : γ → α) (l' : List γ)
    {l : List (α × β)} (h : (keys l).Nodup) :
    (keys (l'.foldl (fun out c ↦ alter (f c) (key c) out) l)).Nodup := by
  induction l' generalizing l with
  | nil => exact h
  | cons c l' ih => exact ih (nodup_keys_alter (f c) (key c) h)

theorem mem_keys_foldl_alter (f : γ → Option β → β) (key : γ → α) (l' : List γ)
    {l : List (α × β)} {k : α} :
    k ∈ keys (l'.foldl (fun out c ↦ alter (f c) (key c) out) l) ↔ k ∈ keys l ∨ k ∈ l'.map key := by
  induction l' generalizing l with
  | nil => simp
  | cons c l' ih =>
      have halter : k ∈ keys (alter (f c) (key c) l) ↔ k ∈ keys l ∨ k = key c := by
        rw [keys_alter]
        split
        next hmem => exact ⟨Or.inl, fun h ↦ h.elim id fun heq ↦ heq ▸ hmem⟩
        next => rw [List.mem_append, List.mem_singleton]
      rw [List.foldl_cons, ih, halter, or_assoc, List.map_cons, List.mem_cons]

theorem mem_alter {f : Option β → β} {k : α} {l : List (α × β)} {e : α × β}
    (h : e ∈ alter f k l) :
    e ∈ l ∨ (e.1 = k ∧ (e.2 = f none ∨ ∃ b, (k, b) ∈ l ∧ e.2 = f (some b))) := by
  induction l with
  | nil =>
      obtain rfl := List.mem_singleton.mp h
      exact Or.inr ⟨rfl, Or.inl rfl⟩
  | cons e' l ih =>
      rw [alter] at h
      split at h
      next hkey =>
        rcases List.mem_cons.mp h with rfl | h
        · refine Or.inr ⟨hkey, Or.inr ⟨e'.2, ?_, rfl⟩⟩
          exact hkey ▸ List.mem_cons_self
        · exact Or.inl (List.mem_cons_of_mem _ h)
      next =>
        rcases List.mem_cons.mp h with rfl | h
        · exact Or.inl List.mem_cons_self
        · rcases ih h with h | ⟨hkey, h | ⟨b, hb, h⟩⟩
          · exact Or.inl (List.mem_cons_of_mem _ h)
          · exact Or.inr ⟨hkey, Or.inl h⟩
          · exact Or.inr ⟨hkey, Or.inr ⟨b, List.mem_cons_of_mem _ hb, h⟩⟩

/-- The elements by key, keys and elements in the order of their first
appearance. -/
def groupOn (key : β → α) (l : List β) : List (α × List β) :=
  l.foldl (fun groups b ↦ alter (fun group ↦ group.getD [] ++ [b]) (key b) groups) []

theorem nodup_keys_groupOn (key : β → α) (l : List β) : (keys (groupOn key l)).Nodup :=
  nodup_keys_foldl_alter _ key l (by simp [keys])

/-- The group of a key is what the list holds of it. -/
theorem lookup_groupOn [BEq α] [LawfulBEq α] (key : β → α) (l : List β) (k : α) :
    (groupOn key l).lookup k =
    if (l.filter fun b ↦ key b = k) = [] then none else some (l.filter fun b ↦ key b = k) := by
  induction l using List.reverseRecOn with
  | nil => rfl
  | append_singleton l b ih =>
      have hgroup : groupOn key (l ++ [b]) =
          alter (fun group ↦ group.getD [] ++ [b]) (key b) (groupOn key l) := by
        rw [groupOn, List.foldl_append]
        rfl
      rw [hgroup, List.filter_append]
      by_cases hkey : key b = k
      · subst hkey
        rw [lookup_alter_self, ih]
        split
        next hnil => simp [hnil]
        next => simp
      · have hb : [b].filter (fun b ↦ key b = k) = [] := by simp [hkey]
        rw [lookup_alter_of_ne _ (Ne.symm hkey), ih, hb, List.append_nil]

/-- Grouping the images of the elements maps the groups. -/
theorem foldl_alter_eq_groupOn (key : β → α) (f : β → γ) (l : List β) :
    l.foldl (fun groups b ↦ alter (fun group ↦ group.getD [] ++ [f b]) (key b) groups) [] =
      (groupOn key l).map fun e ↦ (e.1, e.2.map f) := by
  let image (groups : List (α × List β)) := groups.map fun e ↦ (e.1, e.2.map f)
  have hstep : ∀ (groups : List (α × List β)) (b : β),
      alter (fun group ↦ group.getD [] ++ [f b]) (key b) (image groups) =
        image (alter (fun group ↦ group.getD [] ++ [b]) (key b) groups) := by
    intro groups b
    refine alter_map (fun group ↦ ?_) (key b) groups
    cases group with
    | none => rfl
    | some group => simp
  have hnil : ([] : List (α × List γ)) = image [] := rfl
  rw [groupOn, hnil]
  exact List.foldl_hom image hstep

theorem eq_filter_of_mem_groupOn {key : β → α} {l : List β} {e : α × List β}
    (h : e ∈ groupOn key l) : e.2 ≠ [] ∧ e.2 = l.filter fun b ↦ key b = e.1 := by
  have hlookup := lookup_of_mem (nodup_keys_groupOn key l) h
  rw [lookup_groupOn] at hlookup
  split at hlookup
  next => cases hlookup
  next hne =>
    obtain heq := Option.some.inj hlookup
    exact ⟨heq ▸ hne, heq.symm⟩

/-- A group is not empty and holds elements of its key. -/
theorem mem_groupOn {key : β → α} {l : List β} {e : α × List β} (h : e ∈ groupOn key l) :
    e.2 ≠ [] ∧ ∀ b ∈ e.2, b ∈ l ∧ key b = e.1 := by
  obtain ⟨hne, heq⟩ := eq_filter_of_mem_groupOn h
  refine ⟨hne, fun b hb ↦ ?_⟩
  rw [heq, List.mem_filter, decide_eq_true_eq] at hb
  exact hb

/-- Every element is in the group of its key. -/
theorem exists_mem_groupOn (key : β → α) {l : List β} {b : β} (h : b ∈ l) :
    ∃ e ∈ groupOn key l, e.1 = key b := by
  have hkey : key b ∈ keys (groupOn key l) :=
    (mem_keys_foldl_alter _ key l).mpr (Or.inr (List.mem_map_of_mem h))
  exact mem_keys.mp hkey

/-- Entries of distinct keys are sorted to one list. -/
theorem insertionSort_perm {α : Type*} [LinearOrder α] {l l' : List (α × β)} (h : l'.Perm l)
    (hl : (keys l).Nodup) : l'.insertionSort (fun a b ↦ a.1 ≤ b.1) =
      l.insertionSort fun a b ↦ a.1 ≤ b.1 := by
  let r : α × β → α × β → Prop := fun a b ↦ a.1 ≤ b.1
  have htotal : Std.Total r := ⟨fun a b ↦ le_total a.1 b.1⟩
  have htrans : IsTrans (α × β) r := ⟨fun _ _ _ ↦ le_trans⟩
  have hsorted : ∀ l, (List.insertionSort r l).Pairwise r := List.pairwise_insertionSort r
  refine List.Perm.eq_of_pairwise (fun a b ha hb hab hba ↦ ?_) (hsorted l') (hsorted l)
    ((List.perm_insertionSort r l').trans (h.trans (List.perm_insertionSort r l).symm))
  rw [List.mem_insertionSort] at ha hb
  exact eq_of_nodup hl (h.mem_iff.mp ha) hb (le_antisymm hab hba)

end CalxMill.Lib.Assoc
