import Mathlib.Computability.Language
import Mathlib.Data.List.Infix

/-!
# Searching a text

A text is searched tail by tail, so that the first result is at the leftmost
place that has one.  A text starts with a language when one of its prefixes belongs to it, and
contains the language when one of its substrings does.  A product is searched
factor by factor, and the star of a class of letters is a run of letters of
the class.
-/

namespace CalxMill.Lib

variable {α : Type*}

/-! ## The leftmost place -/

section Leftmost

variable {β : Type*} {f : List α → Option β} {text : List α}

theorem findSome?_tails_eq_some_iff {b : β} : text.tails.findSome? f = some b ↔
    ∃ before s, text = before ++ s ∧ f s = some b ∧
      ∀ before' s', text = before' ++ s' → before'.length < before.length → f s' = none := by
  induction text with
  | nil =>
      have hnil : ([] : List α).tails.findSome? f = f [] := List.findSome?_singleton
      rw [hnil]
      constructor
      · intro h
        exact ⟨[], [], rfl, h, fun _ _ _ hlt ↦ absurd hlt (Nat.not_lt_zero _)⟩
      · rintro ⟨before, s, heq, hs, -⟩
        obtain ⟨-, rfl⟩ := List.nil_eq_append_iff.mp heq
        exact hs
  | cons a text ih =>
      rw [List.tails_cons, List.findSome?_cons]
      cases hhere : f (a :: text) with
      | some b' =>
          constructor
          · rintro ⟨⟩
            exact ⟨[], a :: text, rfl, hhere, fun _ _ _ hlt ↦ absurd hlt (Nat.not_lt_zero _)⟩
          · rintro ⟨before, s, heq, hs, hfirst⟩
            cases before with
            | nil => rw [← hs, ← List.nil_append s, ← heq, hhere]
            | cons a' before =>
                have hnone := hfirst [] (a :: text) rfl (Nat.succ_pos _)
                rw [hhere] at hnone
                cases hnone
      | none =>
          rw [ih]
          constructor
          · rintro ⟨before, s, rfl, hs, hfirst⟩
            refine ⟨a :: before, s, rfl, hs, fun before' s' heq hlt ↦ ?_⟩
            cases before' with
            | nil => rw [← hhere, heq, List.nil_append]
            | cons a' before' =>
                exact hfirst before' s' (List.cons.inj heq).2 (Nat.lt_of_succ_lt_succ hlt)
          · rintro ⟨before, s, heq, hs, hfirst⟩
            cases before with
            | nil =>
                rw [List.nil_append] at heq
                rw [← heq, hhere] at hs
                cases hs
            | cons a' before =>
                refine ⟨before, s, (List.cons.inj heq).2, hs, fun before' s' heq' hlt ↦ ?_⟩
                exact hfirst (a :: before') s' (by rw [heq']; rfl) (Nat.succ_lt_succ hlt)

theorem findSome?_tails_eq_none_iff : text.tails.findSome? f = none ↔
    ∀ before s, text = before ++ s → f s = none := by
  rw [List.findSome?_eq_none_iff]
  constructor
  · intro h before s heq
    exact h s ((List.mem_tails s text).mpr ⟨before, heq.symm⟩)
  · intro h s hs
    obtain ⟨before, heq⟩ := (List.mem_tails s text).mp hs
    exact h before s heq.symm

end Leftmost

/-! ## Words of a language -/

def StartsWith (l : Language α) (text : List α) : Prop := ∃ w, w <+: text ∧ w ∈ l

def Contains (l : Language α) (text : List α) : Prop := ∃ w, w <:+: text ∧ w ∈ l

/-- The one-letter words of a class. -/
def letter (p : α → Prop) : Language α := {w | ∃ a, p a ∧ w = [a]}

theorem mem_kstar_letter {p : α → Prop} {w : List α} : w ∈ KStar.kstar (letter p) ↔ ∀ a ∈ w, p a := by
  rw [Language.mem_kstar]
  constructor
  · rintro ⟨words, rfl, hwords⟩ a ha
    obtain ⟨w, hw, haw⟩ := List.mem_flatten.mp ha
    obtain ⟨b, hb, rfl⟩ := hwords w hw
    rwa [List.mem_singleton.mp haw]
  · intro h
    refine ⟨w.map fun a ↦ [a], (List.flatMap_singleton' w).symm, ?_⟩
    intro v hv
    obtain ⟨a, ha, rfl⟩ := List.mem_map.mp hv
    exact ⟨a, h a ha, rfl⟩

theorem startsWith_one (text : List α) : StartsWith 1 text :=
  ⟨[], List.nil_prefix, Language.nil_mem_one⟩

theorem startsWith_mul {l m : Language α} {text : List α} :
    StartsWith (l * m) text ↔ ∃ u v, text = u ++ v ∧ u ∈ l ∧ StartsWith m v := by
  constructor
  · rintro ⟨w, ⟨rest, rfl⟩, hw⟩
    obtain ⟨u, hu, v, hv, rfl⟩ := Language.mem_mul.mp hw
    exact ⟨u, v ++ rest, List.append_assoc u v rest, hu, v, List.prefix_append v rest, hv⟩
  · rintro ⟨u, v, rfl, hu, w, ⟨rest, rfl⟩, hw⟩
    refine ⟨u ++ w, ⟨rest, List.append_assoc u w rest⟩, Language.append_mem_mul hu hw⟩

theorem startsWith_letter_mul_nil {p : α → Prop} {m : Language α} :
    ¬ StartsWith (letter p * m) [] := by
  rw [startsWith_mul]
  rintro ⟨u, v, huv, ⟨a, -, rfl⟩, -⟩
  cases huv

theorem startsWith_letter_mul_cons {p : α → Prop} {m : Language α} {a : α} {text : List α} :
    StartsWith (letter p * m) (a :: text) ↔ p a ∧ StartsWith m text := by
  rw [startsWith_mul]
  constructor
  · rintro ⟨u, v, huv, ⟨b, hb, rfl⟩, hv⟩
    obtain ⟨rfl, rfl⟩ := List.cons.inj huv
    exact ⟨hb, hv⟩
  · rintro ⟨ha, htext⟩
    exact ⟨[a], text, rfl, ⟨a, ha, rfl⟩, htext⟩

/-- A text contains a language exactly when one of its tails starts with it. -/
theorem contains_iff {l : Language α} {text : List α} :
    Contains l text ↔ ∃ t, t <:+ text ∧ StartsWith l t := by
  constructor
  · rintro ⟨w, ⟨pre, post, rfl⟩, hw⟩
    refine ⟨w ++ post, ⟨pre, (List.append_assoc pre w post).symm⟩, w, ?_, hw⟩
    exact List.prefix_append w post
  · rintro ⟨t, htext, w, ht, hw⟩
    exact ⟨w, ht.isInfix.trans htext.isInfix, hw⟩

/-! ## Languages over two alphabets -/

section Agree

variable {β : Type*} {f : α → β} {s : α → Prop}

/-- The two languages hold the same words of letters in `s`, read through `f`. -/
def Agree (f : α → β) (s : α → Prop) (l : Language α) (m : Language β) : Prop :=
  ∀ w, (∀ a ∈ w, s a) → (w ∈ l ↔ w.map f ∈ m)

theorem Agree.one : Agree f s 1 1 := by
  intro w hw
  simp [Language.mem_one]

theorem Agree.mul {l l' : Language α} {m m' : Language β} (h : Agree f s l m)
    (h' : Agree f s l' m') : Agree f s (l * l') (m * m') := by
  intro w hw
  simp only [Language.mem_mul]
  constructor
  · rintro ⟨u, hu, v, hv, rfl⟩
    obtain ⟨hsu, hsv⟩ := List.forall_mem_append.mp hw
    exact ⟨u.map f, (h u hsu).mp hu, v.map f, (h' v hsv).mp hv, List.map_append.symm⟩
  · rintro ⟨u, hu, v, hv, huv⟩
    obtain ⟨u, v, rfl, rfl, rfl⟩ := List.map_eq_append_iff.mp huv.symm
    obtain ⟨hsu, hsv⟩ := List.forall_mem_append.mp hw
    exact ⟨u, (h u hsu).mpr hu, v, (h' v hsv).mpr hv, rfl⟩

theorem Agree.letter {p : α → Prop} {q : β → Prop} (h : ∀ a, s a → (p a ↔ q (f a))) :
    Agree f s (letter p) (letter q) := by
  intro w hw
  constructor
  · rintro ⟨a, ha, rfl⟩
    exact ⟨f a, (h a (hw a List.mem_cons_self)).mp ha, rfl⟩
  · rintro ⟨b, hb, hwb⟩
    obtain ⟨a, rfl, rfl⟩ := List.map_eq_singleton_iff.mp hwb
    exact ⟨a, (h a (hw a List.mem_cons_self)).mpr hb, rfl⟩

theorem Agree.kstar_letter {p : α → Prop} {q : β → Prop} (h : ∀ a, s a → (p a ↔ q (f a))) :
    Agree f s (KStar.kstar (Lib.letter p)) (KStar.kstar (Lib.letter q)) := by
  intro w hw
  rw [mem_kstar_letter, mem_kstar_letter, List.forall_mem_map]
  apply forall₂_congr
  intro a ha
  exact h a (hw a ha)

theorem Agree.contains {l : Language α} {m : Language β} (h : Agree f s l m) {text : List α}
    (htext : ∀ a ∈ text, s a) : Contains l text ↔ Contains m (text.map f) := by
  constructor
  · rintro ⟨w, hw, hl⟩
    exact ⟨w.map f, hw.map f, (h w fun a ha ↦ htext a (hw.mem ha)).mp hl⟩
  · rintro ⟨v, hv, hm⟩
    obtain ⟨w, hw, rfl⟩ := List.infix_map_iff.mp hv
    exact ⟨w, hw, (h w fun a ha ↦ htext a (hw.mem ha)).mpr hm⟩

end Agree

end CalxMill.Lib
