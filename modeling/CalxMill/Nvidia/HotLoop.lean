import CalxMill.Nvidia.SassGrammar

/-!
# The hot loop is the widest

Over instructions in address order the locator returns the widest backward
branch, the first one among equally wide branches, and nothing when no branch
goes backward.
-/

namespace CalxMill.Nvidia

open Lib Rust

/-- The branch targets spelled in a text have at most sixteen digits. -/
def ShortTargets (text : Str) : Prop :=
  ∀ before gap hex after,
    text = before ++ (lit "BRA" ++ (gap ++ (lit "0x" ++ (hex ++ after)))) →
    (∀ c ∈ gap, isBlank c = true) → (∀ c ∈ hex, isHexDigit c = true) → hex.length ≤ 16

/-- Instruction `i` is a branch to the earlier instruction `j`. -/
def BackwardBranch (instrs : List Instr) (j i : ℕ) : Prop :=
  j < i ∧ ∃ x y, instrs[i]? = some x ∧ instrs[j]? = some y ∧ x.base = "BRA" ∧
    braTarget x.text = .ok (some y.addr)

/-- The body from `j` to `i` is the widest, and the first of that width. -/
structure WidestLoop (instrs : List Instr) (j i : ℕ) : Prop where
  branch : BackwardBranch instrs j i
  widest : ∀ j' i', BackwardBranch instrs j' i' → i' - j' ≤ i - j
  first : ∀ j' i', BackwardBranch instrs j' i' → i' - j' = i - j → i ≤ i'

/-! ## Targets -/

theorem targetDigits_eq_some {s hex : Str} (h : targetDigits s = some hex) :
    ∃ gap after, Run isBlank gap ∧ Run isHexDigit hex ∧
      s = gap ++ (lit "0x" ++ (hex ++ after)) := by
  obtain ⟨t, hblank, htail⟩ := Option.bind_eq_some_iff.mp h
  obtain ⟨u, hu, hdigits⟩ := Option.bind_eq_some_iff.mp htail
  obtain ⟨gap, hgap, -, rfl⟩ := skipSome_eq_some_iff.mp hblank
  obtain rfl := dropPrefix?_eq_some.mp hu
  split at hdigits
  · cases hdigits
  · next hne =>
      obtain rfl := Option.some.inj hdigits
      refine ⟨gap, u.dropWhile isHexDigit, hgap, ⟨hne, fun c hc ↦ List.mem_takeWhile_imp hc⟩, ?_⟩
      rw [List.takeWhile_append_dropWhile]

/-- A target is the value of digits spelled in the text. -/
theorem target_eq_some {text : Str} {t : ℕ} (h : target text = some t) :
    ∃ before gap hex after, Run isHexDigit hex ∧ (∀ c ∈ gap, isBlank c = true) ∧
      hexValue hex = t ∧ text = before ++ (lit "BRA" ++ (gap ++ (lit "0x" ++ (hex ++ after)))) := by
  fun_induction target text with
  | case1 s hex hd =>
      obtain ⟨gap, after, hgap, hhex, rfl⟩ := targetDigits_eq_some hd
      exact ⟨[], gap, hex, after, hhex, hgap.all, Option.some.inj h, rfl⟩
  | case2 s hd ih =>
      obtain ⟨before, gap, hex, after, hhex, hgap, hvalue, rfl⟩ := ih h
      exact ⟨lit "BRA" ++ before, gap, hex, after, hhex, hgap, hvalue, by rw [List.append_assoc]; rfl⟩
  | case3 c s hne ih =>
      obtain ⟨before, gap, hex, after, hhex, hgap, hvalue, rfl⟩ := ih h
      exact ⟨c :: before, gap, hex, after, hhex, hgap, hvalue, rfl⟩
  | case4 => cases h

theorem ShortTargets.target_lt {text : Str} (h : ShortTargets text) {t : ℕ}
    (ht : target text = some t) : t < 2 ^ 64 := by
  obtain ⟨before, gap, hex, after, hhex, hgap, rfl, htext⟩ := target_eq_some ht
  exact hexValue_lt_word hhex.all (h before gap hex after htext hgap hhex.all)

/-! ## Loops in address order -/

section Sorted

variable {instrs : List Instr} (hsorted : instrs.Pairwise (·.addr < ·.addr))

include hsorted

/-- Addresses are ordered as their indices are. -/
theorem addr_lt_iff {i j : ℕ} {x y : Instr} (hx : instrs[i]? = some x)
    (hy : instrs[j]? = some y) : y.addr < x.addr ↔ j < i := by
  obtain ⟨hi, rfl⟩ := List.getElem?_eq_some_iff.mp hx
  obtain ⟨hj, rfl⟩ := List.getElem?_eq_some_iff.mp hy
  have hlt := List.pairwise_iff_getElem.mp hsorted
  constructor
  · intro h
    by_contra hle
    rcases Nat.lt_or_eq_of_le (Nat.le_of_not_lt hle) with hij | rfl
    · exact absurd (hlt i j hi hj hij) (Nat.lt_asymm h)
    · exact absurd h (Nat.lt_irrefl _)
  · exact hlt j i hj hi

/-- An address is found at its own index. -/
theorem findIdx?_addr_iff {j t : ℕ} : instrs.findIdx? (·.addr = t) = some j ↔
    ∃ y, instrs[j]? = some y ∧ y.addr = t := by
  rw [List.findIdx?_eq_some_iff_getElem]
  constructor
  · rintro ⟨hj, haddr, -⟩
    exact ⟨instrs[j], List.getElem?_eq_getElem hj, of_decide_eq_true haddr⟩
  · rintro ⟨y, hy, rfl⟩
    obtain ⟨hj, rfl⟩ := List.getElem?_eq_some_iff.mp hy
    refine ⟨hj, decide_eq_true rfl, fun i hij ↦ ?_⟩
    have hlt := List.pairwise_iff_getElem.mp hsorted i j (hij.trans hj) hj hij
    simpa using hlt.ne

/-- The loops of the locator are the backward branches. -/
theorem mem_loops_iff (ht : TargetsFit instrs) {j i : ℕ} :
    (j, i) ∈ loops instrs ↔ BackwardBranch instrs j i := by
  have hbra : ∀ x, instrs[i]? = some x → x.base = "BRA" →
      braTarget x.text = .ok (target x.text) :=
    fun x hx hbase ↦ (braTarget_spec x.text).2 (ht x (List.mem_of_getElem? hx) hbase)
  rw [mem_loops_iff_backwardIndex]
  constructor
  · rintro ⟨x, hx, hback⟩
    obtain ⟨hbase, t, htarget, hlt, hfind⟩ := backwardIndex_eq_some_iff.mp hback
    obtain ⟨y, hy, rfl⟩ := (findIdx?_addr_iff hsorted).mp hfind
    refine ⟨(addr_lt_iff hsorted hx hy).mp hlt, x, y, hx, hy, hbase, ?_⟩
    rw [hbra x hx hbase, htarget]
  · rintro ⟨hlt, x, y, hx, hy, hbase, htarget⟩
    rw [hbra x hx hbase, Except.ok.injEq] at htarget
    have haddr := (addr_lt_iff hsorted hx hy).mpr hlt
    have hfind := (findIdx?_addr_iff hsorted).mpr ⟨y, hy, rfl⟩
    exact ⟨x, hx, backwardIndex_eq_some_iff.mpr ⟨hbase, y.addr, htarget, haddr, hfind⟩⟩

end Sorted

/-- The loops come in the order of their branches. -/
theorem pairwise_loops (instrs : List Instr) : (loops instrs).Pairwise (·.2 < ·.2) := by
  have hidx : instrs.zipIdx.Pairwise (·.2 < ·.2) := by
    rw [← List.pairwise_map, List.zipIdx_map_snd]
    exact List.pairwise_lt_range'
  refine List.pairwise_filterMap.mpr (hidx.imp fun {x y} hlt c hc d hd ↦ ?_)
  obtain ⟨-, -, rfl⟩ := Option.map_eq_some_iff.mp hc
  obtain ⟨-, -, rfl⟩ := Option.map_eq_some_iff.mp hd
  exact hlt

/-- Under an increasing measure the first of two elements is the smaller. -/
theorem idxOf_le_idxOf_iff {α : Type*} [DecidableEq α] {l : List α} {f : α → ℕ}
    (h : l.Pairwise (f · < f ·)) {a b : α} (ha : a ∈ l) (hb : b ∈ l) :
    l.idxOf a ≤ l.idxOf b ↔ f a ≤ f b := by
  have hlt : ∀ {c d}, c ∈ l → d ∈ l → l.idxOf c < l.idxOf d → f c < f d := by
    intro c d hc hd hidx
    have hpair := List.pairwise_iff_getElem.mp h _ _ (List.idxOf_lt_length_of_mem hc)
      (List.idxOf_lt_length_of_mem hd) hidx
    rwa [List.getElem_idxOf, List.getElem_idxOf] at hpair
  constructor
  · intro hle
    rcases Nat.lt_or_eq_of_le hle with hidx | hidx
    · exact (hlt ha hb hidx).le
    · rw [(List.idxOf_inj ha).mp hidx]
  · intro hle
    by_contra hidx
    exact Nat.not_le_of_lt (hlt hb ha (Nat.lt_of_not_le hidx)) hle

theorem argmax_loops_iff {instrs : List Instr} (hsorted : instrs.Pairwise (·.addr < ·.addr))
    (ht : TargetsFit instrs) {j i : ℕ} :
    (loops instrs).argmax width = some (j, i) ↔ WidestLoop instrs j i := by
  rw [List.argmax_eq_some_iff, mem_loops_iff hsorted ht]
  constructor
  · rintro ⟨hbranch, hwidest, hfirst⟩
    refine ⟨hbranch, fun j' i' h ↦ hwidest (j', i') ((mem_loops_iff hsorted ht).mpr h), ?_⟩
    intro j' i' h heq
    have hmem := (mem_loops_iff hsorted ht).mpr h
    have hmem₀ := (mem_loops_iff hsorted ht).mpr hbranch
    exact (idxOf_le_idxOf_iff (pairwise_loops instrs) hmem₀ hmem).mp (hfirst _ hmem heq.ge)
  · rintro ⟨hbranch, hwidest, hfirst⟩
    refine ⟨hbranch, fun c hc ↦ hwidest c.1 c.2 ((mem_loops_iff hsorted ht).mp hc), ?_⟩
    intro c hc hle
    have hc' := (mem_loops_iff hsorted ht).mp hc
    have hmem₀ := (mem_loops_iff hsorted ht).mpr hbranch
    apply (idxOf_le_idxOf_iff (pairwise_loops instrs) hmem₀ hc).mpr
    exact hfirst c.1 c.2 hc' (le_antisymm (hwidest c.1 c.2 hc') hle)

/-- What the locator returns. -/
structure LocatesWidest (instrs : List Instr) : Prop where
  returns : ∃ best, hotLoop instrs = .ok best ∧
    (best.isSome = true ↔ ∃ j i, BackwardBranch instrs j i)
  widest : ∀ j i, hotLoop instrs = .ok (some (j, i)) ↔ WidestLoop instrs j i

/-- In address order the hot loop is the widest backward branch, and the first
of that width. -/
theorem hotLoop_widest (instrs : List Instr) (hsorted : instrs.Pairwise (·.addr < ·.addr))
    (htargets : ∀ x ∈ instrs, x.base = "BRA" → ShortTargets x.text) : LocatesWidest instrs := by
  have ht : TargetsFit instrs := fun x hx hbase _ htarget ↦ (htargets x hx hbase).target_lt htarget
  have hl : NoForwardLoop instrs := fun c hc ↦ ((mem_loops_iff hsorted ht).mp hc).1.le
  have heq := hotLoop_eq_ok ht hl
  constructor
  · refine ⟨_, heq, ?_⟩
    rw [Option.isSome_iff_ne_none, Ne, List.argmax_eq_none, List.eq_nil_iff_forall_not_mem]
    simp [mem_loops_iff hsorted ht]
  · intro j i
    rw [heq, Except.ok.injEq, argmax_loops_iff hsorted ht]

/-- A text of at most 21 characters has no longer target. -/
theorem shortTargets_of_length_le {text : Str} (h : text.length ≤ 21) : ShortTargets text := by
  rintro before gap hex after rfl - -
  have hbra : (lit "BRA").length = 3 := rfl
  have hprefix : (lit "0x").length = 2 := rfl
  simp only [List.length_append, hbra, hprefix] at h
  omega

theorem hotLoop_widest_nested :
    LocatesWidest [⟨0x0, "NOP", "NOP"⟩, ⟨0x10, "BRA", "BRA 0x10"⟩, ⟨0x20, "BRA", "BRA 0x10"⟩,
      ⟨0x30, "BRA", "BRA 0x0"⟩] := by
  refine hotLoop_widest _ (by decide) fun x hx _ ↦ shortTargets_of_length_le ?_
  revert x
  decide

end CalxMill.Nvidia
