import CalxMill.Lib.Tally
import CalxMill.Nvidia.CensusFile
import CalxMill.Rust.Fmt
import CalxMill.World
import Mathlib.Algebra.Order.AbsoluteValue.Basic
import Mathlib.Tactic.Linarith

/-!
# Matching two op mixes

The hot loops of two kernels are alike when no group of ops has shares that
differ by more than the tolerance.  The shares of a mix add up to a hundred
percent, so the comparison is one of distances: it is reflexive and symmetric,
and tolerances add up along a chain.
-/

namespace CalxMill.Nvidia

open Lib Rust

def MATCH_GROUPS : List (Str × List Str) :=
  [("fma", ["FFMA", "FADD", "FMUL", "IMAD", "IDP", "FSETP", "FMNMX"]),
   ("half", ["HADD2", "HMUL2", "HFMA2", "HMNMX2"]),
   ("alu", ["IADD3", "LOP3", "SHF", "SEL", "ISETP", "PRMT", "LEA", "MOV", "FLO", "POPC", "BFE",
      "BFI", "IABS", "IMNMX"]),
   ("xu", ["MUFU", "F2F", "F2I", "I2F", "I2I"]),
   ("lsu", ["LDG", "STG", "LDS", "STS", "LDC", "LDSM", "LDL", "STL"]),
   ("control", ["BRA", "NOP", "EXIT", "BSSY", "BSYNC", "CS2R", "S2R", "BAR", "DEPBAR", "YIELD",
      "WARPSYNC", "RET"])]

/-- The groups of a report, in its order. -/
def groups : List Str := MATCH_GROUPS.map (·.1) ++ [lit "other"]

def groupOf (base : Str) : Str :=
  ((MATCH_GROUPS.find? fun g ↦ base ∈ g.2).map (·.1)).getD "other"

/-- The path and the pattern of a spec; an empty pattern means all kernels. -/
def specParts (spec : Str) : Str × Str :=
  match splitOnce ":" spec with
  | some (p, r) => (p, if r = [] then ".*" else r)
  | none => (spec, ".*")

def addShare (total : ℕ) (g : List (Str × F64)) (e : Str × ℕ) : Exec Str (List (Str × F64)) := do
  let i ← Exec.expect "group exists" (g.findIdx? (·.1 = groupOf e.1))
  pure (g.modify i fun s ↦ (s.1, s.2 + .fin 100 * .fin e.2 / .fin total))

/-- The shares of the groups in the hot loops of a spec, and the number of its
kernels. -/
def shares (w : World) (spec : Str) : Exec Str (List (Str × F64) × ℕ) := do
  let sass ← w.sassText (specParts spec).1
  let pat ← Exec.mapErr (fun e ↦ "census-match " ++ spec ++ ": " ++ e ++ "\n")
    (Pattern.tryNew (specParts spec).2)
  let (mix, matched) ← loopMix sass pat
  if matched = 0 then
    Exec.err ("FAIL census-match: no kernels matched in " ++ spec ++ "\n")
  else do
    let total ← mix.items.foldlM (fun t e ↦ addU64 t e.2) 0
    let g ← mix.items.foldlM (addShare total) (groups.map fun k ↦ (k, .fin 0))
    pure (g, matched)

/-- `repr_f64`: the `{}` form, with the fraction of an integral value. -/
def reprF64 (v : F64) : Str :=
  if v.display.all fun c ↦ c.isDigit || c = '-' then v.display ++ ".0" else v.display

structure MatchState where
  out : Str
  worst : F64
  fail : ℕ

def matchGroup (gb : List (Str × F64)) (tolerance : F64) (st : MatchState)
    (x : (Str × F64) × ℕ) : Exec Str MatchState := do
  let b ← Exec.expect "index out of bounds" gb[x.2]?
  let d : F64 := (x.1.2 - b.2).abs
  let status : Str := if d ≤ tolerance then "ok" else "EXCEEDS"
  pure ⟨st.out ++ "  " ++ padRight 8 x.1.1 ++ " A " ++ padLeft 5 (F64.fixed 1 x.1.2) ++
      "%  B " ++ padLeft 5 (F64.fixed 1 b.2) ++ "%  |d| " ++ padLeft 5 (F64.fixed 1 d) ++
      "pp  " ++ status ++ "\n",
    if st.worst < d then d else st.worst, if tolerance < d then 1 else st.fail⟩

def matchHeader (na nb : ℕ) (tolerance : F64) : Str :=
  "census-match: A=" ++ natStr na ++ " kernel(s), B=" ++ natStr nb ++
    " kernel(s); tolerance +-" ++ reprF64 tolerance ++ "pp\n"

def matchTrailer (st : MatchState) : Str :=
  "census-match: " ++ (if st.fail ≠ 0 then "FAIL" else "PASS" : String) ++ " (worst " ++
    F64.fixed 1 st.worst ++ "pp)\n"

/-- A side that cannot be read is the report of a failed match. -/
def withShares (w : World) (spec : Str) (k : List (Str × F64) → ℕ → Exec Str (Str × ℕ)) :
    Exec Str (Str × ℕ) :=
  match shares w spec with
  | .ok (g, n) => k g n
  | .error (.err msg) => pure (msg, 1)
  | .error (.panic msg) => Exec.panic msg

/-- The report and the exit code. -/
def censusMatch (w : World) (specA specB : Str) (tolerance : F64) : Exec Str (Str × ℕ) :=
  withShares w specA fun ga na ↦ withShares w specB fun gb nb ↦ do
    let st ← ga.zipIdx.foldlM (matchGroup gb tolerance) ⟨matchHeader na nb tolerance, .fin 0, 0⟩
    pure (st.out ++ matchTrailer st, st.fail)

/-! ## The shares of a mix -/

/-- The table lists the op in the group; the last group has what it does not
list. -/
def InGroup (op grp : Str) : Prop :=
  (∃ g ∈ MATCH_GROUPS, g.1 = grp ∧ op ∈ g.2) ∨
    (grp = lit "other" ∧ ∀ g ∈ MATCH_GROUPS, op ∉ g.2)

instance (op grp : Str) : Decidable (InGroup op grp) := inferInstanceAs (Decidable (_ ∨ _))

/-- The instructions of a group. -/
def groupCount (items : List (Str × ℕ)) (grp : Str) : ℕ :=
  ((items.filter fun e ↦ InGroup e.1 grp).map (·.2)).sum

/-- The percentage of a group in a mix. -/
def groupShare (mix : Census) (grp : Str) : ℚ := 100 * groupCount mix.items grp / mix.total

/-- The hot loops of the kernels that a spec selects. -/
structure Mixed (w : World) (spec : Str) (mix : Census) (n : ℕ) : Prop where
  loops : ∃ sass pat, w.sassText (specParts spec).1 = .ok sass ∧
    Pattern.tryNew (specParts spec).2 = .ok pat ∧ loopMix sass pat = .ok (mix, n)
  matched : n ≠ 0
  fits : mix.total < 2 ^ 64

def shareTable (f : Str → ℚ) : List (Str × F64) := groups.map fun k ↦ (k, .fin (f k))

theorem nodup_groups : groups.Nodup := by decide +kernel

theorem groupOf_mem (base : Str) : groupOf base ∈ groups := by
  rw [groupOf, groups]
  cases hfind : MATCH_GROUPS.find? fun g ↦ base ∈ g.2 with
  | none => exact List.mem_append_right _ (List.mem_singleton_self _)
  | some g =>
      exact List.mem_append_left _ (List.mem_map_of_mem (List.mem_of_find?_eq_some hfind))

theorem eq_of_mem_MATCH_GROUPS : ∀ g ∈ MATCH_GROUPS, ∀ g' ∈ MATCH_GROUPS, ∀ op ∈ g.2,
    op ∈ g'.2 → g = g' := by
  decide +kernel

/-- No op is listed twice, so the first group that lists it is its group. -/
theorem groupOf_eq_iff {op grp : Str} : groupOf op = grp ↔ InGroup op grp := by
  rw [groupOf, InGroup]
  cases hfind : MATCH_GROUPS.find? fun g ↦ op ∈ g.2 with
  | none =>
      have hnone : ∀ g ∈ MATCH_GROUPS, op ∉ g.2 := by
        simpa using List.find?_eq_none.mp hfind
      constructor
      · rintro rfl
        exact Or.inr ⟨rfl, hnone⟩
      · rintro (⟨g, hg, -, hop⟩ | ⟨rfl, -⟩)
        · exact absurd hop (hnone g hg)
        · rfl
  | some g =>
      have hg : g ∈ MATCH_GROUPS := List.mem_of_find?_eq_some hfind
      have hop : op ∈ g.2 := by simpa using List.find?_some hfind
      constructor
      · rintro rfl
        exact Or.inl ⟨g, hg, rfl, hop⟩
      · rintro (⟨g', hg', rfl, hop'⟩ | ⟨-, hnone⟩)
        · exact congrArg Prod.fst (eq_of_mem_MATCH_GROUPS g hg g' hg' op hop hop')
        · exact absurd hop (hnone g hg)

theorem groupCount_cons (e : Str × ℕ) (items : List (Str × ℕ)) (grp : Str) :
    groupCount (e :: items) grp =
      (if groupOf e.1 = grp then e.2 else 0) + groupCount items grp := by
  rw [groupCount, List.filter_cons]
  by_cases h : InGroup e.1 grp
  · rw [if_pos (decide_eq_true h), if_pos (groupOf_eq_iff.mpr h), List.map_cons, List.sum_cons]
    rfl
  · rw [if_neg (by simpa using h), if_neg (mt groupOf_eq_iff.mp h), Nat.zero_add]
    rfl

theorem groupCount_eq (items : List (Str × ℕ)) (grp : Str) :
    groupCount items grp = tally (items.map fun e ↦ (groupOf e.1, e.2)) grp := by
  induction items with
  | nil => rfl
  | cons e items ih => rw [groupCount_cons, ih, List.map_cons, tally_cons]

/-- The shares of a mix add up to a hundred percent. -/
theorem sum_groupShare {mix : Census} (h : mix.total ≠ 0) :
    (groups.map (groupShare mix)).sum = 100 := by
  have hcover : ∀ e ∈ mix.items.map fun e ↦ (groupOf e.1, e.2), e.1 ∈ groups := by
    intro e he
    obtain ⟨x, -, rfl⟩ := List.mem_map.mp he
    exact groupOf_mem x.1
  have hsum : (groups.map (groupCount mix.items)).sum = mix.total := by
    rw [funext (groupCount_eq mix.items)]
    refine (sum_map_tally nodup_groups hcover).trans ?_
    rw [List.map_map]
    rfl
  have htotal : (mix.total : ℚ) ≠ 0 := Nat.cast_ne_zero.mpr h
  have hscale : groupShare mix = fun k ↦ 100 / mix.total * (groupCount mix.items k : ℚ) :=
    funext fun k ↦ (div_mul_eq_mul_div _ _ _).symm
  have hcast : (groups.map fun k ↦ (groupCount mix.items k : ℚ)).sum = mix.total := by
    rw [← hsum, Nat.cast_list_sum, List.map_map]
    rfl
  rw [hscale, List.sum_map_mul_left, hcast, div_mul_cancel₀ _ htotal]

theorem addShare_shareTable {total : ℕ} (ht : total ≠ 0) (f : Str → ℚ) (e : Str × ℕ) :
    addShare total (shareTable f) e = .ok (shareTable fun k ↦
      if k = groupOf e.1 then f k + 100 * e.2 / total else f k) := by
  have htotal : (total : ℚ) ≠ 0 := Nat.cast_ne_zero.mpr ht
  obtain ⟨i, hfind, hmodify⟩ := Assoc.modify_findIdx? nodup_groups (groupOf_mem e.1)
    (fun k ↦ ExtNum.fin (f k)) fun x ↦ x + .fin 100 * .fin e.2 / .fin total
  rw [addShare, shareTable, hfind]
  refine congrArg Except.ok (hmodify.trans (List.map_congr_left fun k _ ↦ ?_))
  dsimp only
  split
  · rw [ExtNum.fin_mul, ExtNum.fin_div _ htotal, ExtNum.fin_add]
  · rfl

theorem foldlM_addShare {total : ℕ} (ht : total ≠ 0) {items : List (Str × ℕ)} :
    ∀ {f : Str → ℚ}, items.foldlM (addShare total) (shareTable f) =
      .ok (shareTable fun k ↦ f k + 100 * groupCount items k / total) := by
  induction items with
  | nil =>
      intro f
      simp [groupCount, pure, Except.pure]
  | cons e items ih =>
      intro f
      rw [List.foldlM_cons, addShare_shareTable ht]
      refine ih.trans (congrArg Except.ok (congrArg shareTable (funext fun k ↦ ?_)))
      have hcount : groupCount (e :: items) k =
          (if groupOf e.1 = k then e.2 else 0) + groupCount items k := groupCount_cons ..
      rw [hcount]
      by_cases hk : k = groupOf e.1
      · rw [if_pos hk, if_pos hk.symm]
        push_cast
        ring
      · rw [if_neg hk, if_neg (Ne.symm hk), Nat.zero_add]

/-- Every counter of a mix has counted something. -/
theorem loopMix_pos {sass : Str} {pat : Pattern} {mix : Census × ℕ}
    (h : loopMix sass pat = .ok mix) : ∀ e ∈ mix.1.items, 0 < e.2 := by
  have hadd : ∀ (body : List Instr) (c : Census), (∀ e ∈ c.items, 0 < e.2) →
      ∀ e ∈ (body.foldl (fun c x ↦ c.add x.base 1) c).items, 0 < e.2 := by
    intro body
    induction body with
    | nil => exact fun _ hc ↦ hc
    | cons x body ih =>
        intro c hc
        refine ih _ fun e he ↦ ?_
        rcases Assoc.mem_alter he with he | ⟨-, he | ⟨n, -, he⟩⟩
        · exact hc e he
        · exact he ▸ Nat.succ_pos _
        · exact he ▸ Nat.succ_pos _
  obtain ⟨fs, -, h⟩ := Exec.bind_eq_ok.mp h
  refine Exec.foldlM_invariant (fun mix ↦ ∀ e ∈ mix.1.items, 0 < e.2) ?_ (by simp [Census.empty]) h
  intro mix f _ mix' hmix hstep
  rw [mixFunction] at hstep
  split at hstep
  · obtain rfl := Exec.pure_eq_ok.mp hstep
    exact hmix
  · obtain ⟨best, -, hstep⟩ := Exec.bind_eq_ok.mp hstep
    cases best with
    | none =>
        obtain rfl := Exec.pure_eq_ok.mp hstep
        exact hmix
    | some b =>
        obtain ⟨body, -, hstep⟩ := Exec.bind_eq_ok.mp hstep
        obtain rfl := Exec.pure_eq_ok.mp hstep
        exact hadd body mix.1 hmix

theorem Mixed.items_eq_nil {w : World} {spec : Str} {mix : Census} {n : ℕ} (h : Mixed w spec mix n)
    (htotal : mix.total = 0) : mix.items = [] := by
  obtain ⟨sass, pat, -, -, hmix⟩ := h.loops
  have hpos := loopMix_pos hmix
  refine List.eq_nil_iff_forall_not_mem.mpr fun e he ↦ ?_
  have hle : e.2 ≤ mix.total := List.single_le_sum (by simp) _ (List.mem_map_of_mem he)
  have := hpos e he
  omega

theorem shares_eq_ok_iff {w : World} {spec : Str} {g : List (Str × F64)} {n : ℕ} :
    shares w spec = .ok (g, n) ↔ ∃ mix, Mixed w spec mix n ∧ g = shareTable (groupShare mix) := by
  have hread : ∀ mix, Mixed w spec mix n →
      mix.items.foldlM (addShare mix.total) (groups.map fun k ↦ (k, .fin 0)) =
        .ok (shareTable (groupShare mix)) := by
    intro mix hmix
    by_cases htotal : mix.total = 0
    · have hnil := hmix.items_eq_nil htotal
      have hzero : groupShare mix = fun _ ↦ 0 := by
        funext k
        simp [groupShare, groupCount, hnil]
      rw [hnil, hzero]
      rfl
    · refine (foldlM_addShare htotal (f := fun _ ↦ 0)).trans ?_
      simp only [zero_add]
      rfl
  rw [shares]
  constructor
  · intro h
    obtain ⟨sass, hsass, h⟩ := Exec.bind_eq_ok.mp h
    obtain ⟨pat, hpat, h⟩ := Exec.bind_eq_ok.mp h
    obtain ⟨⟨mix, m⟩, hmix, h⟩ := Exec.bind_eq_ok.mp h
    dsimp only at h
    split at h
    · cases h
    · next hm =>
        obtain ⟨total, htotal, h⟩ := Exec.bind_eq_ok.mp h
        obtain ⟨table, htable, h⟩ := Exec.bind_eq_ok.mp h
        obtain ⟨rfl, rfl⟩ := Prod.mk.inj (Exec.pure_eq_ok.mp h)
        obtain ⟨hfits, rfl⟩ := (foldlM_addU64_eq_ok (by decide)).mp htotal
        rw [Nat.zero_add] at hfits htable
        have hmixed : Mixed w spec mix m :=
          ⟨⟨sass, pat, hsass, Exec.mapErr_eq_ok.mp hpat, hmix⟩, hm, hfits⟩
        exact ⟨mix, hmixed, Except.ok.inj (htable.symm.trans (hread mix hmixed))⟩
  · rintro ⟨mix, hmixed, rfl⟩
    obtain ⟨sass, pat, hsass, hpat, hmix⟩ := hmixed.loops
    refine Exec.bind_eq_ok.mpr ⟨sass, hsass, Exec.bind_eq_ok.mpr ⟨pat, ?_, ?_⟩⟩
    · exact Exec.mapErr_eq_ok.mpr hpat
    · refine Exec.bind_eq_ok.mpr ⟨(mix, n), hmix, ?_⟩
      dsimp only
      rw [if_neg hmixed.matched]
      refine Exec.bind_eq_ok.mpr ⟨mix.total, ?_, Exec.bind_eq_ok.mpr ⟨_, hread mix hmixed, rfl⟩⟩
      exact (foldlM_addU64_eq_ok (by decide)).mpr
        ⟨by simpa [Census.total] using hmixed.fits, by simp [Census.total]⟩

/-! ## The comparison -/

/-- The distance of two mixes in a group. -/
def gap (mix mix' : Census) (grp : Str) : ℚ := |groupShare mix grp - groupShare mix' grp|

/-- No group is farther apart than the tolerance; a NaN tolerance excludes
nothing. -/
def Within (tolerance : F64) (mix mix' : Census) : Prop :=
  ∀ grp ∈ groups, ¬ tolerance < .fin (gap mix mix' grp)

instance (tolerance : F64) (mix mix' : Census) : Decidable (Within tolerance mix mix') :=
  inferInstanceAs (Decidable (∀ grp ∈ groups, _))

variable {w : World} {specA specB report : Str} {tolerance : F64} {code : ℕ}

theorem foldlM_matchGroup (mix mix' : Census) (tolerance : F64) {l : List Str} :
    ∀ (pre : List Str) (out : Str) (worst : ℚ) (fail : ℕ), groups = pre ++ l →
      ∃ out', ((l.map fun k ↦ (k, ExtNum.fin (groupShare mix k))).zipIdx pre.length).foldlM
          (matchGroup (shareTable (groupShare mix')) tolerance) ⟨out, .fin worst, fail⟩ =
        .ok ⟨out', .fin (l.foldl (fun m k ↦ max m (gap mix mix' k)) worst),
          if ∀ k ∈ l, ¬ tolerance < .fin (gap mix mix' k) then fail else 1⟩ := by
  induction l with
  | nil =>
      intro pre out worst fail _
      exact ⟨out, by simp [pure, Except.pure]⟩
  | cons k l ih =>
      intro pre out worst fail hgroups
      have hget : (shareTable (groupShare mix'))[pre.length]? =
          some (k, .fin (groupShare mix' k)) := by
        rw [shareTable, hgroups]
        simp
      have hgap : (ExtNum.fin (groupShare mix k) - .fin (groupShare mix' k) : F64).abs =
          .fin (gap mix mix' k) := by
        rw [ExtNum.fin_sub]
        rfl
      have hworst : (if (.fin worst : F64) < .fin (gap mix mix' k) then
          (.fin (gap mix mix' k) : F64) else .fin worst) = .fin (max worst (gap mix mix' k)) := by
        have hfin : ((.fin worst : F64) < .fin (gap mix mix' k)) ↔ worst < gap mix mix' k := Iff.rfl
        by_cases hlt : worst < gap mix mix' k
        · rw [if_pos (hfin.mpr hlt), max_eq_right hlt.le]
        · rw [if_neg (hfin.not.mpr hlt), max_eq_left (not_lt.mp hlt)]
      obtain ⟨out₁, hstep⟩ : ∃ out₁, matchGroup (shareTable (groupShare mix')) tolerance
          ⟨out, .fin worst, fail⟩ ((k, .fin (groupShare mix k)), pre.length) =
          .ok ⟨out₁, .fin (max worst (gap mix mix' k)),
            if tolerance < .fin (gap mix mix' k) then 1 else fail⟩ := by
        rw [matchGroup, hget, Exec.expect_some]
        dsimp only [bind, Except.bind]
        rw [hgap, hworst]
        exact ⟨_, rfl⟩
      rw [List.map_cons, List.zipIdx_cons, List.foldlM_cons, hstep]
      have hlength : (pre ++ [k]).length = pre.length + 1 := by simp
      obtain ⟨out', hrest⟩ := ih (pre ++ [k]) out₁ (max worst (gap mix mix' k))
        (if tolerance < .fin (gap mix mix' k) then 1 else fail) (by simp [hgroups])
      rw [hlength] at hrest
      refine ⟨out', hrest.trans ?_⟩
      simp only [List.forall_mem_cons, List.foldl_cons]
      by_cases hk : tolerance < .fin (gap mix mix' k) <;> simp [hk]

/-- The scan for the largest gap keeps the start or one of the gaps. -/
theorem foldl_max_gap (mix mix' : Census) (l : List Str) : ∀ (worst : ℚ),
    let m := l.foldl (fun m k ↦ max m (gap mix mix' k)) worst
    worst ≤ m ∧ (∀ k ∈ l, gap mix mix' k ≤ m) ∧ (m = worst ∨ ∃ k ∈ l, m = gap mix mix' k) := by
  induction l with
  | nil => exact fun _ ↦ ⟨le_rfl, List.forall_mem_nil _, Or.inl rfl⟩
  | cons k l ih =>
      intro worst
      obtain ⟨hstart, hall, hattained⟩ := ih (max worst (gap mix mix' k))
      refine ⟨(le_max_left _ _).trans hstart, ?_, ?_⟩
      · exact List.forall_mem_cons.mpr ⟨(le_max_right _ _).trans hstart, hall⟩
      · rcases hattained with heq | ⟨k', hk', heq⟩
        · rcases max_choice worst (gap mix mix' k) with hmax | hmax
          · exact Or.inl (heq.trans hmax)
          · exact Or.inr ⟨k, List.mem_cons_self, heq.trans hmax⟩
        · exact Or.inr ⟨k', List.mem_cons_of_mem _ hk', heq⟩

theorem isGreatest_worst (mix mix' : Census) :
    IsGreatest {d | ∃ grp ∈ groups, d = gap mix mix' grp}
      (groups.foldl (fun m k ↦ max m (gap mix mix' k)) 0) := by
  obtain ⟨hstart, hall, hattained⟩ := foldl_max_gap mix mix' groups 0
  refine ⟨?_, ?_⟩
  · rcases hattained with hzero | ⟨grp, hgrp, heq⟩
    · have hfma : lit "fma" ∈ groups := by decide +kernel
      refine ⟨lit "fma", hfma, hzero.trans (le_antisymm (abs_nonneg _) ?_)⟩
      exact hzero ▸ hall _ hfma
    · exact ⟨grp, hgrp, heq⟩
  · rintro _ ⟨grp, hgrp, rfl⟩
    exact hall grp hgrp

theorem Mixed.unique {mix mix' : Census} {n n' : ℕ} (h : Mixed w specA mix n)
    (h' : Mixed w specA mix' n') : mix = mix' := by
  obtain ⟨sass, pat, hsass, hpat, hmix⟩ := h.loops
  obtain ⟨sass', pat', hsass', hpat', hmix'⟩ := h'.loops
  obtain rfl := Except.ok.inj (hsass.symm.trans hsass')
  obtain rfl := Except.ok.inj (hpat.symm.trans hpat')
  exact (Prod.mk.inj (Except.ok.inj (hmix.symm.trans hmix'))).1

/-- The run on two sides that can be read. -/
theorem censusMatch_eq {mix mix' : Census} {n n' : ℕ} (h : Mixed w specA mix n)
    (h' : Mixed w specB mix' n') (tolerance : F64) :
    ∃ body, censusMatch w specA specB tolerance =
      .ok (body ++ matchTrailer ⟨body, .fin (groups.foldl (fun m k ↦ max m (gap mix mix' k)) 0),
        if Within tolerance mix mix' then 0 else 1⟩,
        if Within tolerance mix mix' then 0 else 1) := by
  obtain ⟨body, hrun⟩ := foldlM_matchGroup mix mix' tolerance (l := groups) []
    (matchHeader n n' tolerance) 0 0 rfl
  refine ⟨body, ?_⟩
  rw [censusMatch, withShares, shares_eq_ok_iff.mpr ⟨mix, h, rfl⟩]
  dsimp only
  rw [withShares, shares_eq_ok_iff.mpr ⟨mix', h', rfl⟩]
  exact Exec.bind_eq_ok.mpr ⟨_, hrun, rfl⟩

theorem withShares_eq_ok {spec : Str} {k : List (Str × F64) → ℕ → Exec Str (Str × ℕ)}
    (h : withShares w spec k = .ok (report, code)) :
    code = 1 ∨
      ∃ mix n, Mixed w spec mix n ∧ k (shareTable (groupShare mix)) n = .ok (report, code) := by
  rw [withShares] at h
  split at h
  · next g n hshares =>
      obtain ⟨mix, hmix, rfl⟩ := shares_eq_ok_iff.mp hshares
      exact Or.inr ⟨mix, n, hmix, h⟩
  · exact Or.inl (Prod.mk.inj (Exec.pure_eq_ok.mp h)).2.symm
  · cases h

theorem mixed_of_code_ne_one (h : censusMatch w specA specB tolerance = .ok (report, code))
    (hcode : code ≠ 1) :
    ∃ mix n mix' n', Mixed w specA mix n ∧ Mixed w specB mix' n' := by
  rw [censusMatch] at h
  obtain ⟨mix, n, hmix, h⟩ := (withShares_eq_ok h).resolve_left hcode
  obtain ⟨mix', n', hmix', -⟩ := (withShares_eq_ok h).resolve_left hcode
  exact ⟨mix, n, mix', n', hmix, hmix'⟩

/-- A match succeeds exactly when both sides can be read and no group's shares
are farther apart than the tolerance. -/
theorem censusMatch_eq_ok_zero : (∃ report, censusMatch w specA specB tolerance = .ok (report, 0)) ↔
    ∃ mix n mix' n', Mixed w specA mix n ∧ Mixed w specB mix' n' ∧ Within tolerance mix mix' := by
  constructor
  · rintro ⟨report, h⟩
    obtain ⟨mix, n, mix', n', hmix, hmix'⟩ := mixed_of_code_ne_one h (by decide)
    obtain ⟨body, hrun⟩ := censusMatch_eq hmix hmix' tolerance
    have hcode := (Prod.mk.inj (Except.ok.inj (h.symm.trans hrun))).2
    refine ⟨mix, n, mix', n', hmix, hmix', ?_⟩
    by_contra hwithin
    rw [if_neg hwithin] at hcode
    cases hcode
  · rintro ⟨mix, n, mix', n', hmix, hmix', hwithin⟩
    obtain ⟨body, hrun⟩ := censusMatch_eq hmix hmix' tolerance
    rw [if_pos hwithin] at hrun
    exact ⟨_, hrun⟩

/-- The report of two readable sides: the shares of each side are those of all
its loops, the worst figure is the largest gap between them, and the exit code
compares every gap with the tolerance. -/
theorem censusMatch_exact {mix mix' : Census} {n n' : ℕ} (hmix : Mixed w specA mix n)
    (hmix' : Mixed w specB mix' n') (h : censusMatch w specA specB tolerance = .ok (report, code)) :
    (mix.items ≠ [] → (groups.map (groupShare mix)).sum = 100) ∧
    (mix'.items ≠ [] → (groups.map (groupShare mix')).sum = 100) ∧
    (∃ m, IsGreatest {d | ∃ grp ∈ groups, d = gap mix mix' grp} m ∧
      lit "census-match: " ++ (if Within tolerance mix mix' then lit "PASS" else lit "FAIL") ++
        lit " (worst " ++ F64.fixed 1 (.fin m) ++ lit "pp)\n" <:+ report) ∧
    (code = 0 ↔ Within tolerance mix mix') ∧ (code = 1 ↔ ¬ Within tolerance mix mix') := by
  obtain ⟨body, hrun⟩ := censusMatch_eq hmix hmix' tolerance
  obtain ⟨rfl, rfl⟩ := Prod.mk.inj (Except.ok.inj (h.symm.trans hrun))
  refine ⟨fun hne ↦ sum_groupShare fun htotal ↦ hne (hmix.items_eq_nil htotal),
    fun hne ↦ sum_groupShare fun htotal ↦ hne (hmix'.items_eq_nil htotal),
    ⟨_, isGreatest_worst mix mix', ?_⟩, by simp, by simp⟩
  rw [matchTrailer]
  split
  · exact List.suffix_append _ _
  · exact List.suffix_append _ _

/-- Two kernels with a cached disassembly. -/
def twoLoops : World where
  read path :=
    if path = lit "a.sass" then .ok "Function : k\n/*0000*/ FFMA R0;\n/*0010*/ BRA 0x0;" else
    if path = lit "b.sass" then
      .ok "Function : k\n/*0000*/ FFMA R0;\n/*0010*/ LOP3 R1;\n/*0020*/ FFMA R2;\n/*0030*/ BRA 0x0;"
    else .error "No such file or directory (os error 2)"
  present _ := false
  entries _ := .error "No such file or directory (os error 2)"
  cuobjdump _ := .error "No such file or directory (os error 2)"
  cuobjdumpText _ _ := .error "No such file or directory (os error 2)"
  writable _ := .ok ()

def mixA : Census := ⟨[("FFMA", 1), ("BRA", 1)]⟩

def mixB : Census := ⟨[("FFMA", 2), ("LOP3", 1), ("BRA", 1)]⟩

theorem censusMatch_exact_twoLoops :
    ∃ report, censusMatch twoLoops "a.sass:k" "b.sass" (.fin 30) = .ok (report, 0) ∧
      (mixA.items ≠ [] → (groups.map (groupShare mixA)).sum = 100) ∧
      (mixB.items ≠ [] → (groups.map (groupShare mixB)).sum = 100) ∧
      (∃ m, IsGreatest {d | ∃ grp ∈ groups, d = gap mixA mixB grp} m ∧
        lit "census-match: " ++
          (if Within (.fin 30) mixA mixB then lit "PASS" else lit "FAIL") ++
          lit " (worst " ++ F64.fixed 1 (.fin m) ++ lit "pp)\n" <:+ report) ∧
      (0 = 0 ↔ Within (.fin 30) mixA mixB) ∧ (0 = 1 ↔ ¬ Within (.fin 30) mixA mixB) := by
  have ha : Mixed twoLoops "a.sass:k" mixA 1 :=
    ⟨⟨_, _, rfl, rfl, by decide +kernel⟩, by decide, by decide⟩
  have hb : Mixed twoLoops "b.sass" mixB 1 :=
    ⟨⟨_, _, rfl, rfl, by decide +kernel⟩, by decide, by decide⟩
  have hwithin : Within (.fin 30) mixA mixB := by decide +kernel
  obtain ⟨report, hrun⟩ := censusMatch_eq_ok_zero.mpr ⟨mixA, 1, mixB, 1, ha, hb, hwithin⟩
  exact ⟨report, hrun, censusMatch_exact ha hb hrun⟩

/-- Matching is a comparison by distance: reflexive for a tolerance that is not
negative, symmetric, and with tolerances that add up along a chain. -/
structure MatchLaws (w : World) : Prop where
  refl : ∀ spec tolerance mix n, Mixed w spec mix n →
    ((∃ report, censusMatch w spec spec tolerance = .ok (report, 0)) ↔ ¬ tolerance < .fin 0)
  symm : ∀ specA specB tolerance report, censusMatch w specA specB tolerance = .ok (report, 0) →
    ∃ report', censusMatch w specB specA tolerance = .ok (report', 0)
  trans : ∀ specA specB specC s t report report',
    censusMatch w specA specB s = .ok (report, 0) → censusMatch w specB specC t = .ok (report', 0) →
      ∃ report'', censusMatch w specA specC (s + t) = .ok (report'', 0)

theorem gap_self (mix : Census) (grp : Str) : gap mix mix grp = 0 := by
  rw [gap, sub_self, abs_zero]

theorem gap_comm (mix mix' : Census) (grp : Str) : gap mix mix' grp = gap mix' mix grp :=
  abs_sub_comm _ _

theorem gap_triangle (mix mix' mix'' : Census) (grp : Str) :
    gap mix mix'' grp ≤ gap mix mix' grp + gap mix' mix'' grp :=
  abs_sub_le _ _ _

theorem matchLaws (w : World) : MatchLaws w where
  refl spec tolerance mix n hmix := by
    rw [censusMatch_eq_ok_zero]
    constructor
    · rintro ⟨mix₁, n₁, mix₂, n₂, h₁, h₂, hwithin⟩
      obtain rfl := h₁.unique h₂
      have hfma : lit "fma" ∈ groups := by decide +kernel
      exact gap_self mix₁ (lit "fma") ▸ hwithin _ hfma
    · intro htol
      refine ⟨mix, n, mix, n, hmix, hmix, fun grp _ ↦ ?_⟩
      rwa [gap_self]
  symm specA specB tolerance report h := by
    obtain ⟨mix, n, mix', n', hmix, hmix', hwithin⟩ := censusMatch_eq_ok_zero.mp ⟨report, h⟩
    refine censusMatch_eq_ok_zero.mpr ⟨mix', n', mix, n, hmix', hmix, fun grp hgrp ↦ ?_⟩
    rw [gap_comm]
    exact hwithin grp hgrp
  trans specA specB specC s t report report' h h' := by
    obtain ⟨mix, n, mix₁, n₁, hmix, hmix₁, hwithin⟩ := censusMatch_eq_ok_zero.mp ⟨report, h⟩
    obtain ⟨mix₂, n₂, mix', n', hmix₂, hmix', hwithin'⟩ := censusMatch_eq_ok_zero.mp ⟨report', h'⟩
    obtain rfl := hmix₁.unique hmix₂
    refine censusMatch_eq_ok_zero.mpr ⟨mix, n, mix', n', hmix, hmix', fun grp hgrp ↦ ?_⟩
    exact ExtNum.not_add_lt_fin (hwithin grp hgrp) (hwithin' grp hgrp) (gap_triangle _ _ _ grp)

end CalxMill.Nvidia
