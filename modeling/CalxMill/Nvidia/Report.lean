import CalxMill.Lib.Ranking
import CalxMill.Nvidia.Check
import CalxMill.Nvidia.DemandVector
import CalxMill.Rust.Fmt

/-!
# The printed projection

The resources of a projection in descending order of their demand, equal ones
in the order of the projection.  So the first one printed is the one that the
projection names as its bound.
-/

namespace CalxMill.Nvidia

open Lib Rust

/-- At least as large a demand. -/
def Outranks (a b : Str × F64) : Prop := b.2 ≤ a.2

instance : DecidableRel Outranks := fun a b ↦ inferInstanceAs (Decidable (b.2 ≤ a.2))

/-- A stable sort whose comparison expects numbers. -/
def sortDemands (items : List (Str × F64)) : Exec Str (List (Str × F64)) :=
  if 2 ≤ items.length ∧ ∃ e ∈ items, e.2 = .nan then Exec.panic "demands are never NaN"
  else pure (items.insertionSort Outranks)

def resourceLine (e : Str × F64) : Str :=
  "  " ++ padRight 12 e.1 ++ " " ++ padLeft 10 (F64.fixed 1 e.2) ++ "\n"

def defaultedLine (defaulted : List Str) : Str :=
  if defaulted = [] then [] else
    "  defaulted rates: " ++ join " " (sortedDedup defaulted) ++ "\n"

def ppmLines (r : ProjectResult) : Str :=
  "PPM: " ++ F64.fixed 1 r.ppmCycles ++ " cycles/iter (bound: " ++ r.ppmBound ++ ")\n" ++
    "ADD: " ++ F64.fixed 1 r.addCycles ++ " cycles/iter\n"

def report (r : ProjectResult) : Exec Str Str := do
  let items ← sortDemands r.perResource
  pure (ppmLines r ++ items.flatMap resourceLine ++ defaultedLine r.defaulted)

/-! ## The bound is the first resource printed -/

section Scan

variable {κ : Type*}

theorem outranks_trans (a b c : κ × F64) (hab : b.2 ≤ a.2) (hbc : c.2 ≤ b.2) : c.2 ≤ a.2 :=
  ExtNum.le_trans hbc hab

theorem totalOn_outranks {l : List (κ × F64)} (h : ∀ e ∈ l, e.2 ≠ .nan) :
    TotalOn (fun a b ↦ b.2 ≤ a.2) l :=
  fun x hx y hy ↦ ExtNum.le_total (h y hy) (h x hx)

/-- A scan that has seen a part of the list stands on its leader. -/
theorem leads_scan {l : List (κ × F64)} : ∀ (seen : List (κ × F64)) (i : ℕ) {e : κ × F64},
    (∀ x ∈ seen ++ l, x.2 ≠ .nan) → seen[i]? = some e → Leads (fun a b ↦ b.2 ≤ a.2) seen e →
      ∃ e', (seen ++ l)[(((l.map (·.2)).zipIdx seen.length).foldl
          (fun best e ↦ if best.2 < e.1 then (e.2, e.1) else best) (i, e.2)).1]? = some e' ∧
        Leads (fun a b ↦ b.2 ≤ a.2) (seen ++ l) e' := by
  induction l with
  | nil =>
      intro seen i e _ hget hlead
      exact ⟨e, by simpa using hget, by simpa using hlead⟩
  | cons x l ih =>
      intro seen i e hnum hget hlead
      have hsplit : seen ++ x :: l = (seen ++ [x]) ++ l := by simp
      have hlength : (seen ++ [x]).length = seen.length + 1 := by simp
      have hmem : e ∈ seen := hlead.mem
      have hx : x.2 ≠ .nan := hnum x (by simp)
      have he : e.2 ≠ .nan := hnum e (by simp [hmem])
      rw [List.map_cons, List.zipIdx_cons, List.foldl_cons, hsplit, ← hlength]
      rw [hsplit] at hnum
      obtain ⟨pre, post, hseen, hpre, hpost⟩ := hlead
      by_cases hlt : e.2 < x.2
      · rw [if_pos hlt]
        refine ih _ _ hnum (by simp) ⟨seen, [], rfl, fun y hy hle ↦ ?_, List.forall_mem_nil _⟩
        -- nothing seen reaches the new best, since nothing seen exceeds the old one
        have hyle : y.2 ≤ e.2 := by
          rw [hseen] at hy
          rcases List.mem_append.mp hy with hy | hy
          · have hynum : y.2 ≠ .nan := hnum y (by simp [hseen, hy])
            exact (ExtNum.le_total hynum he).resolve_right (hpre y hy)
          · rcases List.mem_cons.mp hy with rfl | hy
            · exact (ExtNum.le_total he he).elim id id
            · exact hpost y hy
        exact ExtNum.not_lt_of_le (ExtNum.le_trans hle hyle) hlt
      · rw [if_neg hlt]
        have hxe : x.2 ≤ e.2 := (ExtNum.not_lt_iff_le he hx).mp hlt
        refine ih _ _ hnum ?_ ⟨pre, post ++ [x], by simp [hseen], hpre, ?_⟩
        · rw [List.getElem?_append_left (List.getElem?_eq_some_iff.mp hget).1]
          exact hget
        · exact List.forall_mem_append.mpr ⟨hpost, by simpa using hxe⟩

theorem leads_firstMax {l : List (κ × F64)} (hne : l ≠ []) (hnum : ∀ x ∈ l, x.2 ≠ .nan) :
    ∃ e, l[(firstMax (l.map (·.2))).1]? = some e ∧ Leads (fun a b ↦ b.2 ≤ a.2) l e := by
  obtain ⟨e, l, rfl⟩ := List.exists_cons_of_ne_nil hne
  exact leads_scan [e] 0 hnum rfl
    ⟨[], [], rfl, List.forall_mem_nil _, List.forall_mem_nil _⟩

end Scan

section Report

variable {census : Census} {warps dramBudget : F64} {memClass : MemClass} {rates : Rates}
  {r : ProjectResult} {text : Str}

theorem named_eq_ok {d : Demands F64} {budget : F64 × List Str}
    (h : named warps d budget = .ok r) :
    ∃ (l : List (ResourceKind × F64)) (names : List Str) (bound : ResourceKind × F64),
      l[(firstMax (l.map (·.2))).1]? = some bound ∧ resourceName names bound.1 = .ok r.ppmBound ∧
        l.mapM (nameEntry names) = .ok r.perResource ∧
          r.ppmCycles = (firstMax (l.map (·.2))).2 := by
  obtain ⟨bound, hbound, h⟩ := Exec.bind_eq_ok.mp h
  obtain ⟨ppmBound, hname, h⟩ := Exec.bind_eq_ok.mp h
  obtain ⟨perResource, hper, h⟩ := Exec.bind_eq_ok.mp h
  obtain rfl := Exec.pure_eq_ok.mp h
  exact ⟨_, _, bound, Exec.expect_eq_ok.mp hbound, hname, hper, rfl⟩

/-- The bound is the entry that the scan for the largest demand stops on. -/
theorem project_bound (h : project census warps memClass rates dramBudget = .ok r) :
    r.perResource ≠ [] ∧
      r.perResource[(firstMax (r.perResource.map (·.2))).1]? = some (r.ppmBound, r.ppmCycles) := by
  obtain ⟨d, -, h⟩ := Exec.bind_eq_ok.mp h
  obtain ⟨budget, -, h⟩ := Exec.bind_eq_ok.mp h
  obtain ⟨l, names, bound, hbound, hname, hper, hcycles⟩ := named_eq_ok h
  have hvalues := map_snd_of_nameEntry hper
  have hentries := Exec.mapM_eq_ok.mp hper
  obtain ⟨hlt, heq⟩ := List.getElem?_eq_some_iff.mp hbound
  have hlt' := hentries.length_eq ▸ hlt
  have hne : l ≠ [] := List.ne_nil_of_length_pos (Nat.zero_lt_of_lt hlt)
  have hvals : l.map (·.2) ≠ [] := by simpa using hne
  have hmax := getElem?_firstMax hvals
  rw [List.getElem?_map, hbound] at hmax
  have hentry := hentries.get hlt hlt'
  rw [List.get_eq_getElem, heq] at hentry
  obtain ⟨n, hn, hpair⟩ := Exec.map_eq_ok.mp hentry
  obtain rfl := Except.ok.inj (hname.symm.trans hn)
  rw [← hvalues]
  refine ⟨List.ne_nil_of_length_pos (Nat.zero_lt_of_lt hlt'), ?_⟩
  refine List.getElem?_eq_some_iff.mpr ⟨hlt', hpair.symm.trans (congrArg _ ?_)⟩
  exact (Option.some.inj hmax).trans hcycles.symm

theorem sortDemands_eq_ok {items rows : List (Str × F64)} (h : sortDemands items = .ok rows) :
    rows = items.insertionSort Outranks ∧ (2 ≤ items.length → ∀ e ∈ items, e.2 ≠ .nan) := by
  rw [sortDemands] at h
  split at h
  · cases h
  · next hnum =>
      refine ⟨(Exec.pure_eq_ok.mp h).symm, fun hlen e he hnan ↦ hnum ⟨hlen, e, he, hnan⟩⟩

theorem pairwise_sortedDedup (items : List Str) : (sortedDedup items).Pairwise (· < ·) := by
  have hle : (sortedDedup items).Pairwise (· ≤ ·) :=
    (List.pairwise_insertionSort (· ≤ ·) items).sublist (List.dedup_sublist _)
  have hne : (sortedDedup items).Pairwise (· ≠ ·) := List.nodup_dedup _
  exact (hle.and hne).imp fun h ↦ lt_of_le_of_ne h.1 h.2

theorem mem_sortedDedup {items : List Str} {s : Str} : s ∈ sortedDedup items ↔ s ∈ items := by
  rw [sortedDedup, List.mem_dedup, List.mem_insertionSort]

/-- The print of a projection lists each resource once, in descending order,
and the named bound with its cycles first; each defaulted rate is named once. -/
theorem report_ranks (h : project census warps memClass rates dramBudget = .ok r)
    (ht : report r = .ok text) :
    ∃ (rows : List (Str × F64)) (marks : List Str), rows.Perm r.perResource ∧
      rows.Pairwise (fun a b ↦ b.2 ≤ a.2) ∧ rows.head? = some (r.ppmBound, r.ppmCycles) ∧
      marks.Pairwise (· < ·) ∧ (∀ m, m ∈ marks ↔ m ∈ r.defaulted) ∧
      text = ppmLines r ++ rows.flatMap resourceLine ++
        if marks = [] then [] else lit "  defaulted rates: " ++ join " " marks ++ lit "\n" := by
  obtain ⟨hne, hbound⟩ := project_bound h
  obtain ⟨rows, hrows, ht⟩ := Exec.bind_eq_ok.mp ht
  obtain ⟨rfl, hnum⟩ := sortDemands_eq_ok hrows
  obtain rfl := Exec.pure_eq_ok.mp ht
  refine ⟨r.perResource.insertionSort Outranks, sortedDedup r.defaulted,
    List.perm_insertionSort _ _, ?_, ?_, pairwise_sortedDedup _, fun m ↦ mem_sortedDedup, ?_⟩
  · by_cases hlen : 2 ≤ r.perResource.length
    · exact pairwise_insertionSort outranks_trans (totalOn_outranks (hnum hlen))
    · obtain ⟨e, hone⟩ := List.length_eq_one_iff.mp
        (le_antisymm (Nat.le_of_lt_succ (Nat.lt_of_not_le hlen)) (List.length_pos_iff.mpr hne))
      rw [hone]
      exact List.pairwise_singleton _ _
  · by_cases hlen : 2 ≤ r.perResource.length
    · -- the sort puts the leader in front, and the scan stops on it
      obtain ⟨e, hget, hlead⟩ := leads_firstMax hne (hnum hlen)
      obtain rfl := Option.some.inj (hget.symm.trans hbound)
      have hsorted : r.perResource.insertionSort Outranks ≠ [] := fun hnil ↦
        hne (hnil ▸ List.perm_insertionSort Outranks r.perResource).nil_eq.symm
      have hhead := List.head?_eq_some_head hsorted
      have hlead' := leads_head?_insertionSort outranks_trans (totalOn_outranks (hnum hlen)) hhead
      exact hhead.trans (congrArg some (hlead'.unique hlead))
    · obtain ⟨e, hone⟩ := List.length_eq_one_iff.mp
        (le_antisymm (Nat.le_of_lt_succ (Nat.lt_of_not_le hlen)) (List.length_pos_iff.mpr hne))
      rw [hone] at hbound ⊢
      exact hbound
  · have hnil : sortedDedup r.defaulted = [] ↔ r.defaulted = [] := by
      simp only [List.eq_nil_iff_forall_not_mem, mem_sortedDedup]
    rw [defaultedLine]
    simp only [hnil]

/-- Two pipes are equally busy; the one met first is the bound. -/
def tiedCensus : Census := ⟨[("FFMA", 4), ("MUFU.EX2", 2), ("FADD", 4)]⟩

def tiedReport : Str :=
  "PPM: 32.0 cycles/iter (bound: pipe:fma)\nADD: 64.0 cycles/iter\n" ++
    "  pipe:fma           32.0\n  pipe:own_xu        32.0\n  issue              20.0\n" ++
    "  defaulted rates: FADD MUFU.EX2\n"

theorem report_ranks_tied :
    ∃ r, project tiedCensus (.fin 8) .none [("alu.ffma.tput", ⟨"2.0", "fma"⟩)] (.fin 5.82) = .ok r ∧
      ∃ (rows : List (Str × F64)) (marks : List Str), rows.Perm r.perResource ∧
        rows.Pairwise (fun a b ↦ b.2 ≤ a.2) ∧ rows.head? = some (r.ppmBound, r.ppmCycles) ∧
        marks.Pairwise (· < ·) ∧ (∀ m, m ∈ marks ↔ m ∈ r.defaulted) ∧
        tiedReport = ppmLines r ++ rows.flatMap resourceLine ++
          if marks = [] then [] else lit "  defaulted rates: " ++ join " " marks ++ lit "\n" := by
  have hrun : (project tiedCensus (.fin 8) .none [("alu.ffma.tput", ⟨"2.0", "fma"⟩)] (.fin 5.82)
      >>= report) = .ok tiedReport := by
    decide +kernel
  obtain ⟨r, hr, ht⟩ := Exec.bind_eq_ok.mp hrun
  exact ⟨r, hr, report_ranks hr ht⟩

end Report

end CalxMill.Nvidia
