import CalxMill.Rust.Float

/-!
# The fractional steady state

The per-resource cycle demands of one work unit and the binding resource: the
first entry with the largest demand.
-/

namespace CalxMill

open Lib Rust

inductive ResourceKind where
  | pipe (i : ℕ)
  | localStoreBw
  | memoryBw
  | issue
  deriving DecidableEq

structure SteadyState where
  perResource : List (ResourceKind × F64)
  ppmCycles : F64
  ppmBound : ℕ
  addCycles : F64

/-- A local-store or memory demand of zero emits no entry. -/
def mixDemands (concurrency : F64) (pipeCycles : List F64) (localStoreCycles memBytes
    memBytesPerCycle totalOps issueCap : F64) : List (ResourceKind × F64) :=
  (pipeCycles.zipIdx.map fun c ↦ (.pipe c.2, concurrency * c.1)) ++
    (if localStoreCycles = 0 then [] else [(.localStoreBw, concurrency * localStoreCycles)]) ++
    (if memBytes = 0 then [] else [(.memoryBw, concurrency * memBytes / memBytesPerCycle)]) ++
    [(.issue, concurrency * totalOps / issueCap)]

/-- The first index with the largest value, beside that value: a later entry
must be strictly greater to displace an earlier one. -/
def firstMax : List F64 → ℕ × F64
  | [] => (0, 0)
  | v :: vs => (vs.zipIdx 1).foldl (fun best e ↦ if best.2 < e.1 then (e.2, e.1) else best) (0, v)

def selectBound (perResource : List (ResourceKind × F64)) : SteadyState :=
  let bound := firstMax (perResource.map (·.2))
  let add : F64 := (perResource.filter (·.1 ≠ .issue)).foldl (fun add e ↦ add + e.2) 0
  let issue := ((perResource.filter (·.1 = .issue)).getLast?).map (·.2)
  let addCycles := if 0 < add then add else issue.getD add
  ⟨perResource, bound.2, bound.1, addCycles⟩

def projectMix (concurrency : F64) (pipeCycles : List F64) (localStoreCycles memBytes
    memBytesPerCycle totalOps issueCap : F64) : SteadyState :=
  selectBound (mixDemands concurrency pipeCycles localStoreCycles memBytes memBytesPerCycle
    totalOps issueCap)

/-! ## The binding resource -/

theorem getElem?_firstMax {vs : List F64} (h : vs ≠ []) :
    vs[(firstMax vs).1]? = some (firstMax vs).2 := by
  obtain ⟨v, vs, rfl⟩ := List.exists_cons_of_ne_nil h
  have hentries : ∀ e ∈ vs.zipIdx 1, (v :: vs)[e.2]? = some e.1 := by
    intro e he
    obtain ⟨hle, hget⟩ := List.mem_zipIdx_iff_le_and_getElem?_sub.mp he
    obtain ⟨i, hi⟩ := Nat.exists_eq_add_of_le' hle
    rw [hi] at hget ⊢
    simpa using hget
  refine List.foldlRecOn (motive := fun best : ℕ × F64 ↦ (v :: vs)[best.1]? = some best.2) _ _
    rfl ?_
  intro best hbest e he
  split
  · exact hentries e he
  · exact hbest

/-- On finite values the scan finds the maximum. -/
theorem firstMax_map_fin {qs : List ℚ} (h : qs ≠ []) :
    ∃ q ∈ qs, (∀ x ∈ qs, x ≤ q) ∧ (firstMax (qs.map .fin)).2 = .fin q := by
  obtain ⟨q₀, qs, rfl⟩ := List.exists_cons_of_ne_nil h
  suffices hscan : ∀ (l : List ℚ) (k i : ℕ) (q : ℚ), ∃ q', (q' = q ∨ q' ∈ l) ∧ q ≤ q' ∧
      (∀ x ∈ l, x ≤ q') ∧ (((l.map ExtNum.fin).zipIdx k).foldl
        (fun best e ↦ if best.2 < e.1 then (e.2, e.1) else best) (i, .fin q)).2 = .fin q' by
    obtain ⟨q', hmem, hle, hmax, hq'⟩ := hscan qs 1 0 q₀
    exact ⟨q', List.mem_cons.mpr hmem, List.forall_mem_cons.mpr ⟨hle, hmax⟩, hq'⟩
  intro l
  induction l with
  | nil => exact fun k i q ↦ ⟨q, Or.inl rfl, le_rfl, by simp, rfl⟩
  | cons x l ih =>
      intro k i q
      rw [List.map_cons, List.zipIdx_cons, List.foldl_cons]
      by_cases hlt : q < x
      · obtain ⟨q', hmem, hle, hmax, hq'⟩ := ih (k + 1) k x
        refine ⟨q', Or.inr (List.mem_cons.mpr hmem), hlt.le.trans hle,
          List.forall_mem_cons.mpr ⟨hle, hmax⟩, ?_⟩
        rw [← hq', if_pos (by exact hlt)]
      · obtain ⟨q', hmem, hle, hmax, hq'⟩ := ih (k + 1) i q
        refine ⟨q', hmem.imp_right (List.mem_cons_of_mem _), hle,
          List.forall_mem_cons.mpr ⟨(not_lt.mp hlt).trans hle, hmax⟩, ?_⟩
        rw [← hq', if_neg (by exact hlt)]

end CalxMill
