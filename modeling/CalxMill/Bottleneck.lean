import CalxMill.RunClock

/-!
# Classification by the columns

The classification of a record and its measured steady state are built from
the same two columns, each of them on its own: one treats an absent column as
zero, the other one leaves it out.  They agree on every record that has a
column at all.
-/

namespace CalxMill

open Lib Rust

namespace TeleRecord

/-- The memory demand in cycles, when the record has bytes. -/
def memColumn (r : TeleRecord) (peak run : ℚ) : Option ℚ :=
  if 0 < r.bytes.toNat then some (r.bytes.toNat / (peak / r.effectiveClock run)) else none

/-- The pipe demand in cycles, when the record has ops and the pipe a rate. -/
def pipeColumn (r : TeleRecord) (rate : ℚ) : Option ℚ :=
  if 0 < r.ops.toNat ∧ 0 < rate then some (r.ops.toNat / rate) else none

/-- The columns that are present, in their order. -/
def columns (mem pipe : Option ℚ) : List (ResourceKind × ℚ) :=
  (mem.toList.map fun q ↦ (.memoryBw, q)) ++ pipe.toList.map fun q ↦ (.pipe 0, q)

/-- The classification names the column at the bound, and latency lies above
every column. -/
structure BackedByColumns (r : TeleRecord) (rate tol : F64) (ctx : TeleCtx) : Prop where
  memory : measuredBottleneck r rate tol ctx = .memory →
    ∃ e, (measuredSteadyState r rate ctx).perResource[(measuredSteadyState r rate ctx).ppmBound]? =
      some e ∧ e.1 = .memoryBw
  pipe : measuredBottleneck r rate tol ctx = .pipe 0 →
    ∃ e, (measuredSteadyState r rate ctx).perResource[(measuredSteadyState r rate ctx).ppmBound]? =
      some e ∧ e.1 = .pipe 0
  latency : measuredBottleneck r rate tol ctx = .latency →
    (measuredSteadyState r rate ctx).perResource ≠ [] ∧
      ∀ e ∈ (measuredSteadyState r rate ctx).perResource, e.2 + tol < asF64 r.cycles.toNat

/-! ## The two readings of the columns -/

section Readings

variable (r : TeleRecord) {peak run rate tol : ℚ}

theorem memColumn_pos (hpeak : 0 < peak) (hrun : 0 < run) : ∀ m ∈ r.memColumn peak run, 0 < m := by
  intro m hm
  rw [memColumn, Option.mem_def] at hm
  split at hm
  next h =>
    obtain rfl := Option.some.inj hm
    exact div_pos (Nat.cast_pos.mpr h) (div_pos hpeak (r.effectiveClock_pos hrun))
  next => exact absurd hm (by simp)

theorem pipeColumn_pos : ∀ p ∈ r.pipeColumn rate, 0 < p := by
  intro p hp
  rw [pipeColumn, Option.mem_def] at hp
  split at hp
  next h =>
    obtain rfl := Option.some.inj hp
    exact div_pos (Nat.cast_pos.mpr h.1) h.2
  next => exact absurd hp (by simp)

theorem bytes_div_eq (hpeak : 0 < peak) (hrun : 0 < run) :
    asF64 r.bytes.toNat / r.dramBytesPerCycle ⟨.fin run, .fin peak⟩ =
      .fin (r.bytes.toNat / (peak / r.effectiveClock run)) := by
  have hclock := (r.effectiveClock_pos hrun).ne'
  have hrate := (div_pos hpeak (r.effectiveClock_pos hrun)).ne'
  rw [dramBytesPerCycle, effectiveClockGhz_eq, ExtNum.fin_div _ hclock]
  exact ExtNum.fin_div _ hrate

theorem memCycles_eq (hpeak : 0 < peak) (hrun : 0 < run) :
    r.memCycles ⟨.fin run, .fin peak⟩ = .fin ((r.memColumn peak run).getD 0) := by
  rw [memCycles, memColumn, r.bytes_div_eq hpeak hrun]
  split <;> rfl

theorem pipeCycles_eq : r.pipeCycles (.fin rate) = .fin ((r.pipeColumn rate).getD 0) := by
  simp only [pipeCycles, pipeColumn, ExtNum.fin_lt_fin]
  split
  next h => exact ExtNum.fin_div _ h.2.ne'
  next => rfl

theorem perResource_eq (hpeak : 0 < peak) (hrun : 0 < run) :
    (measuredSteadyState r (.fin rate) ⟨.fin run, .fin peak⟩).perResource =
      (columns (r.memColumn peak run) (r.pipeColumn rate)).map fun e ↦ (e.1, .fin e.2) := by
  simp only [measuredSteadyState, selectBound, memColumn, pipeColumn, r.bytes_div_eq hpeak hrun,
    columns, List.map_append, ExtNum.fin_lt_fin]
  congr 1
  · split <;> rfl
  · split
    next h =>
      have hdiv : asF64 r.ops.toNat / .fin rate = .fin (r.ops.toNat / rate) :=
        ExtNum.fin_div _ h.2.ne'
      rw [hdiv]
      rfl
    next => rfl

end Readings

/-! ## Agreement -/

/-- The classification by two columns, where an absent one counts as zero. -/
def classify (mem pipe : Option ℚ) (wall tol : ℚ) : Bottleneck :=
  if max (mem.getD 0) (pipe.getD 0) + tol < wall then .latency else
  if pipe.getD 0 ≤ mem.getD 0 then .memory else .pipe 0

theorem measuredBottleneck_eq (r : TeleRecord) {peak run : ℚ} (hpeak : 0 < peak) (hrun : 0 < run)
    (rate tol : ℚ) :
    measuredBottleneck r (.fin rate) (.fin tol) ⟨.fin run, .fin peak⟩ =
      classify (r.memColumn peak run) (r.pipeColumn rate) r.cycles.toNat tol := by
  rw [measuredBottleneck, classify, r.memCycles_eq hpeak hrun, r.pipeCycles_eq, ExtNum.fmax_fin,
    ExtNum.fin_add, asF64]
  rfl

theorem ppmBound_eq (r : TeleRecord) {peak run : ℚ} (hpeak : 0 < peak) (hrun : 0 < run) (rate : ℚ) :
    (measuredSteadyState r (.fin rate) ⟨.fin run, .fin peak⟩).ppmBound =
      (firstMax ((columns (r.memColumn peak run) (r.pipeColumn rate)).map fun e ↦ .fin e.2)).1 := by
  have hbound : ∀ (rate : F64) (ctx : TeleCtx), (measuredSteadyState r rate ctx).ppmBound =
      (firstMax ((measuredSteadyState r rate ctx).perResource.map (·.2))).1 := fun _ _ ↦ rfl
  rw [hbound, perResource_eq r hpeak hrun, List.map_map]
  rfl

/-- The column at the bound is the larger one, the memory on a tie. -/
theorem columns_firstMax {mem pipe : Option ℚ} (hmem : ∀ m ∈ mem, 0 < m)
    (hpipe : ∀ p ∈ pipe, 0 < p) (hsome : mem ≠ none ∨ pipe ≠ none) :
    ∃ e, (columns mem pipe)[(firstMax ((columns mem pipe).map fun e ↦ .fin e.2)).1]? = some e ∧
      e.1 = if pipe.getD 0 ≤ mem.getD 0 then .memoryBw else .pipe 0 := by
  cases mem with
  | none =>
      cases pipe with
      | none => simp at hsome
      | some p =>
          have hp : ¬ p ≤ 0 := not_le.mpr (hpipe p rfl)
          exact ⟨(.pipe 0, p), rfl, (if_neg hp).symm⟩
  | some m =>
      cases pipe with
      | none => exact ⟨(.memoryBw, m), rfl, (if_pos (hmem m rfl).le).symm⟩
      | some p =>
          have hmax : (firstMax ((columns (some m) (some p)).map fun e ↦ (.fin e.2 : F64))).1 =
              if m < p then 1 else 0 := by
            change (if (.fin m : F64) < .fin p then ((1 : ℕ), (.fin p : F64))
              else (0, .fin m)).1 = _
            simp only [ExtNum.fin_lt_fin]
            split <;> rfl
          rw [hmax]
          by_cases hle : p ≤ m
          · exact ⟨(.memoryBw, m), by rw [if_neg (not_lt.mpr hle)]; rfl, (if_pos hle).symm⟩
          · exact ⟨(.pipe 0, p), by rw [if_pos (not_le.mp hle)]; rfl, (if_neg hle).symm⟩

theorem mem_columns {mem pipe : Option ℚ} {e : ResourceKind × ℚ} (h : e ∈ columns mem pipe) :
    e.2 ≤ max (mem.getD 0) (pipe.getD 0) := by
  rcases List.mem_append.mp h with h | h
  · obtain ⟨m, hm, rfl⟩ := List.mem_map.mp h
    rw [Option.mem_toList.mp hm]
    exact le_max_left _ _
  · obtain ⟨p, hp, rfl⟩ := List.mem_map.mp h
    rw [Option.mem_toList.mp hp]
    exact le_max_right _ _

theorem columns_eq_nil {mem pipe : Option ℚ} : columns mem pipe = [] ↔ mem = none ∧ pipe = none := by
  rw [columns, List.append_eq_nil_iff, List.map_eq_nil_iff, List.map_eq_nil_iff,
    Option.toList_eq_nil_iff, Option.toList_eq_nil_iff]

theorem hasColumn_iff (r : TeleRecord) (rate peak run : ℚ) :
    (r.memColumn peak run ≠ none ∨ r.pipeColumn rate ≠ none) ↔
      r.bytes ≠ 0 ∨ (r.ops ≠ 0 ∧ 0 < rate) := by
  have hpos : ∀ n : UInt64, 0 < n.toNat ↔ n ≠ 0 := by
    intro n
    rw [Nat.pos_iff_ne_zero, ne_eq, ne_eq, ← UInt64.toNat_inj, UInt64.toNat_zero]
  rw [← hpos, ← hpos, memColumn, pipeColumn]
  refine or_congr ?_ ?_
  · split
    next h => exact iff_of_true (Option.some_ne_none _) h
    next h => exact iff_of_false (by simp) h
  · split
    next h => exact iff_of_true (Option.some_ne_none _) h
    next h => exact iff_of_false (by simp) h

/-- With a column at hand the classification is that of the bound. -/
theorem backedByColumns_of_column {r : TeleRecord} {rate tol peak run : ℚ} (hpeak : 0 < peak)
    (hrun : 0 < run) (hsome : r.memColumn peak run ≠ none ∨ r.pipeColumn rate ≠ none) :
    r.BackedByColumns (.fin rate) (.fin tol) ⟨.fin run, .fin peak⟩ := by
  obtain ⟨e, hget, hkind⟩ := columns_firstMax (r.memColumn_pos hpeak hrun) r.pipeColumn_pos hsome
  have hentry : (measuredSteadyState r (.fin rate) ⟨.fin run, .fin peak⟩).perResource[
      (measuredSteadyState r (.fin rate) ⟨.fin run, .fin peak⟩).ppmBound]? =
        some (e.1, .fin e.2) := by
    rw [perResource_eq r hpeak hrun, ppmBound_eq r hpeak hrun, List.getElem?_map, hget]
    rfl
  have hclass := r.measuredBottleneck_eq hpeak hrun rate tol
  rw [classify] at hclass
  by_cases hlat : max ((r.memColumn peak run).getD 0) ((r.pipeColumn rate).getD 0) + tol <
      (r.cycles.toNat : ℚ)
  · rw [if_pos hlat] at hclass
    refine ⟨fun h ↦ by simp [hclass] at h, fun h ↦ by simp [hclass] at h, fun _ ↦ ⟨?_, ?_⟩⟩
    · intro hnil
      rw [hnil] at hentry
      exact absurd hentry (by simp)
    · intro e' he'
      rw [perResource_eq r hpeak hrun] at he'
      obtain ⟨c, hc, rfl⟩ := List.mem_map.mp he'
      exact (add_le_add_left (mem_columns hc) tol).trans_lt hlat
  · rw [if_neg hlat] at hclass
    by_cases hle : (r.pipeColumn rate).getD 0 ≤ (r.memColumn peak run).getD 0
    · rw [if_pos hle] at hclass hkind
      exact ⟨fun _ ↦ ⟨_, hentry, hkind⟩, fun h ↦ by simp [hclass] at h,
        fun h ↦ by simp [hclass] at h⟩
    · rw [if_neg hle] at hclass hkind
      exact ⟨fun h ↦ by simp [hclass] at h, fun _ ↦ ⟨_, hentry, hkind⟩,
        fun h ↦ by simp [hclass] at h⟩

/-- Without a column the record is still classified. -/
theorem not_backedByColumns {r : TeleRecord} {rate tol peak run : ℚ} (hpeak : 0 < peak)
    (hrun : 0 < run) (hnone : r.memColumn peak run = none ∧ r.pipeColumn rate = none) :
    ¬ r.BackedByColumns (.fin rate) (.fin tol) ⟨.fin run, .fin peak⟩ := by
  intro h
  have hnil : (measuredSteadyState r (.fin rate) ⟨.fin run, .fin peak⟩).perResource = [] := by
    rw [perResource_eq r hpeak hrun, columns_eq_nil.mpr hnone]
    rfl
  have hclass := r.measuredBottleneck_eq hpeak hrun rate tol
  rw [classify, hnone.1, hnone.2] at hclass
  split at hclass
  next => exact (h.latency hclass).1 hnil
  next =>
    obtain ⟨e, he, -⟩ := h.memory (hclass.trans (if_pos le_rfl))
    rw [hnil] at he
    exact absurd he (by simp)

/-- The classification is backed by a column exactly on the records that have
one: bytes, or ops on a pipe with a rate.  The sign of the rate and of the
tolerance does not matter. -/
theorem backedByColumns_iff (r : TeleRecord) (rate tol peak run : ℚ) (hpeak : 0 < peak)
    (hrun : 0 < run) :
    r.BackedByColumns (.fin rate) (.fin tol) ⟨.fin run, .fin peak⟩ ↔
      r.bytes ≠ 0 ∨ (r.ops ≠ 0 ∧ 0 < rate) := by
  rw [← r.hasColumn_iff rate peak run]
  constructor
  · intro h
    by_contra hnone
    rw [not_or, not_not, not_not] at hnone
    exact not_backedByColumns hpeak hrun hnone h
  · exact backedByColumns_of_column hpeak hrun

/-- Bytes of 100 cycles at the peak, in a record of 100 cycles. -/
theorem backedByColumns_bytes :
    let r : TeleRecord := ⟨0, "X", .memory, 0, 1000, 100, 41860, 0, 0⟩
    r.BackedByColumns (.fin 0) (.fin 5) ⟨.fin 1.455, .fin 609⟩ ↔
      r.bytes ≠ 0 ∨ (r.ops ≠ 0 ∧ (0 : ℚ) < 0) :=
  backedByColumns_iff _ 0 5 609 1.455 (by norm_num) (by norm_num)

/-- A record of zeros is classified as memory, and has no column. -/
theorem not_backedByColumns_of_zeros : ¬ ∀ (r : TeleRecord) (rate tol peak run : ℚ),
    0 ≤ rate → 0 ≤ tol → 0 < peak → 0 < run →
      r.BackedByColumns (.fin rate) (.fin tol) ⟨.fin run, .fin peak⟩ := by
  intro h
  have hzeros := h ⟨0, "X", .memory, 0, 0, 0, 0, 0, 0⟩ 0 0 609 1.455 le_rfl le_rfl (by norm_num)
    (by norm_num)
  exact not_backedByColumns (by norm_num) (by norm_num) ⟨rfl, rfl⟩ hzeros

end TeleRecord

end CalxMill
