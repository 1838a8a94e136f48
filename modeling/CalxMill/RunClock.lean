import CalxMill.Lib.Median
import CalxMill.Telemetry

/-!
# The clock of a run

The consensus clock is the upper median of the clocks of the live records.  As
long as these agree in their majority, the other records move neither the
consensus nor any conversion out of the majority's interval.
-/

namespace CalxMill

open Lib Rust

def clockSanityGhz : F64 × F64 := (.fin 0.4, .fin 3.5)

/-- `sort_by` with a comparison that panics on NaN. -/
def sortFinite (cs : List F64) : Exec Str (List F64) :=
  if 2 ≤ cs.length ∧ cs.any (· = .nan) then
    Exec.panic "called `Option::unwrap()` on a `None` value"
  else pure (cs.insertionSort (· ≤ ·))

def runClockGhz (recs : List TeleRecord) : Exec Str (Option F64) := do
  let cs := recs.filterMap (·.derivedClockGhz)
  if cs = [] then return none
  let cs ← sortFinite cs
  let c ← Exec.expect "index out of bounds" cs[cs.length / 2]?
  if c < clockSanityGhz.1 ∨ clockSanityGhz.2 < c then return none
  return some c

def TeleCtx.derive (recs : List TeleRecord) (peakDramGbps : F64) : Exec Str (Option TeleCtx) := do
  let clock ← CalxMill.runClockGhz recs
  return clock.map fun c ↦ ⟨c, peakDramGbps⟩

namespace TeleRecord

/-- Both counters of the record are live. -/
def Live (r : TeleRecord) : Prop := r.spanNs ≠ 0 ∧ r.cycles ≠ 0

instance (r : TeleRecord) : Decidable r.Live := inferInstanceAs (Decidable (_ ∧ _))

/-- Cycles over nanoseconds. -/
def clock (r : TeleRecord) : ℚ := r.cycles.toNat / r.spanNs

variable {r : TeleRecord}

theorem derivedClockGhz_eq (r : TeleRecord) :
    r.derivedClockGhz = if r.Live then some (.fin r.clock) else none := by
  have hlive : r.Live ↔ ¬ (r.spanNs = 0 ∨ r.cycles = 0) := not_or.symm
  rw [derivedClockGhz]
  by_cases h : r.spanNs = 0 ∨ r.cycles = 0
  · rw [if_pos h, if_neg (mt hlive.mp (not_not.mpr h))]
  · have hspan : (r.spanNs : ℚ) ≠ 0 := Nat.cast_ne_zero.mpr (not_or.mp h).1
    rw [if_neg h, if_pos (hlive.mpr h)]
    exact congrArg some (ExtNum.fin_div _ hspan)

/-- The record's own clock when it is within the tolerance of the consensus. -/
def effectiveClock (r : TeleRecord) (run : ℚ) : ℚ :=
  if r.Live ∧ |r.clock - run| ≤ 0.05 * run then r.clock else run

theorem effectiveClockGhz_eq (r : TeleRecord) (run : ℚ) (peak : F64) :
    r.effectiveClockGhz ⟨.fin run, peak⟩ = .fin (r.effectiveClock run) := by
  rw [effectiveClockGhz, effectiveClock, clockPlausible, derivedClockGhz_eq]
  by_cases hlive : r.Live
  · have hnear : (.fin r.clock - .fin run : F64).abs ≤ clockTolFrac * .fin run ↔
        |r.clock - run| ≤ 0.05 * run := by
      rw [ExtNum.fin_sub]
      exact Iff.rfl
    by_cases h : |r.clock - run| ≤ 0.05 * run
    · simp only [hlive, hnear, h, if_true, and_self, decide_true]
    · simp only [hlive, hnear, h, if_true, if_false, and_false, decide_false,
        Bool.false_eq_true]
  · simp only [hlive, if_false, false_and]

/-- A record converts at a clock within the tolerance around the consensus. -/
theorem effectiveClock_near {run : ℚ} (hrun : 0 ≤ run) (r : TeleRecord) :
    |r.effectiveClock run - run| ≤ 0.05 * run := by
  rw [effectiveClock]
  split
  next h => exact h.2
  next =>
    rw [sub_self, abs_zero]
    positivity

theorem effectiveClock_pos {run : ℚ} (hrun : 0 < run) (r : TeleRecord) :
    0 < r.effectiveClock run := by
  have hnear := (abs_le.mp (r.effectiveClock_near hrun.le)).1
  linarith

end TeleRecord

/-- The clocks of the live records, in the order of the file. -/
def liveClocks (recs : List TeleRecord) : List ℚ :=
  (recs.filter fun r ↦ r.Live).map TeleRecord.clock

theorem filterMap_derivedClockGhz (recs : List TeleRecord) :
    recs.filterMap (·.derivedClockGhz) = (liveClocks recs).map .fin := by
  induction recs with
  | nil => rfl
  | cons r recs ih =>
      rw [List.filterMap_cons, TeleRecord.derivedClockGhz_eq, liveClocks, List.filter_cons]
      by_cases h : r.Live
      · simp only [h, if_true, decide_true, List.map_cons]
        rw [ih, liveClocks]
      · simp only [h, if_false, decide_false, Bool.false_eq_true]
        rw [ih, liveClocks]

theorem sortFinite_map_fin (qs : List ℚ) :
    sortFinite (qs.map .fin) = .ok ((qs.insertionSort (· ≤ ·)).map .fin) := by
  have hnan : ¬ (2 ≤ (qs.map ExtNum.fin).length ∧ (qs.map ExtNum.fin).any (· = .nan)) := by simp
  rw [sortFinite, if_neg hnan, ExtNum.insertionSort_map_fin]
  rfl

theorem upperMedian_ne_none {qs : List ℚ} (h : qs ≠ []) : ∃ q, upperMedian qs = some q := by
  have hpos := List.length_pos_iff.mpr h
  have hmid : qs.length / 2 < (qs.insertionSort (· ≤ ·)).length := by
    rw [List.length_insertionSort]
    omega
  exact ⟨_, List.getElem?_eq_getElem hmid⟩

/-- The run never panics: its clock is the upper median, refused outside the
sanity band. -/
theorem runClockGhz_eq (recs : List TeleRecord) :
    runClockGhz recs = .ok (((upperMedian (liveClocks recs)).filter
      fun c ↦ 0.4 ≤ c ∧ c ≤ 3.5).map .fin) := by
  rw [runClockGhz, filterMap_derivedClockGhz]
  by_cases hnil : liveClocks recs = []
  · rw [hnil]
    rfl
  · obtain ⟨q, hq⟩ := upperMedian_ne_none hnil
    have hne : (liveClocks recs).map ExtNum.fin ≠ [] := mt List.map_eq_nil_iff.mp hnil
    have hget : ((liveClocks recs).insertionSort (· ≤ ·))[(liveClocks recs).length / 2]? = some q :=
      hq
    have hband : ((.fin q : F64) < clockSanityGhz.1 ∨ clockSanityGhz.2 < (.fin q : F64)) ↔
        ¬ (0.4 ≤ q ∧ q ≤ 3.5) := by
      rw [not_and_or, not_le, not_le]
      exact Iff.rfl
    rw [if_neg hne, sortFinite_map_fin, hq]
    simp only [bind, Except.bind, List.length_map, List.length_insertionSort, List.getElem?_map,
      hget, Option.map_some, Exec.expect_some, hband]
    by_cases hin : 0.4 ≤ q ∧ q ≤ 3.5
    · rw [if_neg (not_not.mpr hin), Option.filter_some, if_pos (decide_eq_true hin)]
      rfl
    · rw [if_pos hin, Option.filter_some, if_neg (by simpa using hin)]
      rfl

theorem countP_liveClocks (recs : List TeleRecord) (lo hi : ℚ) :
    (liveClocks recs).countP (fun c ↦ lo ≤ c ∧ c ≤ hi) =
      recs.countP (fun r ↦ r.Live ∧ lo ≤ r.clock ∧ r.clock ≤ hi) := by
  rw [liveClocks, List.countP_map, List.countP_filter]
  apply List.countP_congr
  intro r _
  simp [and_comm]

theorem length_liveClocks (recs : List TeleRecord) :
    (liveClocks recs).length = recs.countP fun r ↦ r.Live := by
  rw [liveClocks, List.length_map, List.countP_eq_length_filter]

/-- A minority of records moves the clock of no record out of the interval of
the majority. -/
theorem runClockGhz_breakdown (recs : List TeleRecord) (lo hi : ℚ) (hlo : 0.4 ≤ lo)
    (hhi : hi ≤ 3.5)
    (h : recs.countP (fun r ↦ r.Live) <
      2 * recs.countP (fun r ↦ r.Live ∧ lo ≤ r.clock ∧ r.clock ≤ hi)) :
    ∃ c, runClockGhz recs = .ok (some (.fin c)) ∧ lo ≤ c ∧ c ≤ hi ∧
      ∀ peak, TeleCtx.derive recs peak = .ok (some ⟨.fin c, peak⟩) ∧
        ∀ r ∈ recs, ∃ e, r.effectiveClockGhz ⟨.fin c, peak⟩ = .fin e ∧
          0.95 * lo ≤ e ∧ e ≤ 1.05 * hi := by
  rw [← length_liveClocks, ← countP_liveClocks] at h
  obtain ⟨c, hc, hloc, hchi⟩ := upperMedian_mem_Icc h
  have hclock : runClockGhz recs = .ok (some (.fin c)) := by
    have hband : 0.4 ≤ c ∧ c ≤ 3.5 := ⟨hlo.trans hloc, hchi.trans hhi⟩
    rw [runClockGhz_eq, hc, Option.filter_some, if_pos (decide_eq_true hband)]
    rfl
  refine ⟨c, hclock, hloc, hchi, ?_⟩
  intro peak
  constructor
  · rw [TeleCtx.derive, hclock]
    rfl
  · intro r _
    have hpos : (0 : ℚ) ≤ c := by linarith
    obtain ⟨hbelow, habove⟩ := abs_le.mp (r.effectiveClock_near hpos)
    exact ⟨_, r.effectiveClockGhz_eq c peak, by linarith, by linarith⟩

/-- Three records at 1.9 GHz and two corrupt ones. -/
theorem runClockGhz_two_of_five :
    let recs : List TeleRecord := [⟨0, "X", .memory, 0, 1000, 1900, 0, 0, 0⟩,
      ⟨1, "X", .memory, 0, 1000, 4242, 0, 0, 0⟩, ⟨2, "X", .memory, 0, 1000, 1905, 0, 0, 0⟩,
      ⟨3, "X", .memory, 0, 1000, 1910, 0, 0, 0⟩, ⟨4, "X", .memory, 0, 1000, 7, 0, 0, 0⟩]
    ∃ c, runClockGhz recs = .ok (some (.fin c)) ∧ 1.9 ≤ c ∧ c ≤ 1.91 ∧
      ∀ peak, TeleCtx.derive recs peak = .ok (some ⟨.fin c, peak⟩) ∧
        ∀ r ∈ recs, ∃ e, r.effectiveClockGhz ⟨.fin c, peak⟩ = .fin e ∧
          0.95 * 1.9 ≤ e ∧ e ≤ 1.05 * 1.91 :=
  runClockGhz_breakdown _ 1.9 1.91 (by norm_num) (by norm_num) (by decide +kernel)

end CalxMill
