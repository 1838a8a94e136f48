import CalxMill.Lib.Median
import CalxMill.Nvidia.MkTable
import Mathlib.Tactic.FieldSimp
import Mathlib.Tactic.Linarith
import Mathlib.Tactic.Positivity

/-!
# What an `ok` flag says

The verification rule over the rationals, and the samples on which the flag of
a published row agrees with it.  The checks divide by the signed median and
look at two GPUs, so they are blind to a median that is not positive and to
any further GPU.
-/

namespace CalxMill.Nvidia

open Lib Rust

/-! ## The rule -/

namespace Sample

variable (s : Sample ℚ)

def value : ℚ := sortedMedian s.runVals

def cv : ℚ := sortedMedian s.cvs

/-- Any two run values differ by at most the noise, in percent of the median. -/
def SpreadWithin (floor : ℚ) : Prop :=
  ∀ a ∈ s.runVals, ∀ b ∈ s.runVals, a - b ≤ max s.cv floor / 100 * |s.value|

/-- The medians of any two of these GPUs differ by at most the noise. -/
def GpusWithin (gpus : List (Str × List ℚ)) : Prop :=
  ∀ e ∈ gpus, ∀ e' ∈ gpus,
    |sortedMedian e.2 - sortedMedian e'.2| ≤ max (2 * s.cv) 0.3 / 100 * |s.value|

def PriorWithin (prior : Option ℚ) : Prop := ∀ pv ∈ prior, |s.value - pv| ≤ 25 / 100 * |pv|

structure Verified (floor : ℚ) (prior : Option ℚ) : Prop where
  invocations : 2 ≤ s.runVals.length
  spread : s.SpreadWithin floor
  gpus : s.GpusWithin s.gpuVals
  prior : s.PriorWithin prior

/-- What the checks of the code let pass: with a median that is not positive
they compare nothing, and otherwise they compare the first two GPUs. -/
structure Passes (floor : ℚ) (prior : Option ℚ) : Prop where
  invocations : 2 ≤ s.runVals.length
  spread : 0 < s.value → s.SpreadWithin floor
  gpus : 0 < s.value → s.GpusWithin (s.gpuVals.take 2)
  prior : s.PriorWithin prior

/-- The sample is in the rule's tolerance where the checks are blind to it:
when the median is not positive, and at the GPUs behind the first two. -/
def BlindSpotsWithin (floor : ℚ) : Prop :=
  if 0 < s.value then
    s.SpreadWithin floor → s.GpusWithin (s.gpuVals.take 2) → s.GpusWithin s.gpuVals
  else s.SpreadWithin floor ∧ s.GpusWithin s.gpuVals

theorem passes_imp_verified_iff {floor : ℚ} {prior : Option ℚ} :
    (s.Passes floor prior → s.Verified floor prior) ↔
      (2 ≤ s.runVals.length → s.PriorWithin prior → s.BlindSpotsWithin floor) := by
  rw [BlindSpotsWithin]
  split
  next hpos =>
    constructor
    · intro h hn hprior hspread hgpus
      exact (h ⟨hn, fun _ ↦ hspread, fun _ ↦ hgpus, hprior⟩).gpus
    · intro h hp
      have hspread := hp.spread hpos
      exact ⟨hp.invocations, hspread, h hp.invocations hp.prior hspread (hp.gpus hpos), hp.prior⟩
  next hpos =>
    constructor
    · intro h hn hprior
      have hv := h ⟨hn, fun h ↦ absurd h hpos, fun h ↦ absurd h hpos, hprior⟩
      exact ⟨hv.spread, hv.gpus⟩
    · intro h hp
      obtain ⟨hspread, hgpus⟩ := h hp.invocations hp.prior
      exact ⟨hp.invocations, hspread, hgpus, hp.prior⟩

/-- Positive values on at most two GPUs leave the checks no blind spot. -/
theorem blindSpotsWithin_of_pos {floor : ℚ} (hne : s.runVals ≠ []) (hpos : ∀ a ∈ s.runVals, 0 < a)
    (hgpus : s.gpuVals.length ≤ 2) : s.BlindSpotsWithin floor := by
  have hvalue : 0 < s.value := sortedMedian_pos hne hpos
  rw [BlindSpotsWithin]
  rw [if_pos hvalue, List.take_of_length_le hgpus]
  exact fun _ h ↦ h

end Sample

/-! ## The checks of the code -/

theorem median_map_fin {l : List ℚ} (hl : l ≠ []) :
    median (l.map .fin) = .ok (.fin (sortedMedian l)) := by
  have hnan : ¬ (2 ≤ (l.map ExtNum.fin).length ∧ ExtNum.nan ∈ l.map ExtNum.fin) := by simp
  have hpos : 0 < (l.insertionSort (· ≤ ·)).length := by
    rw [List.length_insertionSort]
    exact List.length_pos_iff.mpr hl
  rw [median, sortedMedian]
  rw [if_neg hnan, ExtNum.insertionSort_map_fin]
  generalize l.insertionSort (· ≤ ·) = v at hpos
  have hget : ∀ i < v.length, (v.map ExtNum.fin)[i]? = some (.fin (v.getD i 0)) := by
    intro i hi
    simp [List.getElem?_eq_getElem hi]
  dsimp only [bind, Except.bind, pure, Except.pure]
  rw [List.length_map]
  split
  next =>
    rw [hget _ (by omega)]
    rfl
  next =>
    rw [if_neg hpos.ne', hget _ (by omega), hget _ (by omega)]
    exact congrArg Except.ok (ExtNum.fin_div _ two_ne_zero)

/-- A difference exceeds the tolerance only when the median is positive. -/
theorem lt_percent_iff {t d m : ℚ} (ht : 0 < t) (hd : 0 ≤ d) :
    (.fin t : F64) < percent (.fin d) (.fin m) ↔ 0 < m ∧ ¬ d ≤ t / 100 * |m| := by
  rw [percent]
  rcases lt_trichotomy m 0 with hm | rfl | hm
  · have hle : 100 * d / m ≤ 0 := div_nonpos_of_nonneg_of_nonpos (by positivity) hm.le
    have hne : (.fin m : F64) ≠ 0 := fun h ↦ hm.ne (ExtNum.fin.inj h)
    rw [if_neg hne, ExtNum.fin_mul, ExtNum.fin_div _ hm.ne, ExtNum.fin_lt_fin]
    exact iff_of_false (by linarith) fun h ↦ hm.not_gt h.1
  · simpa using ht.le
  · have hne : (.fin m : F64) ≠ 0 := fun h ↦ hm.ne' (ExtNum.fin.inj h)
    rw [if_neg hne, ExtNum.fin_mul, ExtNum.fin_div _ hm.ne', ExtNum.fin_lt_fin, lt_div_iff₀ hm,
      abs_of_pos hm, not_le]
    constructor
    · exact fun h ↦ ⟨hm, by linarith⟩
    · exact fun h ↦ by linarith [h.2]

theorem deviation_exceeds_iff {m pv : ℚ} :
    (.fin 25 < (.fin 100 * (.fin m - .fin pv) / .fin pv : F64).abs) ↔
      ¬ |m - pv| ≤ 25 / 100 * |pv| := by
  rw [ExtNum.fin_sub, ExtNum.fin_mul]
  by_cases hpv : pv = 0
  · subst hpv
    -- a zero prior: the quotient is an infinity, or NaN for a zero median
    by_cases hm : m = 0
    · subst hm
      simp
    · rw [ExtNum.fin_div_zero (by simpa using hm), ExtNum.abs_inf]
      exact iff_of_true trivial (by simpa using hm)
  · have hpos : 0 < |pv| := abs_pos.mpr hpv
    rw [ExtNum.fin_div _ hpv, ExtNum.abs_fin, ExtNum.fin_lt_fin, abs_div, abs_mul, not_le,
      lt_div_iff₀ hpos, abs_of_pos (by norm_num : (0 : ℚ) < 100)]
    constructor
    · exact fun h ↦ by linarith
    · exact fun h ↦ by linarith

theorem noiseFloor_le (kind unit : Str) : noiseFloor kind unit ≤ 5 := by
  rw [noiseFloor]
  split_ifs <;> norm_num

theorem noiseFloor_pos (kind unit : Str) : 0 < noiseFloor kind unit := by
  rw [noiseFloor]
  split_ifs <;> norm_num

theorem betweenRuns_eq_none {s : Sample ℚ} {floor : ℚ} (hfloor : 0 < floor) :
    betweenRuns (s.map .fin) (.fin s.value) (.fin s.cv) floor = none ↔
      2 ≤ s.runVals.length ∧ (0 < s.value → s.SpreadWithin floor) := by
  rw [betweenRuns]
  by_cases hn : s.runVals.length < 2
  · simp [Sample.map, hn]
  have hne : s.runVals ≠ [] := by
    rintro h
    simp [h] at hn
  obtain ⟨hi, hhi, hle, hmax⟩ := ExtNum.foldl_fmax_fin hne
  obtain ⟨lo, hlo, hge, hmin⟩ := ExtNum.foldl_fmin_fin hne
  have hspread : s.SpreadWithin floor ↔ hi - lo ≤ max s.cv floor / 100 * |s.value| := by
    constructor
    · exact fun h ↦ h hi hhi lo hlo
    · intro h a ha b hb
      linarith [hle a ha, hge b hb]
  have hmap : (s.map ExtNum.fin).runVals = s.runVals.map .fin := rfl
  rw [hmap, List.length_map, if_neg hn, hmax, hmin]
  dsimp only
  have hnoise : 0 < max s.cv floor := lt_max_of_lt_right hfloor
  rw [ExtNum.fmax_fin, ExtNum.fin_sub, ite_eq_right_iff, hspread,
    lt_percent_iff hnoise (sub_nonneg.mpr (hle lo hlo))]
  simp [Nat.not_lt.mp hn]

theorem gpusWithin_of_length_lt {s : Sample ℚ} {gpus : List (Str × List ℚ)}
    (h : gpus.length < 2) : s.GpusWithin gpus := by
  intro e he e' he'
  obtain ⟨i, hi, rfl⟩ := List.mem_iff_getElem.mp he
  obtain ⟨j, hj, rfl⟩ := List.mem_iff_getElem.mp he'
  obtain rfl : i = j := by omega
  rw [sub_self, abs_zero]
  positivity

theorem gpusWithin_pair {s : Sample ℚ} {g g' : Str × List ℚ} :
    s.GpusWithin [g, g'] ↔
      |sortedMedian g.2 - sortedMedian g'.2| ≤ max (2 * s.cv) 0.3 / 100 * |s.value| := by
  constructor
  · intro h
    apply h g _ g'
    · simp
    · simp
  · intro h e he e' he'
    have hself : (0 : ℚ) ≤ max (2 * s.cv) 0.3 / 100 * |s.value| := by positivity
    simp only [List.mem_cons, List.not_mem_nil, or_false] at he he'
    rcases he with rfl | rfl <;> rcases he' with rfl | rfl
    · simpa using hself
    · exact h
    · rwa [abs_sub_comm]
    · simpa using hself

theorem eq_sortedMedian {l : List ℚ} {v : F64} (h : median (l.map .fin) = .ok v) :
    v = .fin (sortedMedian l) := by
  by_cases hl : l = []
  · subst hl
    cases h
  · exact (Except.ok.inj ((median_map_fin hl).symm.trans h)).symm

theorem betweenGpus_eq_none {s : Sample ℚ} {gpus : Option Str}
    (h : betweenGpus (s.map .fin) (.fin s.value) (.fin s.cv) = .ok gpus) :
    gpus = none ↔ (0 < s.value → s.GpusWithin (s.gpuVals.take 2)) := by
  rw [betweenGpus] at h
  have hmap : (s.map ExtNum.fin).gpuVals = s.gpuVals.map fun e ↦ (e.1, e.2.map .fin) := rfl
  rw [hmap, List.length_map] at h
  by_cases hlen : s.gpuVals.length < 2
  · have hwithin : s.GpusWithin (s.gpuVals.take 2) := by
      apply gpusWithin_of_length_lt
      rw [List.length_take]
      omega
    rw [if_pos hlen, Exec.pure_eq_ok] at h
    simp [← h, hwithin]
  · obtain ⟨g₀, tail, hg⟩ := List.exists_cons_of_length_pos (by omega : 0 < s.gpuVals.length)
    have htail : 0 < tail.length := by
      rw [hg, List.length_cons] at hlen
      omega
    obtain ⟨g₁, rest, rfl⟩ := List.exists_cons_of_length_pos htail
    rw [if_neg hlen] at h
    simp only [hg, List.map_cons, List.mapM_cons, Exec.bind_eq_ok, Exec.pure_eq_ok] at h
    obtain ⟨meds, ⟨m₀, hm₀, tail, ⟨m₁, hm₁, tail', -, rfl⟩, rfl⟩, a, ha, b, hb, rfl⟩ := h
    obtain rfl := eq_sortedMedian hm₀
    obtain rfl := eq_sortedMedian hm₁
    simp only [List.getElem?_cons_zero, List.getElem?_cons_succ, Exec.expect_some,
      Except.ok.injEq] at ha hb
    subst ha hb
    have hwithin : s.GpusWithin (s.gpuVals.take 2) ↔
        |sortedMedian g₀.2 - sortedMedian g₁.2| ≤ max (2 * s.cv) 0.3 / 100 * |s.value| := by
      rw [hg]
      exact gpusWithin_pair
    have hnoise : (0 : ℚ) < max (2 * s.cv) 0.3 := by positivity
    rw [ExtNum.fin_mul, ExtNum.fmax_fin, ExtNum.fin_sub, ExtNum.abs_fin, ite_eq_right_iff,
      hwithin, lt_percent_iff hnoise (abs_nonneg _)]
    simp

/-! ## Finite inputs -/

/-- A text that reads as a number reads as a finite one. -/
def FiniteText (s : Str) : Prop := ∀ x, F64.parse s = some x → ∃ q, x = .fin q

instance decidableFiniteText (s : Str) : Decidable (FiniteText s) :=
  match h : F64.parse s with
  | none => isTrue fun x hx ↦ by simp [h] at hx
  | some (.fin q) => isTrue fun x hx ↦ ⟨q, by simpa [h] using hx.symm⟩
  | some .nan => isFalse fun hs ↦ by simpa using hs _ h
  | some (.inf _) => isFalse fun hs ↦ by simpa using hs _ h

theorem fval_finite {s : Str} {x : F64} (hs : FiniteText s) (h : fval s = .ok x) :
    ∃ q, x = .fin q :=
  hs x (Exec.expect_eq_ok.mp h)

def FiniteMeas (m : Meas) : Prop := FiniteText m.value ∧ FiniteText m.cvPct

instance : DecidablePred FiniteMeas := fun m ↦
  inferInstanceAs (Decidable (FiniteText m.value ∧ FiniteText m.cvPct))

def Sample.toRat (s : Sample F64) : Sample ℚ := s.map ExtNum.val

/-- The numbers of the sample satisfy `P`. -/
structure Sample.All {K : Type*} (P : K → Prop) (s : Sample K) : Prop where
  runVals : ∀ a ∈ s.runVals, P a
  gpuVals : ∀ e ∈ s.gpuVals, ∀ a ∈ e.2, P a
  cvs : ∀ a ∈ s.cvs, P a

theorem Sample.All.eq_map {s : Sample F64} (h : s.All fun a ↦ ∃ q, a = .fin q) :
    s.toRat.map .fin = s := by
  obtain ⟨runVals, gpuVals, cvs, variant⟩ := s
  have hgpus : (gpuVals.map fun e ↦ (e.1, e.2.map ExtNum.val)).map
      (fun e ↦ (e.1, e.2.map ExtNum.fin)) = gpuVals := by
    rw [List.map_map]
    conv_rhs => rw [← List.map_id gpuVals]
    apply List.map_congr_left
    intro e he
    exact congrArg (e.1, ·) (ExtNum.map_fin_val (h.gpuVals e he))
  simp only [Sample.toRat, Sample.map, hgpus, ExtNum.map_fin_val h.runVals,
    ExtNum.map_fin_val h.cvs]

theorem perGpu_all {P : F64 → Prop} {vals : List (Str × F64)} (h : ∀ v ∈ vals, P v.2) :
    ∀ e ∈ perGpu vals, ∀ a ∈ e.2, P a := by
  intro e he a ha
  obtain ⟨g, hg, rfl⟩ := List.mem_map.mp he
  obtain ⟨v, hv, rfl⟩ := List.mem_map.mp ha
  exact h v ((Assoc.mem_groupOn hg).2 v hv).1

/-- The peak of a sweep is one of its measurements. -/
theorem sweepPeak_eq_ok {e : (Str × Str) × List Meas} {p : Peak} (h : sweepPeak e = .ok p) :
    ∃ m ∈ e.2, fval m.value = .ok p.value ∧ fval m.cvPct = .ok p.cv := by
  simp only [sweepPeak, Exec.bind_eq_ok, Exec.expect_eq_ok, Exec.pure_eq_ok] at h
  obtain ⟨first, hfirst, m, hm, value, hvalue, cv, hcv, rfl⟩ := h
  refine ⟨m, ?_, hvalue, hcv⟩
  have hmem : first ∈ e.2 := List.mem_of_head? hfirst
  refine Exec.foldlM_invariant (· ∈ e.2) (fun b c hc b' hb hstep ↦ ?_) hmem hm
  simp only [higher, Exec.bind_eq_ok, Exec.pure_eq_ok] at hstep
  obtain ⟨-, -, -, -, rfl⟩ := hstep
  split
  · exact List.mem_of_mem_tail hc
  · exact hb

theorem sample_finite {g : Group} {s : Sample F64} (hfin : ∀ m ∈ g.members, FiniteMeas m)
    (h : sample g = .ok s) : s.All fun a ↦ ∃ q, a = .fin q := by
  rw [sample] at h
  split at h
  next =>
    simp only [Exec.bind_eq_ok, Exec.pure_eq_ok] at h
    obtain ⟨peaks, hpeaks, best, -, rfl⟩ := h
    have hpeak : ∀ p ∈ peaks, (∃ q, p.value = .fin q) ∧ ∃ q, p.cv = .fin q := by
      intro p hp
      obtain ⟨e, he, hep⟩ := Exec.mem_of_mapM_eq_ok hpeaks hp
      obtain ⟨m, hm, hvalue, hcv⟩ := sweepPeak_eq_ok hep
      have hm' := hfin m ((Assoc.mem_groupOn he).2 m hm).1
      exact ⟨fval_finite hm'.1 hvalue, fval_finite hm'.2 hcv⟩
    refine ⟨?_, perGpu_all ?_, ?_⟩
    · exact List.forall_mem_map.mpr fun p hp ↦ (hpeak p hp).1
    · exact List.forall_mem_map.mpr fun p hp ↦ (hpeak p hp).1
    · exact List.forall_mem_map.mpr fun p hp ↦ (hpeak p hp).2
  next =>
    simp only [Exec.bind_eq_ok, Exec.pure_eq_ok] at h
    obtain ⟨values, hvalues, cvs, hcvs, rfl⟩ := h
    have hvalue : ∀ a ∈ values, ∃ q, a = .fin q := by
      intro a ha
      obtain ⟨m, hm, hma⟩ := Exec.mem_of_mapM_eq_ok hvalues ha
      exact fval_finite (hfin m hm).1 hma
    refine ⟨hvalue, perGpu_all fun v hv ↦ hvalue v.2 (List.of_mem_zip hv).2, fun a ha ↦ ?_⟩
    obtain ⟨m, hm, hma⟩ := Exec.mem_of_mapM_eq_ok hcvs ha
    exact fval_finite (hfin m hm).2 hma

/-! ## Published rows -/

/-- The number of a prior. -/
def Prior.toRat (p : Prior) : ℚ := ((F64.parse p.priorValue).getD .nan).val

/-- What the rule and the checks read of a group under these priors. -/
def groupPrior (priors : List (Str × Prior)) (g : Group) (s : Sample F64) : Option ℚ :=
  (boundPrior priors g s.variant).map Prior.toRat

theorem rowFlag_eq_ok {runs gpus : Option Str} {dev : Option F64} :
    rowFlag runs gpus dev = .ok ↔ runs = none ∧ gpus = none ∧ ∀ d ∈ dev, ¬ .fin 25 < d.abs := by
  rw [rowFlag]
  cases runs <;> cases gpus <;> cases dev <;> simp

theorem publish_eq_ok {priors : List (Str × Prior)} {labels : List (Str × Str)} {g : Group}
    {p : Published} (h : publish priors labels g = .ok p) :
    ∃ value cv gpus dev, sample g = .ok p.sample ∧ median p.sample.runVals = .ok value ∧
      cvMedian p.sample.cvs = .ok cv ∧
      betweenGpus p.sample value cv = .ok gpus ∧
      (boundPrior priors g p.sample.variant).mapM (deviation value) = .ok dev ∧
      p.row.flag =
        rowFlag (betweenRuns p.sample value cv (noiseFloor g.kind g.unit)) gpus dev := by
  simp only [publish, Exec.bind_eq_ok, Exec.pure_eq_ok] at h
  obtain ⟨s, hs, value, hvalue, cv, hcv, gpus, hgpus, dev, hdev, rfl⟩ := h
  exact ⟨value, cv, gpus, dev, hs, hvalue, hcv, hgpus, hdev, rfl⟩

theorem cvMedian_map_fin {l : List ℚ} {cv : F64} (h : cvMedian (l.map .fin) = .ok cv) :
    cv = .fin (sortedMedian l) := by
  rw [cvMedian] at h
  by_cases hl : l = []
  · subst hl
    rw [List.map_nil, if_pos rfl, Exec.pure_eq_ok] at h
    simp [← h, sortedMedian]
  · rw [if_neg (by simpa using hl)] at h
    exact eq_sortedMedian h

theorem boundPrior_mem {priors : List (Str × Prior)} {g : Group} {variant : Str} {p : Prior}
    (h : boundPrior priors g variant = some p) : ∃ e ∈ priors, e.2 = p := by
  have hlookup : ∀ k, priors.lookup k = some p → ∃ e ∈ priors, e.2 = p := by
    intro k hk
    obtain ⟨l₁, l₂, rfl, -⟩ := List.lookup_eq_some_iff.mp hk
    exact ⟨(k, p), List.mem_append_right _ List.mem_cons_self, rfl⟩
  simp only [boundPrior] at h
  split at h
  next => cases h
  next =>
    rcases Option.or_eq_some_iff.mp h with h | ⟨-, h⟩
    · exact hlookup _ h
    · exact hlookup _ h

theorem deviation_eq_ok {m : ℚ} {p : Prior} {d : F64} (hp : FiniteText p.priorValue)
    (h : deviation (.fin m) p = .ok d) :
    (.fin 25 : F64) < d.abs ↔ ¬ |m - p.toRat| ≤ 25 / 100 * |p.toRat| := by
  simp only [deviation, Exec.bind_eq_ok, Exec.pure_eq_ok] at h
  obtain ⟨x, hx, rfl⟩ := h
  obtain ⟨pv, rfl⟩ := fval_finite hp hx
  have hpv : p.toRat = pv := by
    rw [Prior.toRat, Exec.expect_eq_ok.mp hx]
    rfl
  rw [hpv]
  exact deviation_exceeds_iff

/-- The flag of a published row is `ok` exactly when the checks pass. -/
theorem flag_eq_ok_iff {priors : List (Str × Prior)} {labels : List (Str × Str)} {g : Group}
    {p : Published} (hg : ∀ m ∈ g.members, FiniteMeas m)
    (hpriors : ∀ e ∈ priors, FiniteText e.2.priorValue) (h : publish priors labels g = .ok p) :
    p.row.flag = .ok ↔
      p.sample.toRat.Passes (noiseFloor g.kind g.unit) (groupPrior priors g p.sample) := by
  obtain ⟨value, cv, gpus, dev, hs, hvalue, hcv, hgpus, hdev, hflag⟩ := publish_eq_ok h
  have hfin : p.sample.toRat.map .fin = p.sample := (sample_finite hg hs).eq_map
  generalize hq : p.sample.toRat = q at hfin
  rw [← hfin] at hvalue hcv hgpus
  obtain rfl : value = .fin q.value := eq_sortedMedian hvalue
  obtain rfl : cv = .fin q.cv := cvMedian_map_fin hcv
  have hdev' : (∀ d ∈ dev, ¬ .fin 25 < d.abs) ↔ q.PriorWithin (groupPrior priors g p.sample) := by
    rw [groupPrior]
    cases hprior : boundPrior priors g p.sample.variant with
    | none =>
        rw [hprior] at hdev
        obtain rfl : none = dev := Except.ok.inj hdev
        simp [Sample.PriorWithin]
    | some pr =>
        rw [hprior, Option.mapM_some, Exec.map_eq_ok] at hdev
        obtain ⟨d, hd, rfl⟩ := hdev
        obtain ⟨e, he, rfl⟩ := boundPrior_mem hprior
        simp [Sample.PriorWithin, deviation_eq_ok (hpriors e he) hd]
  have hruns := betweenRuns_eq_none (s := q) (noiseFloor_pos g.kind g.unit)
  rw [hfin] at hruns
  rw [hflag, rowFlag_eq_ok, hruns, betweenGpus_eq_none hgpus, hdev']
  constructor
  · rintro ⟨⟨hn, hspread⟩, hgpu, hprior⟩
    exact ⟨hn, hspread, hgpu, hprior⟩
  · exact fun h ↦ ⟨⟨h.invocations, h.spread⟩, h.gpus, h.prior⟩

/-- Every number that the table reads is finite. -/
structure FiniteInputs (results : List (Str × Str)) (priorsCsv : Str) : Prop where
  values : ∀ labels groups, tableGroups results = .ok (labels, groups) →
    ∀ g ∈ groups, ∀ m ∈ g.members, FiniteMeas m
  priors : ∀ priors, readPriors priorsCsv = .ok priors →
    ∀ e ∈ priors, FiniteText e.2.priorValue

theorem FiniteInputs.of_all {results : List (Str × Str)} {priorsCsv : Str}
    (hvalues : ∀ t ∈ (tableGroups results).toOption, ∀ g ∈ t.2, ∀ m ∈ g.members, FiniteMeas m)
    (hpriors : ∀ priors ∈ (readPriors priorsCsv).toOption, ∀ e ∈ priors,
      FiniteText e.2.priorValue) :
    FiniteInputs results priorsCsv where
  values labels groups h := hvalues (labels, groups) (Exec.toOption_eq_some.mpr h)
  priors priors h := hpriors priors (Exec.toOption_eq_some.mpr h)

/-- The table consists of published rows and absences, and a row that it flags
`ok` is a published one whose group meets the rule. -/
def OkRowsVerified (results : List (Str × Str)) (priorsCsv : Str) (naCsv : Option Str)
    (out : Str × ℕ) : Prop :=
  ∃ priors published absent, readPriors priorsCsv = .ok priors ∧
    tableRows results priorsCsv naCsv = .ok (published, absent) ∧
    out.1 = render (published.map Published.row ++ absent) ∧
    (∀ p ∈ published, p.row.flag = .ok → p.sample.toRat.Verified
      (noiseFloor p.group.kind p.group.unit) (groupPrior priors p.group p.sample)) ∧
    ∀ r ∈ absent, r.flag ≠ .ok

/-- Every group of two or more invocations whose median is within a quarter of
its prior is in the tolerance of the rule where the checks are blind. -/
def BlindSpotsCovered (results : List (Str × Str)) (priorsCsv : Str) : Prop :=
  ∀ priors labels groups, readPriors priorsCsv = .ok priors →
    tableGroups results = .ok (labels, groups) → ∀ g ∈ groups, ∀ s, sample g = .ok s →
      2 ≤ s.toRat.runVals.length → s.toRat.PriorWithin (groupPrior priors g s) →
        s.toRat.BlindSpotsWithin (noiseFloor g.kind g.unit)

theorem okRowsVerified_iff {results : List (Str × Str)} {priorsCsv : Str} {naCsv : Option Str}
    {out : Str × ℕ} (hfin : FiniteInputs results priorsCsv)
    (hrun : mkTable results priorsCsv naCsv = .ok out) :
    OkRowsVerified results priorsCsv naCsv out ↔ BlindSpotsCovered results priorsCsv := by
  obtain ⟨published, absent, hrows, rfl⟩ := mkTable_eq_ok hrun
  obtain ⟨priors, labels, groups, hpriors, hgroups, hpublished, habsent⟩ := tableRows_eq_ok hrows
  have hflag : ∀ g ∈ groups, ∀ p, publish priors labels g = .ok p → (p.row.flag = .ok ↔ _) :=
    fun g hg p hp ↦ flag_eq_ok_iff (hfin.values _ _ hgroups g hg) (hfin.priors _ hpriors) hp
  constructor
  · rintro ⟨priors', published', absent', hpriors', hrows', -, hverified, -⟩
    obtain rfl := Except.ok.inj (hpriors.symm.trans hpriors')
    obtain ⟨rfl, rfl⟩ := Prod.mk.inj (Except.ok.inj (hrows.symm.trans hrows'))
    intro priors' labels' groups' hpriors' hgroups' g hg s hs
    obtain rfl := Except.ok.inj (hpriors.symm.trans hpriors')
    obtain ⟨rfl, rfl⟩ := Prod.mk.inj (Except.ok.inj (hgroups.symm.trans hgroups'))
    obtain ⟨p, hp, hgp⟩ := Exec.exists_of_mapM_eq_ok hpublished hg
    obtain ⟨rfl, hsample, -⟩ := publish_sample hgp
    obtain rfl := Except.ok.inj (hsample.symm.trans hs)
    apply (Sample.passes_imp_verified_iff _).mp
    intro hpasses
    exact hverified p hp ((hflag p.group hg p hgp).mpr hpasses)
  · intro hcovered
    refine ⟨priors, published, absent, hpriors, hrows, rfl, fun p hp hok ↦ ?_, fun r hr ↦ ?_⟩
    · obtain ⟨g, hg, hgp⟩ := Exec.mem_of_mapM_eq_ok hpublished hp
      have hpasses := (hflag g hg p hgp).mp hok
      obtain ⟨rfl, hsample, -⟩ := publish_sample hgp
      exact (Sample.passes_imp_verified_iff _).mpr
        (hcovered priors labels groups hpriors hgroups _ hg _ hsample) hpasses
    · rw [(absentRows_eq_ok habsent r hr).1]
      decide

/-! ## Two runs -/

/-- A results file of two runs, one on each GPU, with these values. -/
def twoRuns (v₀ v₁ : Str) : List (Str × Str) :=
  [("x.csv",
    lit "run_id,gpu_index,row_id,kind,variant,value,unit,cv_pct,bench_src,git_sha,notes\n" ++
      lit "r0,0,x.err,na,gate," ++ v₀ ++ lit ",pct_err,0,x.cu,a,\n" ++
      lit "r1,1,x.err,na,gate," ++ v₁ ++ lit ",pct_err,0,x.cu,a,\n")]

def noPriors : Str := "row_id,prior_value,prior_src\n"

theorem okRowsVerified_iff_steady :
    ∃ out, mkTable (twoRuns "4.07" "4.08") noPriors none = .ok out ∧
      (OkRowsVerified (twoRuns "4.07" "4.08") noPriors none out ↔
        BlindSpotsCovered (twoRuns "4.07" "4.08") noPriors) := by
  have hfin : FiniteInputs (twoRuns "4.07" "4.08") noPriors :=
    .of_all (by decide +kernel) (by decide +kernel)
  have hrun : (mkTable (twoRuns "4.07" "4.08") noPriors none).toOption.isSome := by
    decide +kernel
  obtain ⟨out, hout⟩ := Option.isSome_iff_exists.mp hrun
  have hout := Exec.toOption_eq_some.mp hout
  exact ⟨out, hout, okRowsVerified_iff hfin hout⟩

/-- The flags of the published rows beside the values they are about. -/
def outcomes (results : List (Str × Str)) (priorsCsv : Str) :
    Option (List (RowFlag × Sample F64)) :=
  (tableRows results priorsCsv none).toOption.map fun t ↦
    t.1.map fun p ↦ (p.row.flag, p.sample)

/-- Two percent errors that are a factor of two apart. -/
def apart : Sample F64 :=
  ⟨[.fin (-1), .fin (-2)], [("0", [.fin (-1)]), ("1", [.fin (-2)])], [.fin 0, .fin 0], "gate"⟩

theorem not_okRowsVerified :
    FiniteInputs (twoRuns "-1" "-2") noPriors ∧
      ∃ out, mkTable (twoRuns "-1" "-2") noPriors none = .ok out ∧
        ¬ OkRowsVerified (twoRuns "-1" "-2") noPriors none out := by
  refine ⟨.of_all (by decide +kernel) (by decide +kernel), ?_⟩
  have houtcomes : outcomes (twoRuns "-1" "-2") noPriors = some [(.ok, apart)] := by
    decide +kernel
  obtain ⟨⟨published, absent⟩, hrows, hmap⟩ := Option.map_eq_some_iff.mp houtcomes
  have hrows := Exec.toOption_eq_some.mp hrows
  refine ⟨_, by rw [mkTable, hrows]; rfl, ?_⟩
  rintro ⟨priors, published', absent', -, hrows', -, hverified, -⟩
  obtain ⟨rfl, rfl⟩ := Prod.mk.inj (Except.ok.inj (hrows.symm.trans hrows'))
  obtain ⟨p, rfl, hp⟩ := List.map_eq_singleton_iff.mp hmap
  obtain ⟨hflag, hsample⟩ := Prod.mk.inj hp
  have hspread := (hverified p List.mem_cons_self hflag).spread
  rw [hsample] at hspread
  have hdiff := hspread (-1) (by decide) (-2) (by decide)
  have hvalue : apart.toRat.value = -3 / 2 := by decide +kernel
  have hcv : apart.toRat.cv = 0 := by decide +kernel
  have hnoise : max 0 (noiseFloor p.group.kind p.group.unit) ≤ 5 :=
    max_le (by norm_num) (noiseFloor_le _ _)
  rw [hvalue, hcv, abs_of_neg (by norm_num)] at hdiff
  linarith

end CalxMill.Nvidia
