import CalxMill.Lib.Tally
import CalxMill.Nvidia.Projectable
import Mathlib.Tactic.FieldSimp
import Mathlib.Tactic.Ring

/-!
# The demand vector of a census

With rates that are positive rationals the projection computes, for every
resource name, the warps times the sum over the census of the counts times what
one instruction uses of that resource; the predicted cycles are the peak of
these demands.
-/

namespace CalxMill.Nvidia

open Lib Rust

/-- The demand on a resource, zero when the result does not list it. -/
def ProjectResult.demand (r : ProjectResult) (name : Str) : ℚ :=
  ((r.perResource.lookup name).map ExtNum.val).getD 0

/-! ## What one instruction uses -/

/-- Cycles per instruction by resource name, with memory at `b` bytes a cycle. -/
def opUse (rates : Rates) (b : ℚ) (mn : Str) : List (Str × ℚ) :=
  ("issue", 1 / 4) ::
    match opClass mn with
    | .control => []
    | .sharedMem bytesPerThread => [("smem", bytesPerThread / 2)]
    | .localMem => []
    | .memory bytesPerWarp => [("mem", bytesPerWarp / b)]
    | .pipe =>
        match opRate rates mn with
        | .ok op => [("pipe:" ++ op.pipe, 1 / op.rate.val)]
        | .error _ => []

def demandOf (rates : Rates) (b : ℚ) (items : List (Str × ℕ)) (name : Str) : ℚ :=
  (items.map fun e ↦ (e.2 : ℚ) * tally (opUse rates b e.1) name).sum

def PositiveValue (r : RateRow) : Prop := ∃ q : ℚ, 0 < q ∧ F64.parse r.value = some (.fin q)

/-- The rows that the projection reads hold positive rationals. -/
structure UsedPositive (rates : Rates) (memClass : MemClass) (items : List (Str × ℕ)) : Prop where
  rows : ∀ e ∈ items, opClass e.1 = .pipe → ∀ r ∈ measuredRow rates e.1, PositiveValue r
  l1 : memClass ≠ .dram → traffic items ≠ 0 → ∀ r ∈ rates.get "mem.l1.bw", PositiveValue r

theorem one_div_ldsInstRate (b : ℕ) : (.fin 1 / ldsInstRate b : F64) = .fin (b / 2) := by
  by_cases hb : (b : ℚ) = 0
  · rw [ldsInstRate, hb, ExtNum.fin_mul, mul_zero, ExtNum.fin_div_zero (by norm_num), zero_div]
    rfl
  · have hwidth : (32 * b : ℚ) ≠ 0 := mul_ne_zero (by norm_num) hb
    have hrate : (64 / (32 * b) : ℚ) ≠ 0 := div_ne_zero (by norm_num) hwidth
    rw [ldsInstRate, ExtNum.fin_mul, ExtNum.fin_div _ hwidth, ExtNum.fin_div _ hrate]
    congr 1
    field_simp
    norm_num

theorem defaultRate_pos (pipe : Str) : ∃ q : ℚ, 0 < q ∧ defaultRate pipe = .fin q := by
  rw [defaultRate]
  split
  · exact ⟨2, by norm_num, rfl⟩
  · split
    · exact ⟨0.5, by norm_num, rfl⟩
    · exact ⟨0.5, by norm_num, rfl⟩

theorem opRate_pos {rates : Rates} {mn : Str} {op : OpRate}
    (hrows : ∀ r ∈ measuredRow rates mn, PositiveValue r) (h : opRate rates mn = .ok op) :
    ∃ q : ℚ, 0 < q ∧ op.rate = .fin q := by
  cases hrow : measuredRow rates mn with
  | none =>
      obtain rfl := Exec.pure_eq_ok.mp ((opRate_of_none hrow).symm.trans h)
      exact defaultRate_pos _
  | some r =>
      obtain ⟨q, hq, hparse⟩ := hrows r hrow
      rw [opRate_of_some hrow, hparse] at h
      obtain rfl := Exec.pure_eq_ok.mp h
      exact ⟨q, hq, rfl⟩

/-! ## The loop over rationals -/

namespace Demands

def lift (d : Demands ℚ) : Demands F64 where
  pipes := d.pipes.map fun e ↦ (e.1, .fin e.2)
  memBytesTotal := .fin d.memBytesTotal
  smemCycles := .fin d.smemCycles
  totalInsts := d.totalInsts
  defaulted := d.defaulted

/-- The demands by resource name, with memory at `b` bytes a cycle. -/
def entries (d : Demands ℚ) (b : ℚ) : List (Str × ℚ) :=
  ("issue", d.totalInsts / 4) :: ("smem", d.smemCycles) :: ("mem", d.memBytesTotal / b) ::
    d.pipes.map fun e ↦ (lit "pipe:" ++ e.1, e.2)

/-- No pipe repeats and no demand is negative. -/
structure Regular (d : Demands ℚ) : Prop where
  nodup : (Assoc.keys d.pipes).Nodup
  pipes : ∀ e ∈ d.pipes, 0 ≤ e.2
  smem : 0 ≤ d.smemCycles
  bytes : 0 ≤ d.memBytesTotal

end Demands

variable {rates : Rates} {d : Demands ℚ} {d₁ : Demands F64} {e : Str × ℕ}

/-- The demands with `n` instructions, shared-memory cycles, bytes, and cycles
of a pipe added. -/
def Demands.add (d : Demands ℚ) (n : ℕ) (smem bytes : ℚ) (pipe : Option (Str × ℚ))
    (marks : List Str) : Demands ℚ where
  pipes := pipe.elim d.pipes fun p ↦ Assoc.alter (fun c ↦ c.getD 0 + p.2) p.1 d.pipes
  memBytesTotal := d.memBytesTotal + bytes
  smemCycles := d.smemCycles + smem
  totalInsts := d.totalInsts + n
  defaulted := d.defaulted ++ marks

/-- The entries of what is added. -/
def added (n : ℕ) (smem bytes : ℚ) (pipe : Option (Str × ℚ)) (b : ℚ) : List (Str × ℚ) :=
  ("issue", n / 4) :: ("smem", smem) :: ("mem", bytes / b) ::
    pipe.toList.map fun p ↦ (lit "pipe:" ++ p.1, p.2)

theorem tally_add (d : Demands ℚ) (n : ℕ) (smem bytes : ℚ) (pipe : Option (Str × ℚ))
    (marks : List Str) (b : ℚ) (name : Str) :
    tally ((d.add n smem bytes pipe marks).entries b) name =
      tally (d.entries b) name + tally (added n smem bytes pipe b) name := by
  have hpipes : tally ((d.add n smem bytes pipe marks).pipes.map fun e ↦
      (lit "pipe:" ++ e.1, e.2)) name =
      tally (d.pipes.map fun e ↦ (lit "pipe:" ++ e.1, e.2)) name +
        tally (pipe.toList.map fun p ↦ (lit "pipe:" ++ p.1, p.2)) name := by
    cases pipe with
    | none => exact (add_zero _).symm
    | some p =>
        refine (tally_map_alter_add (lit "pipe:" ++ ·) p.1 p.2 d.pipes name).trans ?_
        rw [Option.toList_some, List.map_singleton, tally_singleton]
  rw [Demands.entries, Demands.entries, added]
  simp only [tally_cons, hpipes]
  simp only [Demands.add, Nat.cast_add]
  split_ifs <;> ring

theorem Demands.Regular.add (hd : d.Regular) {smem bytes : ℚ} {pipe : Option (Str × ℚ)}
    (hsmem : 0 ≤ smem) (hbytes : 0 ≤ bytes) (hpipe : ∀ p ∈ pipe, 0 ≤ p.2) (n : ℕ)
    (marks : List Str) : (d.add n smem bytes pipe marks).Regular := by
  refine ⟨?_, ?_, add_nonneg hd.smem hsmem, add_nonneg hd.bytes hbytes⟩
  · cases pipe with
    | none => exact hd.nodup
    | some p => exact Assoc.nodup_keys_alter _ _ hd.nodup
  · cases pipe with
    | none => exact hd.pipes
    | some p =>
        have hp := hpipe p rfl
        intro e he
        rcases Assoc.mem_alter he with he | ⟨-, he | ⟨c, hc, he⟩⟩
        · exact hd.pipes e he
        · simpa [he] using hp
        · rw [he]
          exact add_nonneg (hd.pipes _ hc) hp

theorem lift_add_pipe (d : Demands ℚ) (n : ℕ) (p : Str) (x : ℚ) (marks : List Str) :
    (d.add n 0 0 (some (p, x)) marks).lift =
      { d.lift with
        totalInsts := d.totalInsts + n
        pipes := Assoc.alter (fun c ↦ c.getD 0 + .fin x) p d.lift.pipes
        defaulted := d.defaulted ++ marks } := by
  have hadd : ∀ c : Option ℚ, (c.map ExtNum.fin).getD 0 + .fin x = .fin (c.getD 0 + x) := by
    rintro (_ | c) <;> simp
  simp only [Demands.lift, Demands.add, Option.elim_some, add_zero]
  rw [Assoc.alter_map hadd]

/-- One entry adds what its instructions use. -/
theorem charge_lift (hrows : opClass e.1 = .pipe → ∀ r ∈ measuredRow rates e.1, PositiveValue r)
    (hd : d.Regular) (h : charge rates d.lift e = .ok d₁) :
    ∃ d' : Demands ℚ, d₁ = d'.lift ∧ d'.Regular ∧ ∀ b name, tally (d'.entries b) name =
      tally (d.entries b) name + (e.2 : ℚ) * tally (opUse rates b e.1) name := by
  rw [charge] at h
  unfold opUse
  obtain ⟨n, hn, h⟩ := Exec.bind_eq_ok.mp h
  obtain ⟨-, rfl⟩ := checked_eq_ok.mp hn
  cases hop : opClass e.1 with
  | control =>
      rw [hop] at h
      obtain rfl := Exec.pure_eq_ok.mp h
      refine ⟨d.add e.2 0 0 none [], ?_, hd.add le_rfl le_rfl (by simp) _ _, fun b name ↦ ?_⟩
      · simp [Demands.lift, Demands.add]
      · rw [tally_add]
        simp [added, tally_cons, div_eq_mul_inv]
  | sharedMem k =>
      rw [hop] at h
      obtain rfl := Exec.pure_eq_ok.mp h
      have hcycles : 0 ≤ (e.2 : ℚ) * (k / 2) := by positivity
      refine ⟨d.add e.2 (e.2 * (k / 2)) 0 none [], ?_, hd.add hcycles le_rfl (by simp) _ _,
        fun b name ↦ ?_⟩
      · simp [Demands.lift, Demands.add, one_div_ldsInstRate, ofU64]
      · rw [tally_add]
        simp [added, tally_cons, div_eq_mul_inv, mul_add]
  | localMem =>
      rw [hop] at h
      obtain rfl := Exec.pure_eq_ok.mp h
      refine ⟨d.add e.2 0 0 none [e.1], ?_, hd.add le_rfl le_rfl (by simp) _ _, fun b name ↦ ?_⟩
      · simp [Demands.lift, Demands.add]
      · rw [tally_add]
        simp [added, tally_cons, div_eq_mul_inv]
  | memory k =>
      simp only [hop] at h
      obtain ⟨bytes, hbytes, h⟩ := Exec.bind_eq_ok.mp h
      obtain ⟨-, rfl⟩ := checked_eq_ok.mp hbytes
      obtain rfl := Exec.pure_eq_ok.mp h
      have htotal : 0 ≤ (e.2 : ℚ) * k := by positivity
      refine ⟨d.add e.2 0 (e.2 * k) none [], ?_, hd.add le_rfl htotal (by simp) _ _,
        fun b name ↦ ?_⟩
      · simp [Demands.lift, Demands.add, ofU64]
      · rw [tally_add]
        simp [added, tally_cons, mul_add, div_eq_mul_inv, mul_assoc]
  | pipe =>
      simp only [hop] at h
      obtain ⟨op, hoprate, h⟩ := Exec.bind_eq_ok.mp h
      obtain rfl := Exec.pure_eq_ok.mp h
      obtain ⟨q, hq, hrate⟩ := opRate_pos (hrows hop) hoprate
      have hcycles : ofU64 e.2 / op.rate = .fin (e.2 / q) := by
        rw [hrate, ofU64, ExtNum.fin_div _ hq.ne']
      have hcharge : 0 ≤ (e.2 : ℚ) / q := div_nonneg (Nat.cast_nonneg _) hq.le
      refine ⟨d.add e.2 0 0 (some (op.pipe, e.2 / q)) op.marks, ?_,
        hd.add le_rfl le_rfl (by simpa using hcharge) _ _, fun b name ↦ ?_⟩
      · rw [lift_add_pipe, hcycles]
        rfl
      · rw [tally_add]
        simp [added, tally_cons, hoprate, hrate, mul_add, div_eq_mul_inv]

/-- The census adds what its entries use. -/
theorem charges_lift {items : List (Str × ℕ)}
    (hrows : ∀ e ∈ items, opClass e.1 = .pipe → ∀ r ∈ measuredRow rates e.1, PositiveValue r) :
    ∀ {d : Demands ℚ}, d.Regular → items.foldlM (charge rates) d.lift = .ok d₁ →
      ∃ d' : Demands ℚ, d₁ = d'.lift ∧ d'.Regular ∧ ∀ b name, tally (d'.entries b) name =
        tally (d.entries b) name + demandOf rates b items name := by
  induction items with
  | nil =>
      intro d hd h
      obtain rfl := Exec.pure_eq_ok.mp h
      exact ⟨d, rfl, hd, fun b name ↦ (add_zero _).symm⟩
  | cons e items ih =>
      intro d hd h
      rw [List.foldlM_cons] at h
      obtain ⟨d₂, hcharge, h⟩ := Exec.bind_eq_ok.mp h
      obtain ⟨d', rfl, hd', hstep⟩ := charge_lift (hrows e List.mem_cons_self) hd hcharge
      obtain ⟨d'', rfl, hd'', hrun⟩ := ih (fun e he ↦ hrows e (List.mem_cons_of_mem _ he)) hd' h
      refine ⟨d'', rfl, hd'', fun b name ↦ ?_⟩
      rw [hrun, hstep, add_assoc]
      rfl

/-! ## The steady state over rationals -/

/-- The listed resources: a shared-memory or memory demand of zero has none. -/
def Demands.listed (d : Demands ℚ) (w b : ℚ) : List (Str × ℚ) :=
  d.pipes.map (fun e ↦ (lit "pipe:" ++ e.1, w * e.2)) ++
    (if d.smemCycles = 0 then [] else [(lit "smem", w * d.smemCycles)]) ++
    (if d.memBytesTotal = 0 then [] else [(lit "mem", w * d.memBytesTotal / b)]) ++
    [(lit "issue", w * d.totalInsts / 4)]

theorem tally_listed (d : Demands ℚ) (w b : ℚ) (name : Str) :
    tally (d.listed w b) name = w * tally (d.entries b) name := by
  have hpipes : tally (d.pipes.map fun e ↦ (lit "pipe:" ++ e.1, w * e.2)) name =
      w * tally (d.pipes.map fun e ↦ (lit "pipe:" ++ e.1, e.2)) name := by
    induction d.pipes with
    | nil => simp
    | cons e pipes ih =>
        rw [List.map_cons, tally_cons, ih, List.map_cons, tally_cons, mul_add, mul_ite, mul_zero]
  have hsmem : tally (if d.smemCycles = 0 then [] else [(lit "smem", w * d.smemCycles)]) name =
      w * if lit "smem" = name then d.smemCycles else 0 := by
    split
    next h => simp [h]
    next => rw [tally_singleton, mul_ite, mul_zero]
  have hmem : tally (if d.memBytesTotal = 0 then []
      else [(lit "mem", w * d.memBytesTotal / b)]) name =
      w * if lit "mem" = name then d.memBytesTotal / b else 0 := by
    split
    next h => simp [h]
    next => rw [tally_singleton, mul_ite, mul_zero, mul_div_assoc]
  rw [Demands.listed, tally_append, tally_append, tally_append, hpipes, hsmem, hmem,
    tally_singleton, Demands.entries, tally_cons, tally_cons, tally_cons]
  split_ifs <;> ring

theorem nodup_keys_listed (hd : d.Regular) (w b : ℚ) : (Assoc.keys (d.listed w b)).Nodup := by
  have hpipes : (Assoc.keys (d.pipes.map fun e ↦ (lit "pipe:" ++ e.1, w * e.2))).Nodup := by
    have hkeys : Assoc.keys (d.pipes.map fun e ↦ (lit "pipe:" ++ e.1, w * e.2)) =
        (Assoc.keys d.pipes).map (lit "pipe:" ++ ·) := by
      simp [Assoc.keys]
    rw [hkeys]
    exact hd.nodup.map (List.append_right_injective _)
  have hothers : (Assoc.keys ((if d.smemCycles = 0 then [] else [(lit "smem", w * d.smemCycles)]) ++
      ((if d.memBytesTotal = 0 then [] else [(lit "mem", w * d.memBytesTotal / b)]) ++
        [(lit "issue", w * d.totalInsts / 4)]))).Sublist [lit "smem", lit "mem", lit "issue"] := by
    split_ifs
    · simp [Assoc.keys]
    · simp [Assoc.keys]
    · simp [Assoc.keys]
    · simp [Assoc.keys]
  rw [Demands.listed, List.append_assoc, List.append_assoc, Assoc.keys_append]
  apply hpipes.append (hothers.nodup (by decide))
  -- a pipe has another first letter than the other resources
  intro name hname hother
  obtain ⟨_, he, rfl⟩ := Assoc.mem_keys.mp hname
  obtain ⟨e, -, rfl⟩ := List.mem_map.mp he
  have hmem := hothers.subset hother
  simp [lit] at hmem

def nameEntry (names : List Str) (e : ResourceKind × F64) : Exec Str (Str × F64) :=
  (fun n ↦ (n, e.2)) <$> resourceName names e.1

theorem nameEntry_pipes (pipes : List (Str × ℚ)) (w : ℚ) :
    (((pipes.map fun e ↦ ExtNum.fin e.2).zipIdx).map fun c ↦
      (ResourceKind.pipe c.2, .fin w * c.1)).mapM (nameEntry (pipes.map (·.1))) =
      .ok (pipes.map fun e ↦ (lit "pipe:" ++ e.1, .fin (w * e.2))) := by
  refine Exec.mapM_eq_ok.mpr (List.forall₂_iff_get.mpr ⟨by simp, ?_⟩)
  intro i h h'
  have hi : i < pipes.length := by simpa using h'
  simp [nameEntry, resourceName, hi]

/-- Every resource is listed under its name. -/
theorem mapM_nameEntry {w b : ℚ} (hb : d.memBytesTotal ≠ 0 → b ≠ 0) :
    (mixDemands (.fin w) (d.lift.pipes.map (·.2)) d.lift.smemCycles d.lift.memBytesTotal (.fin b)
      (ofU64 d.totalInsts) ISSUE_CAP).mapM (nameEntry (d.lift.pipes.map (·.1))) =
      .ok ((d.listed w b).map fun e ↦ (e.1, .fin e.2)) := by
  have hcycles : d.lift.pipes.map (·.2) = d.pipes.map fun e ↦ ExtNum.fin e.2 := by
    simp [Demands.lift]
  have hnames : d.lift.pipes.map (·.1) = d.pipes.map (·.1) := by simp [Demands.lift]
  have hpipes := nameEntry_pipes d.pipes w
  have hsmem : (if d.lift.smemCycles = 0 then []
      else [(ResourceKind.localStoreBw, .fin w * d.lift.smemCycles)]).mapM
        (nameEntry (d.pipes.map (·.1))) =
      .ok ((if d.smemCycles = 0 then [] else [(lit "smem", w * d.smemCycles)]).map
        fun e ↦ (e.1, .fin e.2)) := by
    by_cases h : d.smemCycles = 0
    · simp [Demands.lift, h]
    · simp [Demands.lift, h, nameEntry, resourceName]
  have hmem : (if d.lift.memBytesTotal = 0 then []
      else [(ResourceKind.memoryBw, .fin w * d.lift.memBytesTotal / .fin b)]).mapM
        (nameEntry (d.pipes.map (·.1))) =
      .ok ((if d.memBytesTotal = 0 then [] else [(lit "mem", w * d.memBytesTotal / b)]).map
        fun e ↦ (e.1, .fin e.2)) := by
    by_cases h : d.memBytesTotal = 0
    · simp [Demands.lift, h]
    · simp [Demands.lift, h, nameEntry, resourceName, ExtNum.fin_div _ (hb h)]
  have hissue : [(ResourceKind.issue, ExtNum.fin w * ofU64 d.totalInsts / ISSUE_CAP)].mapM
      (nameEntry (d.pipes.map (·.1))) =
      .ok ([(lit "issue", w * d.totalInsts / 4)].map fun e ↦ (e.1, .fin e.2)) := by
    simp [nameEntry, resourceName, ofU64, ISSUE_CAP, ExtNum.fin_div]
  rw [mixDemands, hcycles, hnames, List.mapM_append, List.mapM_append, List.mapM_append, hpipes,
    hsmem, hmem, hissue, Demands.listed, List.map_append, List.map_append, List.map_append,
    List.map_map]
  rfl

theorem map_snd_of_nameEntry {names : List Str} {l : List (ResourceKind × F64)}
    {l' : List (Str × F64)} (h : l.mapM (nameEntry names) = .ok l') :
    l.map (·.2) = l'.map (·.2) := by
  replace h := Exec.mapM_eq_ok.mp h
  induction h with
  | nil => rfl
  | cons hentry _ ih =>
      obtain ⟨n, -, rfl⟩ := Exec.map_eq_ok.mp hentry
      rw [List.map_cons, List.map_cons, ih]

theorem listed_nonneg (hd : d.Regular) {w b : ℚ} (hw : 0 ≤ w)
    (hb : d.memBytesTotal ≠ 0 → 0 < b) : ∀ e ∈ d.listed w b, 0 ≤ e.2 := by
  intro e he
  simp only [Demands.listed, List.mem_append, List.mem_map, List.mem_singleton] at he
  rcases he with ((⟨e, he, rfl⟩ | he) | he) | rfl
  · exact mul_nonneg hw (hd.pipes e he)
  · split at he
    · cases he
    · obtain rfl := List.mem_singleton.mp he
      exact mul_nonneg hw hd.smem
  · split at he
    · cases he
    · next h =>
      obtain rfl := List.mem_singleton.mp he
      exact div_nonneg (mul_nonneg hw hd.bytes) (hb h).le
  · positivity

theorem demand_eq_tally {r : ProjectResult} {l : List (Str × ℚ)} (hkeys : (Assoc.keys l).Nodup)
    (hr : r.perResource = l.map fun e ↦ (e.1, .fin e.2)) : r.demand = tally l := by
  funext name
  rw [ProjectResult.demand, hr, Assoc.lookup_map, Option.map_map, ← getD_lookup hkeys]
  cases l.lookup name <;> rfl

/-- The result lists the demands and predicts their peak. -/
theorem named_spec {w b : ℚ} {marks : List Str} {r : ProjectResult} (hd : d.Regular) (hw : 0 ≤ w)
    (hb : d.memBytesTotal ≠ 0 → 0 < b) (h : named (.fin w) d.lift (.fin b, marks) = .ok r) :
    (∀ name, r.demand name = w * tally (d.entries b) name) ∧ (∀ name, 0 ≤ r.demand name) ∧
      ∃ m, r.ppmCycles = .fin m ∧ IsPeak r.demand m := by
  have hnodup := nodup_keys_listed hd w b
  have hnames := mapM_nameEntry (w := w) fun hmem ↦ (hb hmem).ne'
  obtain ⟨bound, -, h⟩ := Exec.bind_eq_ok.mp h
  obtain ⟨ppmBound, -, h⟩ := Exec.bind_eq_ok.mp h
  obtain ⟨perResource, hper, h⟩ := Exec.bind_eq_ok.mp h
  obtain rfl := Except.ok.inj (hnames.symm.trans hper)
  have hr := Exec.pure_eq_ok.mp h
  have hdemand : r.demand = tally (d.listed w b) := demand_eq_tally hnodup (hr ▸ rfl)
  have hnonneg := listed_nonneg hd hw hb
  rw [hdemand]
  refine ⟨tally_listed d w b, tally_nonneg hnonneg, ?_⟩
  have hne : (d.listed w b).map (·.2) ≠ [] := by simp [Demands.listed]
  obtain ⟨m, hmem, hmax, hm⟩ := firstMax_map_fin hne
  refine ⟨m, ?_, isPeak_tally hnodup hnonneg hmem hmax⟩
  have hvalues := map_snd_of_nameEntry hnames
  rw [List.map_map] at hvalues hm
  rw [← hr, ← hm]
  exact congrArg (fun l ↦ (firstMax l).2) hvalues

/-! ## The projection -/

/-- Bytes per cycle that the memory traffic is charged with. -/
def bandwidth (rates : Rates) (memClass : MemClass) (dramBudget : ℚ) : ℚ :=
  match memClass with
  | .dram => dramBudget
  | _ =>
      match l1Budget rates with
      | .ok bw => bw.1.val
      | .error _ => 0

/-- The counts and the bytes stay within 64 bits. -/
structure Fits (items : List (Str × ℕ)) : Prop where
  counts : (items.map (·.2)).sum < 2 ^ 64
  bytes : traffic items < 2 ^ 64

theorem entryBytes_le_traffic {items : List (Str × ℕ)} (he : e ∈ items) :
    entryBytes e ≤ traffic items :=
  List.single_le_sum (fun _ _ ↦ Nat.zero_le _) _ (List.mem_map_of_mem he)

section Project

variable {items : List (Str × ℕ)} {memClass : MemClass} {w dramBudget : ℚ}

theorem l1Budget_pos {budget : F64 × List Str}
    (hl1 : ∀ r ∈ rates.get "mem.l1.bw", PositiveValue r) (h : l1Budget rates = .ok budget) :
    ∃ q : ℚ, 0 < q ∧ budget.1 = .fin q := by
  rw [l1Budget] at h
  cases hget : rates.get "mem.l1.bw" with
  | none =>
      rw [hget] at h
      obtain rfl := Exec.pure_eq_ok.mp h
      exact ⟨32, by norm_num, rfl⟩
  | some r =>
      obtain ⟨q, hq, hparse⟩ := hl1 r hget
      simp only [hget, hparse, Exec.expect_some] at h
      obtain rfl := Exec.pure_eq_ok.mp h
      exact ⟨q, hq, rfl⟩

theorem byteBudget_spec {budget : F64 × List Str} (hrates : UsedPositive rates memClass items)
    (hdram : 0 < dramBudget) (htraffic : traffic items ≠ 0)
    (h : byteBudget rates memClass (.fin dramBudget) (.fin (traffic items : ℕ)) = .ok budget) :
    0 < bandwidth rates memClass dramBudget ∧
      budget.1 = .fin (bandwidth rates memClass dramBudget) := by
  have hbytes : (.fin (traffic items : ℕ) : F64) ≠ 0 := by simpa using htraffic
  unfold byteBudget at h
  rw [if_neg hbytes] at h
  by_cases hclass : memClass = .dram
  · subst hclass
    obtain rfl := Exec.pure_eq_ok.mp h
    exact ⟨hdram, rfl⟩
  · have hbudget : l1Budget rates = .ok budget := by
      cases memClass <;> simp_all
    obtain ⟨q, hq, hfin⟩ := l1Budget_pos (hrates.l1 hclass htraffic) hbudget
    have hbandwidth : bandwidth rates memClass dramBudget = q := by
      cases memClass <;> simp_all [bandwidth]
    rw [hbandwidth]
    exact ⟨hq, hfin⟩

theorem project_returns (hrates : UsedPositive rates memClass items) (hfits : Fits items)
    (warps dramBudget : F64) : ∃ r, project ⟨items⟩ warps memClass rates dramBudget = .ok r := by
  have hparse : ∀ {r : RateRow}, PositiveValue r → F64.parse r.value ≠ none := by
    rintro r ⟨q, -, hq⟩
    simp [hq]
  refine project_returns_iff.mpr ⟨hfits.counts, fun e he hbad ↦ ?_, fun hclass htraffic r hr ↦ ?_⟩
  · rw [Unchargeable] at hbad
    have hbytes := (entryBytes_le_traffic he).trans_lt hfits.bytes
    rw [entryBytes] at hbytes
    cases hop : opClass e.1 with
    | control => simp [hop] at hbad
    | sharedMem k => simp [hop] at hbad
    | localMem => simp [hop] at hbad
    | memory k =>
        simp only [hop] at hbad hbytes
        exact Nat.not_lt_of_le hbad hbytes
    | pipe =>
        simp only [hop] at hbad
        obtain ⟨r, hr, hnone⟩ := hbad
        exact hparse (hrates.rows e he hop r hr) hnone
  · exact hparse (hrates.l1 hclass htraffic r hr)

/-- What the projection computes: the scaled demands of the census and their
peak. -/
theorem project_spec (hrates : UsedPositive rates memClass items) (hfits : Fits items)
    (hw : 0 ≤ w) (hdram : 0 < dramBudget) :
    ∃ r, project ⟨items⟩ (.fin w) memClass rates (.fin dramBudget) = .ok r ∧
      (∀ name, r.demand name =
        w * demandOf rates (bandwidth rates memClass dramBudget) items name) ∧
      (∀ name, 0 ≤ r.demand name) ∧ ∃ m, r.ppmCycles = .fin m ∧ IsPeak r.demand m := by
  obtain ⟨r, hr⟩ := project_returns hrates hfits (.fin w) (.fin dramBudget)
  have hrun := hr
  rw [project] at hrun
  obtain ⟨d₁, hfold, hrun⟩ := Exec.bind_eq_ok.mp hrun
  obtain ⟨⟨budget, marks⟩, hbudget, hrun⟩ := Exec.bind_eq_ok.mp hrun
  have hstart : (⟨[], 0, 0, 0, []⟩ : Demands ℚ).Regular := ⟨.nil, by simp, le_rfl, le_rfl⟩
  have hbytes := charges_eq_ok (k := 0) rfl hfold
  obtain ⟨d, rfl, hd, hdemand⟩ := charges_lift hrates.rows hstart hfold
  have hentries : ∀ b name, tally (d.entries b) name = demandOf rates b items name := by
    intro b name
    rw [hdemand]
    simp [Demands.entries, tally_cons]
  rw [hbytes, Nat.zero_add] at hbudget
  have htotal : d.memBytesTotal = (traffic items : ℕ) := by
    simpa [Demands.lift] using hbytes
  refine ⟨r, hr, ?_⟩
  by_cases htraffic : traffic items = 0
  · -- without traffic the byte budget is never read
    rw [htraffic] at hbudget htotal
    obtain ⟨rfl, rfl⟩ := Prod.mk.inj (Exec.pure_eq_ok.mp hbudget)
    obtain ⟨hname, hpeak⟩ := named_spec hd hw (by simp [htotal]) hrun
    refine ⟨fun name ↦ ?_, hpeak⟩
    rw [hname, ← hentries, Demands.entries, Demands.entries, htotal, Nat.cast_zero, zero_div,
      zero_div]
  · obtain ⟨hpos, rfl⟩ := byteBudget_spec hrates hdram htraffic hbudget
    obtain ⟨hname, hpeak⟩ := named_spec hd hw (fun _ ↦ hpos) hrun
    exact ⟨fun name ↦ (hname name).trans (by rw [hentries]), hpeak⟩

end Project

end CalxMill.Nvidia
