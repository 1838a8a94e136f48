import CalxMill.Latency
import CalxMill.Lib.Scan
import CalxMill.Occupancy

/-!
# The per-pipe maximum

A workload takes as long as its busiest resource: a pipe, the scheduler that
issues the ops of all pipes, or the memory.  The op total saturates, so that a
scheduler demand beyond the word can be lost.
-/

namespace CalxMill

open Lib Rust U32

/-- The largest pipe demand, and the first pipe that has it. -/
def bindPipe (pipeRates opsPerPipe : List UInt32) : UInt32 × ℕ :=
  pipeRates.zipIdx.foldl (fun best e ↦
    let rate := max e.1 1
    let ops := opsPerPipe.getD e.2 0
    let c := ceilDiv ops rate
    if best.1 < c then (c, e.2) else best) (0, 0)

/-- The slices have one length (`debug_assert_eq!`). -/
def project (s : Substrate) (pipeRates opsPerPipe : List UInt32) (totalBytes : UInt32) :
    Projection :=
  let (cycPipe, bind) := bindPipe pipeRates opsPerPipe
  let totalOps := opsPerPipe.foldl satAdd 0
  let cycIssue := ceilDiv totalOps (max s.issueCap 1)
  let cycMem := ceilDiv totalBytes s.memBandwidth
  if cycPipe ≤ cycMem ∧ cycIssue ≤ cycMem then ⟨cycMem, .memory⟩
  else if cycPipe ≤ cycIssue then ⟨cycIssue, .issueCap⟩
  else ⟨cycPipe, .pipe bind⟩

/-! ## The exact demands -/

structure PipeLoad where
  rate : UInt32
  ops : UInt32

structure Workload where
  pipes : List PipeLoad
  totalBytes : UInt32

def PipeLoad.demand (p : PipeLoad) : ℕ := p.ops.toNat ⌈/⌉ max p.rate.toNat 1

namespace Workload

variable (w : Workload) (s : Substrate)

def projection : Projection :=
  project s (w.pipes.map PipeLoad.rate) (w.pipes.map PipeLoad.ops) w.totalBytes

def totalOps : ℕ := (w.pipes.map (·.ops.toNat)).sum

def pipeDemand : ℕ := (w.pipes.map PipeLoad.demand).foldr max 0

def issueDemand : ℕ := w.totalOps ⌈/⌉ max s.issueCap.toNat 1

def memoryDemand : ℕ := w.totalBytes.toNat ⌈/⌉ s.memBandwidth.toNat

/-- The exact length of the run. -/
def cycles : ℕ := max (max w.pipeDemand (w.issueDemand s)) (w.memoryDemand s)

/-- The resource has the exact demand of the run, and no resource in front of
it does: the memory, the scheduler, then the pipes in order. -/
def Binds : Bottleneck → Prop
  | .memory => w.memoryDemand s = w.cycles s
  | .issueCap => w.issueDemand s = w.cycles s ∧ w.memoryDemand s < w.cycles s
  | .pipe i => w.memoryDemand s < w.cycles s ∧ w.issueDemand s < w.cycles s ∧
      ∃ p, w.pipes[i]? = some p ∧ p.demand = w.cycles s ∧
        ∀ j q, j < i → w.pipes[j]? = some q → q.demand < w.cycles s
  | .latency => False

structure Exact : Prop where
  cycles : (w.projection s).cycles.toNat = w.cycles s
  binds : w.Binds s (w.projection s).bottleneck

/-- The scheduler binds with a demand that fits a word, but the word of all
ones in place of the op total has a smaller one. -/
structure IssueLost : Prop where
  pipes : w.pipeDemand ≤ w.issueDemand s
  memory : w.memoryDemand s < w.issueDemand s
  word : w.issueDemand s < 2 ^ 32
  saturated : max32 ⌈/⌉ max s.issueCap.toNat 1 < w.issueDemand s

/-! ## The computed demands -/

theorem toNat_bindPipe : ((bindPipe (w.pipes.map PipeLoad.rate)
      (w.pipes.map PipeLoad.ops)).1.toNat,
      (bindPipe (w.pipes.map PipeLoad.rate) (w.pipes.map PipeLoad.ops)).2) =
    scanMax PipeLoad.demand w.pipes 0 := by
  have hscan : bindPipe (w.pipes.map PipeLoad.rate) (w.pipes.map PipeLoad.ops) =
      w.pipes.zipIdx.foldl (fun best e ↦
        if best.1 < ceilDiv e.1.ops (max e.1.rate 1) then
          (ceilDiv e.1.ops (max e.1.rate 1), e.2) else best) (0, 0) := by
    rw [bindPipe, List.zipIdx_map, List.foldl_map]
    apply List.foldl_ext
    intro best e he
    have hops : (w.pipes.map PipeLoad.ops).getD e.2 0 = e.1.ops := by
      rw [List.getD_eq_getElem?_getD, List.getElem?_map, List.mk_mem_zipIdx_iff_getElem?.mp he]
      rfl
    simp only [Prod.map, id_eq, hops]
  have hdemand : ∀ p : PipeLoad, (ceilDiv p.ops (max p.rate 1)).toNat = p.demand := by
    intro p
    rw [toNat_ceilDiv, toNat_max_one, PipeLoad.demand]
  rw [hscan, scanMax]
  refine (List.foldl_hom (fun b : UInt32 × ℕ ↦ (b.1.toNat, b.2)) fun best e ↦ ?_).symm
  simp only [UInt32.lt_iff_toNat_lt, hdemand]
  split
  · rw [hdemand]
  · rfl

theorem pipeDemand_le_iff {n : ℕ} : w.pipeDemand ≤ n ↔ ∀ p ∈ w.pipes, p.demand ≤ n := by
  rw [pipeDemand]
  induction w.pipes with
  | nil => simp
  | cons p pipes ih => rw [List.map_cons, List.foldr_cons, max_le_iff, ih, List.forall_mem_cons]

theorem scanMax_demand : (scanMax PipeLoad.demand w.pipes 0).1 = w.pipeDemand := by
  apply eq_of_forall_ge_iff
  intro n
  rw [scanMax_le_iff, pipeDemand_le_iff]
  exact and_iff_right (Nat.zero_le n)

/-- The scheduler's demand as it is computed. -/
def computedIssue : ℕ := min w.totalOps max32 ⌈/⌉ max s.issueCap.toNat 1

theorem one_le_issueCap : 0 < max s.issueCap.toNat 1 := Nat.lt_of_lt_of_le Nat.one_pos (le_max_right _ _)

theorem computedIssue_le : w.computedIssue s ≤ w.issueDemand s :=
  (gc_mul_ceilDiv (one_le_issueCap s)).monotone_l (min_le_left _ _)

/-- The scheduler's demand is lost when even the largest word has a smaller one. -/
theorem computedIssue_lt_iff :
    w.computedIssue s < w.issueDemand s ↔ max32 ⌈/⌉ max s.issueCap.toNat 1 < w.issueDemand s := by
  constructor
  · intro h
    have hover : max32 ≤ w.totalOps := by
      by_contra hle
      rw [computedIssue, min_eq_left (by omega)] at h
      exact lt_irrefl _ h
    rwa [computedIssue, min_eq_right hover] at h
  · exact fun h ↦ lt_of_le_of_lt ((gc_mul_ceilDiv (one_le_issueCap s)).monotone_l (min_le_right _ _)) h

/-- The projection, by the resource that it names. -/
theorem projection_cases :
    (w.pipeDemand ≤ w.memoryDemand s ∧ w.computedIssue s ≤ w.memoryDemand s ∧
      (w.projection s).cycles.toNat = w.memoryDemand s ∧
      (w.projection s).bottleneck = .memory) ∨
    (¬ (w.pipeDemand ≤ w.memoryDemand s ∧ w.computedIssue s ≤ w.memoryDemand s) ∧
      w.pipeDemand ≤ w.computedIssue s ∧ (w.projection s).cycles.toNat = w.computedIssue s ∧
      (w.projection s).bottleneck = .issueCap) ∨
    (¬ (w.pipeDemand ≤ w.memoryDemand s ∧ w.computedIssue s ≤ w.memoryDemand s) ∧
      w.computedIssue s < w.pipeDemand ∧ (w.projection s).cycles.toNat = w.pipeDemand ∧
      (w.projection s).bottleneck = .pipe (scanMax PipeLoad.demand w.pipes 0).2) := by
  have hpipe := (congrArg Prod.fst w.toNat_bindPipe).trans w.scanMax_demand
  have hbind := congrArg Prod.snd w.toNat_bindPipe
  dsimp only at hpipe hbind
  have hissue : (ceilDiv ((w.pipes.map PipeLoad.ops).foldl satAdd 0) (max s.issueCap 1)).toNat =
      w.computedIssue s := by
    rw [toNat_ceilDiv, toNat_max_one, toNat_foldl_satAdd, UInt32.toNat_zero, Nat.zero_add,
      List.map_map]
    rfl
  have hmem : (ceilDiv w.totalBytes s.memBandwidth).toNat = w.memoryDemand s := toNat_ceilDiv _ _
  simp only [projection, project, UInt32.le_iff_toNat_le, hpipe, hissue, hmem]
  split
  · next h => exact Or.inl ⟨h.1, h.2, hmem, rfl⟩
  · next h =>
      split
      · next h' => exact Or.inr (Or.inl ⟨h, h', hissue, rfl⟩)
      · next h' => exact Or.inr (Or.inr ⟨h, not_le.mp h', hpipe, congrArg Bottleneck.pipe hbind⟩)

/-- The named pipe is the first one with the largest demand. -/
theorem binds_scanMax (hpipe : w.pipeDemand = w.cycles s) (hmem : w.memoryDemand s < w.cycles s)
    (hissue : w.issueDemand s < w.cycles s) :
    w.Binds s (.pipe (scanMax PipeLoad.demand w.pipes 0).2) := by
  have hpos : 0 < (scanMax PipeLoad.demand w.pipes 0).1 := by
    rw [scanMax_demand, hpipe]
    exact Nat.zero_lt_of_lt hmem
  obtain ⟨p, hp, hdemand, hfirst⟩ := scanMax_attained hpos
  rw [scanMax_demand, hpipe] at hdemand hfirst
  exact ⟨hmem, hissue, p, hp, hdemand, hfirst⟩

/-- The projection is exact when the scheduler's demand is, or does not bind. -/
theorem exact_of_issue (h : w.computedIssue s = w.issueDemand s ∨
    w.issueDemand s < w.pipeDemand ∨ w.issueDemand s ≤ w.memoryDemand s) : w.Exact s := by
  have hle := w.computedIssue_le s
  have hcycles : w.cycles s = max (max w.pipeDemand (w.issueDemand s)) (w.memoryDemand s) := rfl
  rcases w.projection_cases s with ⟨hpipe, hissue, hvalue, hbind⟩ |
    ⟨hmem, hpipe, hvalue, hbind⟩ | ⟨hmem, hissue, hvalue, hbind⟩
  · have heq : w.memoryDemand s = w.cycles s := by omega
    refine ⟨hvalue.trans heq, ?_⟩
    rw [hbind]
    exact heq
  · have heq : w.computedIssue s = w.cycles s := by omega
    refine ⟨hvalue.trans heq, ?_⟩
    rw [hbind]
    exact ⟨by omega, by omega⟩
  · have heq : w.pipeDemand = w.cycles s := by omega
    refine ⟨hvalue.trans heq, ?_⟩
    rw [hbind]
    exact w.binds_scanMax s heq (by omega) (by omega)

/-- A lost scheduler demand costs the cycles, or the tie. -/
theorem IssueLost.not_exact {w : Workload} {s : Substrate} (h : w.IssueLost s) : ¬ w.Exact s := by
  intro hexact
  have hlost := (w.computedIssue_lt_iff s).mpr h.saturated
  have hcycles : w.cycles s = max (max w.pipeDemand (w.issueDemand s)) (w.memoryDemand s) := rfl
  have hpipes := h.pipes
  have hmemory := h.memory
  have hvalue := hexact.cycles
  have hbinds := hexact.binds
  rcases w.projection_cases s with ⟨hpipe, hissue, hcyc, hbind⟩ |
    ⟨hmem, hpipe, hcyc, hbind⟩ | ⟨hmem, hissue, hcyc, hbind⟩
  · omega
  · omega
  · rw [hbind] at hbinds
    have hlt := hbinds.2.1
    omega

end Workload

/-- A projection that fits a word is exact, and names the first binding
resource, unless the saturated op total loses the scheduler's demand. -/
theorem project_exact_iff (w : Workload) (s : Substrate) :
    (w.cycles s < 2 ^ 32 → w.Exact s) ↔ ¬ w.IssueLost s := by
  have hle := w.computedIssue_le s
  have hcycles : w.cycles s = max (max w.pipeDemand (w.issueDemand s)) (w.memoryDemand s) := rfl
  constructor
  · intro h hlost
    have hword := hlost.word
    have hpipes := hlost.pipes
    have hmemory := hlost.memory
    exact hlost.not_exact (h (by omega))
  · intro h hword
    apply w.exact_of_issue
    by_contra hbad
    obtain ⟨hne, hbad⟩ := not_or.mp hbad
    obtain ⟨hpipes, hmemory⟩ := not_or.mp hbad
    have hlost := (w.computedIssue_lt_iff s).mp (by omega)
    exact h ⟨by omega, by omega, by omega, hlost⟩

/-- Two pipes with the largest word of ops each on four issue slots. -/
def saturatedPipes : Workload := ⟨[⟨.ofNat max32, .ofNat max32⟩, ⟨.ofNat max32, .ofNat max32⟩], 0⟩

/-- The ops of the second pipe are lost in the total: the projection is half
of the exact length. -/
theorem not_project_exact : saturatedPipes.cycles tu102Sm = 2 ^ 31 ∧
    (saturatedPipes.projection tu102Sm).cycles.toNat = 2 ^ 30 ∧
    ¬ (saturatedPipes.cycles tu102Sm < 2 ^ 32 → saturatedPipes.Exact tu102Sm) := by
  have hcycles : saturatedPipes.cycles tu102Sm = 2 ^ 31 := by decide +kernel
  have hvalue : (saturatedPipes.projection tu102Sm).cycles.toNat = 2 ^ 30 := by decide +kernel
  refine ⟨hcycles, hvalue, fun h ↦ ?_⟩
  have hexact := (h (by rw [hcycles]; decide)).cycles
  rw [hcycles, hvalue] at hexact
  exact absurd hexact (by decide)

end CalxMill
