import CalxMill.Cli.Commands

/-!
# A run of the ptxas command

With a grid, the command decides for every kernel of the file whether the grid
can be resident all at once, and its exit code is the conjunction.
-/

namespace CalxMill.Cli

open Lib Rust Nvidia U32

/-- The block of a kernel at a launch. -/
def launchBlock (l : Launch) (blockThreads : UInt32) (k : KernelUsage) : Block :=
  ⟨warpsPerBlock blockThreads, .ofNat (k.registers.toNat * 32), l.blockSmem.getD k.smemBytes⟩

/-- The grid can be spread over the instances so that every block is resident. -/
def Spreads (l : Launch) (blockThreads grid : UInt32) (k : KernelUsage) : Prop :=
  ∃ d : Fin l.instances.toNat → ℕ, ∑ i, d i = grid.toNat ∧
    ∀ i, (launchBlock l blockThreads k).Resident tu102Sm (d i)

/-- The registers of a warp leave the word. -/
def RegistersOverflow (k : KernelUsage) : Prop := 2 ^ 32 ≤ k.registers.toNat * 32

/-- What the line of a kernel ends with. -/
def gridVerdict (l : Launch) (blockThreads grid : UInt32) (k : KernelUsage) : Exec Str Bool :=
  (fun b ↦ cooperativeFits tu102Sm b grid l.instances) <$> block k blockThreads l.blockSmem

theorem cooperativeFits_iff_spreads {l : Launch} {blockThreads grid : UInt32} {k : KernelUsage} :
    cooperativeFits tu102Sm (launchBlock l blockThreads k) grid l.instances = true ↔
      Spreads l blockThreads grid k := by
  have hregs : tu102Sm.registerCapacity.toNat < max32 := by decide
  have hlocal : tu102Sm.localStoreBytes.toNat < max32 := by decide
  have hunits : 1 ≤ (launchBlock l blockThreads k).units.toNat := one_le_warpsPerBlock blockThreads
  have hgrid := toNat_le_max32 grid
  simp only [Spreads, ← le_blocksPerInstance_iff hregs hlocal hunits, exists_sum_eq_iff]
  rw [cooperativeFits, decide_eq_true_eq, ge_iff_le, UInt32.le_iff_toNat_le, toNat_satMul,
    le_min_iff, Nat.mul_comm]
  exact and_iff_left hgrid

section

variable {l : Launch} {blockThreads grid : UInt32} {k : KernelUsage}

theorem gridVerdict_of_overflow (l : Launch) (blockThreads grid : UInt32)
    (h : RegistersOverflow k) :
    ∃ msg, gridVerdict l blockThreads grid k = .error (.panic msg) ∧
      workUnit k blockThreads = .error (.panic msg) := by
  obtain ⟨msg, hmul⟩ : ∃ msg, mulU32 k.registers.toNat 32 = .error (.panic msg) :=
    ⟨_, if_neg (Nat.not_lt_of_le h)⟩
  refine ⟨msg, ?_, ?_⟩
  · rw [gridVerdict, block, hmul]
    rfl
  · rw [workUnit, hmul]
    rfl

theorem gridVerdict_of_fits (h : ¬ RegistersOverflow k) :
    gridVerdict l blockThreads grid k =
      .ok (cooperativeFits tu102Sm (launchBlock l blockThreads k) grid l.instances) := by
  rw [gridVerdict, block_eq _ (Nat.lt_of_not_le h)]
  rfl

theorem warpsText_tu102 (w : WorkUnit) : ∃ text, warpsText tu102Sm w = .ok text := by
  have hle : (concurrency tu102Sm w).toNat ≤ 32 := concurrency_le_ceiling tu102Sm w
  have hpct : occupancyPct tu102Sm w = .ok _ :=
    (occupancyPct_eq_ok (by decide)).mpr ⟨by omega, rfl⟩
  rw [warpsText, hpct]
  exact ⟨_, rfl⟩

/-- The line of a kernel ends with its verdict, wherever it is printed. -/
theorem exec_printUsage (hthreads : l.blockThreads = some blockThreads)
    (hgrid : l.gridBlocks = some grid) (c : Console) :
    ((printUsage l k).exec c).1 = gridVerdict l blockThreads grid k := by
  rw [printUsage, exec_print_bind, printLaunch, hthreads]
  simp only [hgrid]
  by_cases hover : RegistersOverflow k
  · obtain ⟨msg, hverdict, hwork⟩ := gridVerdict_of_overflow l blockThreads grid hover
    rw [hverdict, Prog.exec_bind_error (exec_lift_error hwork _ _)]
  · obtain ⟨text, htext⟩ := warpsText_tu102 ⟨.ofNat (k.registers.toNat * 32),
      ceilDiv k.smemBytes (warpsPerBlock blockThreads)⟩
    have hwork : workUnit k blockThreads = _ := workUnit_eq (Nat.lt_of_not_le hover)
    have hblock : block k blockThreads l.blockSmem = _ := block_eq _ (Nat.lt_of_not_le hover)
    rw [gridVerdict_of_fits hover]
    simp only [bind_assoc, exec_lift_bind hwork, exec_lift_bind htext, exec_print_bind, printGrid,
      exec_lift_bind hblock]
    rfl

theorem mapM_gridVerdict_panics {kernels : List KernelUsage}
    (h : ∃ k ∈ kernels, RegistersOverflow k) :
    ∃ msg, kernels.mapM (gridVerdict l blockThreads grid) = .error (.panic msg) := by
  obtain ⟨k, hk, hover⟩ := h
  obtain ⟨msg, hpanic, -⟩ := gridVerdict_of_overflow l blockThreads grid hover
  obtain ⟨e, he⟩ := Exec.mapM_fails.mpr ⟨k, hk, _, hpanic⟩
  obtain ⟨k', -, hk'⟩ := Exec.exists_of_mapM_eq_error he
  by_cases hover' : RegistersOverflow k'
  · obtain ⟨msg', hpanic', -⟩ := gridVerdict_of_overflow l blockThreads grid hover'
    obtain rfl := Except.error.inj (hk'.symm.trans hpanic')
    exact ⟨msg', he⟩
  · rw [gridVerdict_of_fits hover'] at hk'
    cases hk'

theorem mapM_gridVerdict_returns {kernels : List KernelUsage}
    (h : ∀ k ∈ kernels, ¬ RegistersOverflow k) :
    ∃ fits, kernels.mapM (gridVerdict l blockThreads grid) = .ok fits ∧
      (fits.all id = true ↔ ∀ k ∈ kernels, Spreads l blockThreads grid k) := by
  refine ⟨_, Exec.mapM_eq_map fun k hk ↦ gridVerdict_of_fits (h k hk), ?_⟩
  simp only [List.all_map, List.all_eq_true, Function.comp_apply, id_eq,
    cooperativeFits_iff_spreads]

end

theorem exec_ptxas {w : World} {rest : List Str} {args : Args} {path text : Str} {l : Launch}
    {blockThreads grid : UInt32} (hargs : Args.parse (valueFlags "ptxas") rest = .ok args)
    (hpath : args.positional = [path]) (hread : w.read path = .ok text)
    (hkernels : parsePtxasV text ≠ []) (hl : launch args = .ok l)
    (hthreads : l.blockThreads = some blockThreads) (hgrid : l.gridBlocks = some grid) :
    ((run (lit "ptxas" :: rest)).exec (.start w)).1 =
      (fun fits : List Bool ↦ if fits.all id then 0 else 1) <$>
        (parsePtxasV text).mapM (gridVerdict l blockThreads grid) := by
  have honly : args.only (lit "ptxas: exactly one ptxas -v output file expected") = .ok path := by
    rw [Args.only, hpath]
    rfl
  have hrun : run (lit "ptxas" :: rest) = runPtxas rest := rfl
  have hlines : (((parsePtxasV text).mapM (printUsage l)).exec (.start w)).1 =
      (parsePtxasV text).mapM (gridVerdict l blockThreads grid) :=
    Prog.exec_mapM fun k _ c ↦ exec_printUsage hthreads hgrid c
  rw [hrun, runPtxas, exec_lift_bind hargs, exec_lift_bind honly, exec_read_bind hread]
  simp only [if_neg hkernels]
  rw [exec_lift_bind hl, ← hlines, Prog.exec_bind]
  rcases ((parsePtxasV text).mapM (printUsage l)).exec (.start w) with ⟨e | fits, c⟩
  · rfl
  · rfl

/-- The exit code is 101 when the registers of some kernel overflow, and else it
is zero exactly when the grid of every kernel can be resident at once. -/
theorem ptxas_exit {w : World} {rest : List Str} {args : Args} {path text : Str} {l : Launch}
    {blockThreads grid : UInt32} (hargs : Args.parse (valueFlags "ptxas") rest = .ok args)
    (hpath : args.positional = [path]) (hread : w.read path = .ok text)
    (hkernels : parsePtxasV text ≠ []) (hl : launch args = .ok l)
    (hthreads : l.blockThreads = some blockThreads) (hgrid : l.gridBlocks = some grid) :
    ((invoke w (lit "ptxas" :: rest)).code = 101 ↔ ∃ k ∈ parsePtxasV text, RegistersOverflow k) ∧
      ((invoke w (lit "ptxas" :: rest)).code = 0 ↔ ∀ k ∈ parsePtxasV text,
        ¬ RegistersOverflow k ∧ Spreads l blockThreads grid k) ∧
      (invoke w (lit "ptxas" :: rest)).code ∈ [0, 1, 101] := by
  have hexec := exec_ptxas hargs hpath hread hkernels hl hthreads hgrid
  rw [invoke]
  rcases hrun : (run (lit "ptxas" :: rest)).exec (.start w) with ⟨r, c⟩
  rw [hrun] at hexec
  by_cases hover : ∃ k ∈ parsePtxasV text, RegistersOverflow k
  · obtain ⟨msg, hpanic⟩ := mapM_gridVerdict_panics (l := l) hover
    rw [hpanic] at hexec
    obtain rfl : r = .error (.panic msg) := hexec
    refine ⟨iff_of_true rfl hover, iff_of_false (by simp) ?_, by simp⟩
    intro hall
    obtain ⟨k, hk, hk'⟩ := hover
    exact (hall k hk).1 hk'
  · have hnone : ∀ k ∈ parsePtxasV text, ¬ RegistersOverflow k :=
      fun k hk hk' ↦ hover ⟨k, hk, hk'⟩
    obtain ⟨fits, hfits, hall⟩ := mapM_gridVerdict_returns (l := l) hnone
    rw [hfits] at hexec
    obtain rfl : r = .ok (if fits.all id then 0 else 1) := hexec
    have hiff : (∀ k ∈ parsePtxasV text, ¬ RegistersOverflow k ∧ Spreads l blockThreads grid k) ↔
        fits.all id = true := by
      rw [hall]
      exact forall₂_congr fun k hk ↦ and_iff_right (hnone k hk)
    rw [hiff]
    by_cases hyes : fits.all id = true
    · simp only [hyes, if_true]
      exact ⟨iff_of_false (by decide) hover, by decide, by decide⟩
    · simp only [hyes]
      exact ⟨iff_of_false (by decide) hover, by decide, by decide⟩

/-- A kernel of 168 registers and 60 KiB of shared memory. -/
def tileReport : Str :=
  "ptxas info    : Compiling entry function 'tile' for 'sm_75'\n" ++
    lit "ptxas info    : Used 168 registers, used 1 barriers, 61440 bytes smem\n"

/-- Two blocks of 384 threads for each of the 72 instances are too many. -/
theorem ptxas_exit_tile :
    ¬ ∀ k ∈ parsePtxasV tileReport, ¬ RegistersOverflow k ∧
      Spreads ⟨some 384, some 144, 72, none⟩ 384 144 k := by
  have hargs : Args.parse (valueFlags "ptxas")
      [lit "k.txt", lit "--block-threads", lit "384", lit "--grid-blocks", lit "144"] =
      .ok ⟨["k.txt"], [("block-threads", some "384"), ("grid-blocks", some "144")]⟩ := by
    decide +kernel
  have hl : launch ⟨["k.txt"], [("block-threads", some "384"), ("grid-blocks", some "144")]⟩ =
      .ok ⟨some 384, some 144, 72, none⟩ := by rfl
  have hexit := ptxas_exit hargs rfl (World.write_read_self twoLoops "k.txt" tileReport)
    (by decide +kernel) hl rfl rfl
  have hcode : (invoke (twoLoops.write "k.txt" tileReport)
      [lit "ptxas", lit "k.txt", lit "--block-threads", lit "384", lit "--grid-blocks",
        lit "144"]).code = 1 := by
    decide +kernel
  intro hall
  have hzero := hexit.2.1.mpr hall
  rw [hcode] at hzero
  cases hzero

end CalxMill.Cli
