import CalxMill.Throughput

/-!
# Precision and unrolling

The precision of an op and the unrolling of its loop set its register and byte
demands.  A larger demand never makes room for more work, a larger substrate
never for less, and more streamed bytes never shorten a run, up to the largest
word and across the limits that a zero switches off.
-/

namespace CalxMill

open Lib Rust U32

structure Precision where
  accBytes : UInt32
  dataBytes : UInt32
  pipe : ℕ

def streamBytes (elems : UInt32) (p : Precision) : UInt32 := satMul elems p.dataBytes

def accRegisters (baseRegisters accElems : UInt32) (p : Precision) : UInt32 :=
  let accRegs := ceilDiv (satMul accElems p.accBytes) 4
  satAdd baseRegisters accRegs

def unrolledRegisters (base unroll perIterLive : UInt32) : UInt32 :=
  satAdd base (satMul unroll perIterLive)

/-! ## The estimates -/

section Estimates

variable {a a' b b' c c' : UInt32}

theorem satAdd_le_satAdd (ha : a ≤ a') (hb : b ≤ b') : satAdd a b ≤ satAdd a' b' := by
  rw [UInt32.le_iff_toNat_le] at ha hb ⊢
  rw [toNat_satAdd, toNat_satAdd]
  exact min_le_min_right _ (Nat.add_le_add ha hb)

theorem satMul_le_satMul (ha : a ≤ a') (hb : b ≤ b') : satMul a b ≤ satMul a' b' := by
  rw [UInt32.le_iff_toNat_le] at ha hb ⊢
  rw [toNat_satMul, toNat_satMul]
  exact min_le_min_right _ (Nat.mul_le_mul ha hb)

theorem ceilDiv_le_ceilDiv (ha : a ≤ a') (d : UInt32) : ceilDiv a d ≤ ceilDiv a' d := by
  rw [UInt32.le_iff_toNat_le] at ha ⊢
  rw [toNat_ceilDiv, toNat_ceilDiv]
  rcases Nat.eq_zero_or_pos d.toNat with hd | hd
  · rw [hd, ceilDiv_zero, ceilDiv_zero]
  · exact (gc_mul_ceilDiv hd).monotone_l ha

theorem streamBytes_mono (elems : UInt32) {p p' : Precision} (h : p.dataBytes ≤ p'.dataBytes) :
    streamBytes elems p ≤ streamBytes elems p' :=
  satMul_le_satMul (UInt32.le_refl elems) h

theorem accRegisters_mono {p p' : Precision} (hbase : a ≤ a') (helems : b ≤ b')
    (hwidth : p.accBytes ≤ p'.accBytes) : accRegisters a b p ≤ accRegisters a' b' p' :=
  satAdd_le_satAdd hbase (ceilDiv_le_ceilDiv (satMul_le_satMul helems hwidth) 4)

theorem unrolledRegisters_mono (hbase : a ≤ a') (hunroll : b ≤ b') (hlive : c ≤ c') :
    unrolledRegisters a b c ≤ unrolledRegisters a' b' c' :=
  satAdd_le_satAdd hbase (satMul_le_satMul hunroll hlive)

end Estimates

/-! ## Demands and capacities -/

structure WorkUnit.Within (w w' : WorkUnit) : Prop where
  registers : w.registers ≤ w'.registers
  localStore : w.localStoreBytes ≤ w'.localStoreBytes

/-- A block of no units, which fits nowhere, stays without units. -/
structure Block.Within (b b' : Block) : Prop where
  units : b.units ≤ b'.units
  empty : b.units = 0 → b'.units = 0
  unitRegisters : b.unitRegisters ≤ b'.unitRegisters
  localStore : b.localStoreBytes ≤ b'.localStoreBytes

/-- More capacity in the same allocation units; a local store of zero, which
sets no limit, stays zero. -/
structure Substrate.Within (s s' : Substrate) : Prop where
  registers : s.registerCapacity ≤ s'.registerCapacity
  ceiling : s.concurrencyCeiling ≤ s'.concurrencyCeiling
  localStore : s.localStoreBytes ≤ s'.localStoreBytes
  unlimited : s.localStoreBytes = 0 → s'.localStoreBytes = 0
  registerGranularity : s.registerGranularity = s'.registerGranularity
  localStoreGranularity : s.localStoreGranularity = s'.localStoreGranularity

theorem Substrate.Within.refl (s : Substrate) : s.Within s :=
  ⟨UInt32.le_refl _, UInt32.le_refl _, UInt32.le_refl _, id, rfl, rfl⟩

theorem Block.Within.refl (b : Block) : b.Within b :=
  ⟨UInt32.le_refl _, id, UInt32.le_refl _, UInt32.le_refl _⟩

theorem ne_zero_of_le {a b : UInt32} (h : a ≤ b) (ha : a ≠ 0) : b ≠ 0 := by
  rintro rfl
  exact ha (UInt32.le_antisymm h (UInt32.zero_le))

section Room

variable {s s' : Substrate}

theorem WorkUnit.Within.registerDemand_le {w w' : WorkUnit} (hw : w.Within w')
    (hs : s.Within s') : w.registerDemand s' ≤ w'.registerDemand s := by
  rw [WorkUnit.registerDemand, WorkUnit.registerDemand, hs.registerGranularity]
  exact leastMultiple_mono _ (max_le_max_right 1 (UInt32.le_iff_toNat_le.mp hw.registers))

theorem WorkUnit.Within.localStoreDemand_le {w w' : WorkUnit} (hw : w.Within w')
    (hs : s.Within s') : w.localStoreDemand s' ≤ w'.localStoreDemand s := by
  rw [WorkUnit.localStoreDemand, WorkUnit.localStoreDemand, hs.localStoreGranularity]
  exact leastMultiple_mono _ (UInt32.le_iff_toNat_le.mp hw.localStore)

/-- Smaller units on a larger substrate. -/
theorem concurrency_le {w w' : WorkUnit} (hw : w.Within w') (hs : s.Within s') :
    concurrency s w' ≤ concurrency s' w := by
  obtain ⟨hceiling, hreg, hstore⟩ := le_concurrency_iff.mp (le_refl (concurrency s w').toNat)
  rw [UInt32.le_iff_toNat_le, le_concurrency_iff]
  refine ⟨hceiling.trans (UInt32.le_iff_toNat_le.mp hs.ceiling), ?_, fun hw0 hs0 ↦ ?_⟩
  · calc (concurrency s w').toNat * min (w.registerDemand s') max32
        ≤ (concurrency s w').toNat * min (w'.registerDemand s) max32 :=
          Nat.mul_le_mul_left _ (min_le_min_right _ (hw.registerDemand_le hs))
      _ ≤ s.registerCapacity.toNat := hreg
      _ ≤ s'.registerCapacity.toNat := UInt32.le_iff_toNat_le.mp hs.registers
  · calc (concurrency s w').toNat * min (w.localStoreDemand s') max32
        ≤ (concurrency s w').toNat * min (w'.localStoreDemand s) max32 :=
          Nat.mul_le_mul_left _ (min_le_min_right _ (hw.localStoreDemand_le hs))
      _ ≤ s.localStoreBytes.toNat := hstore (ne_zero_of_le hw.localStore hw0) (mt hs.unlimited hs0)
      _ ≤ s'.localStoreBytes.toNat := UInt32.le_iff_toNat_le.mp hs.localStore

theorem Block.Within.registerDemand_le {b b' : Block} (hb : b.Within b') (hs : s.Within s') :
    b.registerDemand s' ≤ b'.registerDemand s := by
  rw [Block.registerDemand, Block.registerDemand, hs.registerGranularity]
  exact leastMultiple_mono _ (max_le_max_right 1 (UInt32.le_iff_toNat_le.mp hb.unitRegisters))

theorem Block.Within.localStoreDemand_le {b b' : Block} (hb : b.Within b') (hs : s.Within s') :
    b.localStoreDemand s' ≤ b'.localStoreDemand s := by
  rw [Block.localStoreDemand, Block.localStoreDemand, hs.localStoreGranularity]
  exact leastMultiple_mono _ (UInt32.le_iff_toNat_le.mp hb.localStore)

theorem blocksPerInstance_le {b b' : Block} (hb : b.Within b') (hs : s.Within s') :
    blocksPerInstance s b' ≤ blocksPerInstance s' b := by
  by_cases hempty : b'.units = 0
  · rw [blocksPerInstance, if_pos hempty]
    exact UInt32.zero_le
  have hunits := UInt32.le_iff_toNat_le.mp hb.units
  have hunits1 : 1 ≤ b.units.toNat := Nat.one_le_iff_ne_zero.mpr fun h ↦
    hempty (hb.empty (UInt32.toNat_inj.mp h))
  obtain ⟨hceiling, hreg, hstore⟩ := (le_blocksPerInstance_capped_iff (hunits1.trans hunits)).mp
    (le_refl (blocksPerInstance s b').toNat)
  rw [UInt32.le_iff_toNat_le, le_blocksPerInstance_capped_iff hunits1]
  refine ⟨?_, ?_, fun hb0 hs0 ↦ ?_⟩
  · calc (blocksPerInstance s b').toNat * b.units.toNat
        ≤ (blocksPerInstance s b').toNat * b'.units.toNat := Nat.mul_le_mul_left _ hunits
      _ ≤ s.concurrencyCeiling.toNat := hceiling
      _ ≤ s'.concurrencyCeiling.toNat := UInt32.le_iff_toNat_le.mp hs.ceiling
  · calc (blocksPerInstance s b').toNat * min (b.registerDemand s' * b.units.toNat) max32
        ≤ (blocksPerInstance s b').toNat * min (b'.registerDemand s * b'.units.toNat) max32 :=
          Nat.mul_le_mul_left _ (min_le_min_right _
            (Nat.mul_le_mul (hb.registerDemand_le hs) hunits))
      _ ≤ s.registerCapacity.toNat := hreg
      _ ≤ s'.registerCapacity.toNat := UInt32.le_iff_toNat_le.mp hs.registers
  · calc (blocksPerInstance s b').toNat * min (b.localStoreDemand s') max32
        ≤ (blocksPerInstance s b').toNat * min (b'.localStoreDemand s) max32 :=
          Nat.mul_le_mul_left _ (min_le_min_right _ (hb.localStoreDemand_le hs))
      _ ≤ s.localStoreBytes.toNat := hstore (ne_zero_of_le hb.localStore hb0) (mt hs.unlimited hs0)
      _ ≤ s'.localStoreBytes.toNat := UInt32.le_iff_toNat_le.mp hs.localStore

/-- A grid that is resident stays so with more room for it. -/
theorem cooperativeFits_mono {b b' : Block} {grid grid' instances instances' : UInt32}
    (hblocks : blocksPerInstance s b' ≤ blocksPerInstance s' b) (hgrid : grid ≤ grid')
    (hinstances : instances ≤ instances') (h : cooperativeFits s b' grid' instances = true) :
    cooperativeFits s' b grid instances' = true := by
  rw [cooperativeFits, decide_eq_true_eq] at h ⊢
  exact UInt32.le_trans hgrid (UInt32.le_trans h (satMul_le_satMul hblocks hinstances))

end Room

theorem cycles_project (s : Substrate) (pipeRates opsPerPipe : List UInt32)
    (totalBytes : UInt32) : (project s pipeRates opsPerPipe totalBytes).cycles.toNat =
      max (max (bindPipe pipeRates opsPerPipe).1.toNat
        (ceilDiv (opsPerPipe.foldl satAdd 0) (max s.issueCap 1)).toNat)
        (ceilDiv totalBytes s.memBandwidth).toNat := by
  simp only [project, UInt32.le_iff_toNat_le]
  split_ifs <;> dsimp only <;> omega

/-- More streamed bytes never shorten the run. -/
theorem project_mono (s : Substrate) (pipeRates opsPerPipe : List UInt32) {bytes bytes' : UInt32}
    (h : bytes ≤ bytes') : (project s pipeRates opsPerPipe bytes).cycles ≤
      (project s pipeRates opsPerPipe bytes').cycles := by
  rw [UInt32.le_iff_toNat_le, cycles_project, cycles_project]
  exact max_le_max_left _ (UInt32.le_iff_toNat_le.mp (ceilDiv_le_ceilDiv h s.memBandwidth))

/-! ## The whole stack -/

/-- A register estimate that leaves at most as much room as another one. -/
structure NoMoreRoom (s : Substrate) (registers registers' : UInt32) : Prop where
  concurrency : ∀ localStore,
    concurrency s ⟨registers', localStore⟩ ≤ concurrency s ⟨registers, localStore⟩
  blocks : ∀ units localStore, blocksPerInstance s ⟨units, registers', localStore⟩ ≤
    blocksPerInstance s ⟨units, registers, localStore⟩
  fits : ∀ units localStore grid instances,
    cooperativeFits s ⟨units, registers', localStore⟩ grid instances = true →
      cooperativeFits s ⟨units, registers, localStore⟩ grid instances = true

theorem noMoreRoom (s : Substrate) {registers registers' : UInt32} (h : registers ≤ registers') :
    NoMoreRoom s registers registers' := by
  have hblocks : ∀ units localStore, blocksPerInstance s ⟨units, registers', localStore⟩ ≤
      blocksPerInstance s ⟨units, registers, localStore⟩ := fun units localStore ↦
    blocksPerInstance_le ⟨UInt32.le_refl _, id, h, UInt32.le_refl _⟩ (.refl s)
  refine ⟨fun localStore ↦ ?_, hblocks, fun units localStore grid instances ↦ ?_⟩
  · exact concurrency_le ⟨h, UInt32.le_refl _⟩ (.refl s)
  · exact cooperativeFits_mono (hblocks units localStore) (UInt32.le_refl _) (UInt32.le_refl _)

/-- What the precision and unroll estimates promise on a substrate. -/
structure EstimatesMonotone (s : Substrate) : Prop where
  acc : ∀ base base' elems elems' (p p' : Precision), base ≤ base' → elems ≤ elems' →
    p.accBytes ≤ p'.accBytes → NoMoreRoom s (accRegisters base elems p) (accRegisters base' elems' p')
  unroll : ∀ base base' unroll unroll' live live', base ≤ base' → unroll ≤ unroll' →
    live ≤ live' → NoMoreRoom s (unrolledRegisters base unroll live)
      (unrolledRegisters base' unroll' live')
  unit : ∀ w w' : WorkUnit, w.Within w' → concurrency s w' ≤ concurrency s w
  block : ∀ b b' : Block, b.Within b' → blocksPerInstance s b' ≤ blocksPerInstance s b ∧
    ∀ grid grid' instances, grid ≤ grid' → cooperativeFits s b' grid' instances = true →
      cooperativeFits s b grid instances = true
  substrate : ∀ s', s.Within s' → (∀ w, concurrency s w ≤ concurrency s' w) ∧
    ∀ b, blocksPerInstance s b ≤ blocksPerInstance s' b ∧
      ∀ grid instances instances', instances ≤ instances' →
        cooperativeFits s b grid instances = true → cooperativeFits s' b grid instances' = true
  stream : ∀ pipeRates opsPerPipe elems (p p' : Precision), p.dataBytes ≤ p'.dataBytes →
    (project s pipeRates opsPerPipe (streamBytes elems p)).cycles ≤
      (project s pipeRates opsPerPipe (streamBytes elems p')).cycles

theorem estimates_monotone (s : Substrate) : EstimatesMonotone s where
  acc base base' elems elems' p p' hbase helems hwidth :=
    noMoreRoom s (accRegisters_mono hbase helems hwidth)
  unroll base base' unroll unroll' live live' hbase hunroll hlive :=
    noMoreRoom s (unrolledRegisters_mono hbase hunroll hlive)
  unit w w' hw := concurrency_le hw (.refl s)
  block b b' hb := by
    have hblocks := blocksPerInstance_le hb (.refl s)
    refine ⟨hblocks, fun grid grid' instances hgrid ↦ ?_⟩
    exact cooperativeFits_mono hblocks hgrid (UInt32.le_refl _)
  substrate s' hs := by
    refine ⟨fun w ↦ concurrency_le ⟨UInt32.le_refl _, UInt32.le_refl _⟩ hs, fun b ↦ ?_⟩
    have hblocks := blocksPerInstance_le (.refl b) hs
    refine ⟨hblocks, fun grid instances instances' hinstances ↦ ?_⟩
    exact cooperativeFits_mono hblocks (UInt32.le_refl _) hinstances
  stream pipeRates opsPerPipe elems p p' h :=
    project_mono s pipeRates opsPerPipe (streamBytes_mono elems h)

end CalxMill
