import CalxMill.Nvidia.Published
import CalxMill.Nvidia.Verify

/-!
# The order of the projection measurements

The absolute gate reads its measurements by their identifiers and takes the
median of each, so the rows of the file may stand in any order.
-/

namespace CalxMill.Nvidia

open Lib Rust

namespace Table

theorem col_congr {t t' : Table} (h : t'.header = t.header) (name : Str) :
    t'.col name = t.col name := by
  rw [col, col, h]

/-- A column of the header names a cell in every row of the table. -/
theorem cell_eq_ok {text name : Str} {row : List Str} {i : ℕ} (hrow : row ∈ (parse text).rows)
    (hi : (parse text).col name = .ok i) : cell row i = .ok (row.getD i []) := by
  have hlt : i < row.length := (col_eq_ok hi).trans_le (length_le_of_mem_parse hrow)
  rw [cell, List.getElem?_eq_getElem hlt, List.getD_eq_getElem _ _ hlt]
  rfl

end Table

/-- Every measured value is a number, and none is a negative zero. -/
def NumericValues (t : Table) : Prop :=
  ∀ j, t.col "value" = .ok j → ∀ row ∈ t.rows, ∃ q, F64.parse (row.getD j []) = some (.fin q) ∧
    ((row.getD j []).head? = some '-' → q < 0)

section

variable {text text' : Str} {meas meas' : ProjMeas}

/-- Over numbers the reading of the file returns. -/
theorem exists_readProj {i j : ℕ} (hid : (Table.parse text).col "row_id" = .ok i)
    (hvalue : (Table.parse text).col "value" = .ok j) (h : NumericValues (Table.parse text)) :
    ∃ meas, readProj text = .ok meas := by
  have hread : readProj text = (Table.parse text).rows.foldlM (addMeas i j) [] := by
    rw [readProj]
    simp only [hid, hvalue]
    rfl
  rw [hread]
  refine ⟨_, Exec.foldlM_eq_foldl (f := fun meas row ↦ Assoc.alter (fun vals ↦ vals.getD [] ++
    [(F64.parse (row.getD j [])).getD .nan]) (row.getD i []) meas) (fun _ ↦ True)
    (fun meas row hrow _ ↦ ⟨?_, trivial⟩) [] trivial⟩
  obtain ⟨q, hq, -⟩ := h j hvalue row hrow
  rw [addMeas, Table.cell_eq_ok hrow hvalue, Table.cell_eq_ok hrow hid]
  simp only [bind, Except.bind, hq, Exec.ofOption_some]
  rfl

theorem ownValues_fin {j : ℕ} (hvalue : (Table.parse text).col "value" = .ok j)
    (h : NumericValues (Table.parse text)) (id : Str) :
    ∀ v ∈ ownValues (Table.parse text) id, ∃ q, v = .fin q := by
  intro v hv
  obtain ⟨row, hrow, rfl⟩ := List.mem_map.mp hv
  obtain ⟨q, hq, -⟩ := h j hvalue row (List.mem_of_mem_filter hrow)
  rw [Table.field_eq_getD hvalue, hq]
  exact ⟨q, rfl⟩

/-- The gate sees the median of an identifier's values. -/
theorem measured_eq (hread : readProj text = .ok meas) {id : Str}
    (hfin : ∀ v ∈ ownValues (Table.parse text) id, ∃ q, v = .fin q) :
    measured meas id =
      let own := ownValues (Table.parse text) id
      .ok (if own = [] then none else some (.fin (sortedMedian (own.map ExtNum.val)))) := by
  rw [measured, (readProj_lookup hread).2 id]
  dsimp only
  split
  next hnone =>
    have hnil : ownValues (Table.parse text) id = [] := by
      by_contra hne
      rw [if_neg hne] at hnone
      cases hnone
    rw [if_pos hnil]
    rfl
  next vals hsome =>
    split at hsome
    · cases hsome
    next hne =>
      obtain rfl := Option.some.inj hsome
      have hmedian := median_map_fin (l := (ownValues (Table.parse text) id).map ExtNum.val)
        (by simpa using hne)
      rw [ExtNum.map_fin_val hfin] at hmedian
      rw [if_neg hne, hmedian]
      rfl

theorem ownValues_perm {t t' : Table} (hheader : t'.header = t.header) (hrows : t'.rows.Perm t.rows)
    (id : Str) : (ownValues t' id).Perm (ownValues t id) := by
  have hfield : t'.field = t.field := by
    funext name row
    rw [Table.field, Table.field, hheader]
  rw [ownValues, ownValues, hfield]
  exact (hrows.filter _).map _

end

/-! ## Reordering the file -/

/-- Both readings fail alike, or the gate sees the same measurements in both. -/
def SameMeas (x x' : Exec Str ProjMeas) : Prop :=
  (∃ e, x = .error e ∧ x' = .error e) ∨
    ∃ meas meas', x = .ok meas ∧ x' = .ok meas' ∧ ∀ id, measured meas' id = measured meas id

theorem SameMeas.refl (x : Exec Str ProjMeas) : SameMeas x x := by
  cases x with
  | error e => exact .inl ⟨e, rfl, rfl⟩
  | ok meas => exact .inr ⟨meas, meas, rfl, rfl, fun _ ↦ rfl⟩

theorem readProj_reorder {text text' : Str}
    (hheader : (Table.parse text').header = (Table.parse text).header)
    (hrows : (Table.parse text').rows.Perm (Table.parse text).rows)
    (hnumeric : NumericValues (Table.parse text)) :
    SameMeas (readProj text) (readProj text') := by
  have hcol := Table.col_congr hheader
  have hnumeric' : NumericValues (Table.parse text') := by
    intro j hj row hrow
    exact hnumeric j (hcol _ ▸ hj) row (hrows.mem_iff.mp hrow)
  cases hid : (Table.parse text).col "row_id" with
  | error e =>
      left
      refine ⟨e, ?_, ?_⟩
      · simp [readProj, hid, bind, Except.bind]
      · simp [readProj, hcol, hid, bind, Except.bind]
  | ok i =>
      cases hvalue : (Table.parse text).col "value" with
      | error e =>
          left
          refine ⟨e, ?_, ?_⟩
          · simp [readProj, hid, hvalue, bind, Except.bind]
          · simp [readProj, hcol, hid, hvalue, bind, Except.bind]
      | ok j =>
          right
          have hvalue' := (hcol "value").trans hvalue
          obtain ⟨meas, hread⟩ := exists_readProj hid hvalue hnumeric
          obtain ⟨meas', hread'⟩ := exists_readProj ((hcol "row_id").trans hid) hvalue' hnumeric'
          refine ⟨meas, meas', hread, hread', fun id ↦ ?_⟩
          have hperm := ownValues_perm hheader hrows id
          rw [measured_eq hread (ownValues_fin hvalue hnumeric id),
            measured_eq hread' (ownValues_fin hvalue' hnumeric' id)]
          dsimp only
          rw [sortedMedian_perm (hperm.map ExtNum.val)]
          simp only [← List.length_eq_zero_iff, hperm.length_eq]

theorem extension_projPath (root : Str) : extension (projPath root) = some (lit "csv") := by
  obtain ⟨dir, -, hdir⟩ := joinPath_append root "data/results/t5820-2xrtx6000" "proj.csv"
  have hpath : projPath root = dir ++ '/' :: lit "proj.csv" := hdir
  rw [extension, hpath, fileName_append (by decide) (by decide)]
  decide

theorem opsPath_ne_projPath (root : Str) : opsPath root ≠ projPath root := by
  obtain ⟨dir, -, hdir⟩ := joinPath_append root "data/results/t5820-2xrtx6000" "proj.csv"
  obtain ⟨dir', -, hdir'⟩ := joinPath_append root "table" "tu102_ops.csv"
  have hproj : fileName (projPath root) = some (lit "proj.csv") := by
    have hpath : projPath root = dir ++ '/' :: lit "proj.csv" := hdir
    rw [hpath, fileName_append (by decide) (by decide)]
  have hops : fileName (opsPath root) = some (lit "tu102_ops.csv") := by
    have hpath : opsPath root = dir' ++ '/' :: lit "tu102_ops.csv" := hdir'
    rw [hpath, fileName_append (by decide) (by decide)]
  intro h
  rw [h, hproj] at hops
  exact absurd hops (by decide)

/-- A bench binary and the cached disassembly next to it. -/
theorem bench_append (root name cached : Str) (hslash : '/' ∉ name ∧ '/' ∉ cached)
    (hname : name ≠ [] ∧ name ≠ ['.'] ∧ name ≠ lit "..")
    (hcached : cached ≠ [] ∧ cached ≠ ['.'] ∧ cached ≠ lit "..")
    (hcache : (splitExtension name).1 ++ '.' :: lit "sass" = cached)
    (hext : (splitExtension name).2 = some (lit "bin"))
    (hext' : (splitExtension cached).2 = some (lit "sass")) :
    let bin := joinPath root (lit "bench/proj" ++ '/' :: name)
    extension bin = some (lit "bin") ∧
      extension (withExtension bin "sass") = some (lit "sass") ∧
        root <+: withExtension bin "sass" := by
  obtain ⟨dir, hprefix, hdir⟩ := joinPath_append root "bench/proj" name
  dsimp only
  rw [hdir, withExtension_append hslash.1 hname, hcache]
  refine ⟨?_, ?_, hprefix.trans (List.prefix_append dir _)⟩
  · rw [extension_append hslash.1 hname, hext]
  · rw [extension_append hslash.2 hcached, hext']

def benchBinaries : List Str :=
  ["bench/proj/anchors.bin", "bench/proj/fa_mini.bin", "bench/proj/inject.bin"]

theorem bench_paths (root : Str) {binary : Str} (h : binary ∈ benchBinaries) :
    let bin := joinPath root binary
    extension bin = some (lit "bin") ∧
      extension (withExtension bin "sass") = some (lit "sass") ∧
        root <+: withExtension bin "sass" := by
  simp only [benchBinaries, List.mem_cons, List.not_mem_nil, or_false] at h
  rcases h with rfl | rfl | rfl
  · exact bench_append root "anchors.bin" "anchors.sass" (by decide) (by decide) (by decide)
      (by decide) (by decide) (by decide)
  · exact bench_append root "fa_mini.bin" "fa_mini.sass" (by decide) (by decide) (by decide)
      (by decide) (by decide) (by decide)
  · exact bench_append root "inject.bin" "inject.sass" (by decide) (by decide) (by decide)
      (by decide) (by decide) (by decide)

theorem binary_of_mem_gateKernels {kernels : List KernelRow} (h : gateKernels = .ok kernels) :
    ∀ k ∈ kernels, k.binary ∈ benchBinaries := by
  have hall : (fun ks ↦ ks.all fun k : KernelRow ↦ decide (k.binary ∈ benchBinaries)) <$>
      gateKernels = .ok true := by
    decide +kernel
  rw [h] at hall
  have htrue := Except.ok.inj hall
  simpa [List.all_eq_true] using htrue

section

variable (w : World) (root : Str)

/-- The disassemblies do not depend on the measurement file. -/
theorem benchSass_write (text text' : Str) {binary : Str} (h : binary ∈ benchBinaries) :
    benchSass (w.write (projPath root) text') root binary =
      benchSass (w.write (projPath root) text) root binary := by
  obtain ⟨hbin, hsass, -⟩ := bench_paths root h
  have hne : ∀ {path ext : Str}, extension path = some ext → ext ≠ lit "csv" →
      path ≠ projPath root := by
    rintro _ ext hext hne rfl
    exact hne (Option.some.inj (hext.symm.trans (extension_projPath root)))
  have hbin' := hne hbin (by decide)
  have hsass' := hne hsass (by decide)
  rw [benchSass, benchSass]
  simp only [World.write_sassText w hbin', World.write_sassText w hsass']
  rfl

variable {w root}

theorem ruleKernel_congr {w' : World} {meas meas' : ProjMeas} {rates : Rates} {k : KernelRow}
    (hsass : benchSass w' root k.binary = benchSass w root k.binary)
    (hmeas : ∀ id, measured meas' id = measured meas id) :
    ruleKernel w' root rates meas' k = ruleKernel w root rates meas k := by
  rw [ruleKernel, ruleKernel, hmeas, hsass]

/-- The table, the measurements and the disassemblies are all that a run uses. -/
theorem verifyProjection_congr {w' : World}
    (hops : w'.read (opsPath root) = w.read (opsPath root))
    (hproj : SameMeas (World.report (w.read (projPath root)) >>= readProj)
      (World.report (w'.read (projPath root)) >>= readProj))
    (hsass : ∀ binary ∈ benchBinaries, benchSass w' root binary = benchSass w root binary) :
    verifyProjection w' root = verifyProjection w root := by
  have hrun : ∀ v : World, verifyProjection v root = (do
      let table ← World.report (v.read (opsPath root))
      let rates ← Rates.parse table
      let meas ← World.report (v.read (projPath root)) >>= readProj
      let kernels ← gateKernels
      let st ← kernels.foldlM (verifyRow v root rates meas) ⟨verifyHeader, 0⟩
      pure (st.out ++ verifyTrailer st.failures, if 0 < st.failures then 1 else 0)) := by
    intro v
    simp only [verifyProjection, bind_assoc]
  rw [hrun, hrun, hops]
  rcases hproj with ⟨e, h, h'⟩ | ⟨meas, meas', h, h', hmeas⟩
  · rw [h, h']
    simp only [bind, Except.bind]
  · rw [h, h']
    cases hkernels : gateKernels with
    | error e => simp only [bind, Except.bind]
    | ok kernels =>
        have hrow : ∀ rates st, kernels.foldlM (verifyRow w' root rates meas') st =
            kernels.foldlM (verifyRow w root rates meas) st := by
          intro rates
          refine Exec.foldlM_congr fun st k hk ↦ ?_
          have hbench := hsass _ (binary_of_mem_gateKernels hkernels k hk)
          rw [verifyRow, verifyRow, ruleKernel_congr hbench hmeas]
        simp only [bind, Except.bind, hrow]

end

/-- A run depends on the files below its root alone. -/
theorem verifyProjection_agree {w w' : World} {words : List Str} {root : Str}
    (h : World.FilesOn (World.Reaches words) w w') (hroot : root ∈ words) :
    verifyProjection w root = verifyProjection w' root := by
  have hreach := fun path ↦ (World.reaches_of_mem hroot).joinPath path
  apply verifyProjection_congr
  · exact h.read _ (hreach _)
  · rw [h.read (projPath root) (hreach _)]
    exact SameMeas.refl _
  · intro binary hbinary
    have hbin := hreach binary
    have hsass : World.Reaches words (withExtension (joinPath root binary) "sass") :=
      ⟨root, hroot, (bench_paths root hbinary).2.2⟩
    rw [benchSass, benchSass]
    simp only [h.present _ hbin, h.present _ hsass, h.sassText hbin, h.sassText hsass]

/-- Reordering the measurements changes neither the report nor the exit code. -/
theorem verifyProjection_reorder (w : World) (root : Str) {text text' : Str}
    (hheader : (Table.parse text').header = (Table.parse text).header)
    (hrows : (Table.parse text').rows.Perm (Table.parse text).rows)
    (hnumeric : NumericValues (Table.parse text)) :
    verifyProjection (w.write (projPath root) text') root =
      verifyProjection (w.write (projPath root) text) root := by
  apply verifyProjection_congr
  · rw [World.write_read_of_ne _ (opsPath_ne_projPath root),
      World.write_read_of_ne _ (opsPath_ne_projPath root)]
  · rw [World.write_read_self, World.write_read_self]
    exact readProj_reorder hheader hrows hnumeric
  · exact fun binary h ↦ benchSass_write w root text text' h

/-- Two values of a gate kernel, in either order. -/
theorem verifyProjection_reorder_ffmaTree :
    let text : Str := "row_id,value\nproj.anchor.ffma,4.5\nproj.anchor.ffma,4\n"
    let text' : Str := "row_id,value\nproj.anchor.ffma,4\nproj.anchor.ffma,4.5\n"
    verifyProjection (ffmaTree.write (projPath "t") text') "t" =
      verifyProjection (ffmaTree.write (projPath "t") text) "t" ∧
    (fun r : Str × ℕ ↦ (lines r.1)[1]?) <$>
      verifyProjection (ffmaTree.write (projPath "t") text) "t" = .ok (some ffmaLine) := by
  intro text text'
  have hrows : (Table.parse text).rows =
      [[lit "proj.anchor.ffma", lit "4.5"], [lit "proj.anchor.ffma", lit "4"]] := by
    decide +kernel
  refine ⟨verifyProjection_reorder ffmaTree "t" (by decide +kernel) (by decide +kernel) ?_,
    by decide +kernel⟩
  intro j hj
  have hcol : (Table.parse text).col "value" = .ok 1 := by decide +kernel
  obtain rfl := Except.ok.inj (hj.symm.trans hcol)
  rw [hrows]
  simp only [List.forall_mem_cons]
  exact ⟨⟨9 / 2, by decide +kernel, by decide⟩, ⟨4, by decide +kernel, by decide⟩, nofun⟩

end CalxMill.Nvidia
