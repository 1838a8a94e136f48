import CalxMill.Nvidia.Projectable

/-!
# The rates of a published table

The published table read back: its records, and for every measured identifier
the first row with the largest value.  A value is printed rounded to six
significant digits, and the ingest compares what was printed.
-/

namespace CalxMill.Nvidia

open Lib Rust

/-- The median of the group, as the table prints it. -/
def Published.value (p : Published) : ℚ :=
  sixDigits ((median p.sample.runVals).toOption.getD .nan).val

/-- The published rows of an identifier, in the order of the table. -/
def variants (published : List Published) (id : Str) : List Published :=
  published.filter fun p ↦ p.row.rowId = id

/-! ## The largest of a list -/

theorem argmax_map {α β : Type} {f : α → β} {v : β → ℚ} {w : α → ℚ} {l : List α}
    (h : ∀ a ∈ l, v (f a) = w a) : (l.map f).argmax v = (l.argmax w).map f := by
  induction l using List.reverseRecOn with
  | nil => rfl
  | append_singleton l a ih =>
      obtain ⟨hl, ha⟩ := List.forall_mem_append.mp h
      have hlast : v (f a) = w a := ha a (by simp)
      rw [List.map_append, List.map_singleton, List.argmax_concat, List.argmax_concat, ih hl]
      cases hmax : l.argmax w with
      | none => rfl
      | some c =>
          have hc : v (f c) = w c := hl c (List.argmax_mem hmax)
          simp only [Option.map_some, hc, hlast]
          split
          · rfl
          · rfl

/-! ## Reading the table back -/

/-- The records of the table are its header and its rows, at full width. -/
theorem parseRecords_render (rows : List OpsRow) :
    parseRecords (render rows) = header :: rows.map OpsRow.fields := by
  apply parseRecords_foldl_writeRecord
  intro fields hfields
  rcases List.mem_cons.mp hfields with rfl | hfields
  · decide
  · obtain ⟨r, -, rfl⟩ := List.mem_map.mp hfields
    rw [fields_length]
    decide

section Publish

variable {priors : List (Str × Prior)} {labels : List (Str × Str)} {groups : List Group}
  {published : List Published} {p : Published}

theorem parse_value {q : ℚ} {g : Group} (h : publish priors labels g = .ok p)
    (hq : median p.sample.runVals = .ok (.fin q)) :
    F64.parse p.row.value = some (.fin p.value) := by
  obtain ⟨-, v, hv, hvalue⟩ := publish_value h
  obtain rfl : v = .fin q := Except.ok.inj (hv.symm.trans hq)
  have hmedian : p.value = sixDigits q := by
    rw [Published.value, hq]
    rfl
  rw [hvalue, parse_g6_fin, hmedian]

/-- The ingest keeps the first of the largest published rows. -/
theorem exists_ofRows_published
    (hvalues : ∀ p ∈ published, F64.parse p.row.value = some (.fin p.value)) :
    ∃ rates, Rates.ofRows (published.map fun p ↦ p.row.rate) = .ok rates ∧
      ∀ id, rates.get id =
        ((variants published id).argmax Published.value).map fun p ↦ p.row.rate.2 := by
  let v : RateRow → ℚ := fun r ↦ ((F64.parse r.value).getD .nan).val
  have hv : ∀ p ∈ published, v p.row.rate.2 = p.value := by
    intro p hp
    have hparse : F64.parse p.row.rate.2.value = some (.fin p.value) := hvalues p hp
    simp only [v, hparse]
    rfl
  have hrows : ∀ e ∈ published.map fun p ↦ p.row.rate,
      F64.parse e.2.value = some (.fin (v e.2)) := by
    intro e he
    obtain ⟨p, hp, rfl⟩ := List.mem_map.mp he
    rw [hv p hp]
    exact hvalues p hp
  obtain ⟨rates, hfold, hget⟩ := Rates.exists_ofRows_argmax v hrows
  refine ⟨rates, hfold, ?_⟩
  intro id
  have hvariants : Rates.rowsOf (published.map fun p ↦ p.row.rate) id =
      (variants published id).map fun p ↦ p.row.rate.2 := by
    rw [Rates.rowsOf, List.filter_map, List.map_map]
    rfl
  rw [hget, hvariants]
  apply argmax_map
  intro p hp
  exact hv p (List.mem_of_mem_filter hp)

end Publish

/-- The rates of a table whose absences have identifiers of their own. -/
theorem exists_parse_render {published : List Published} {absent : List OpsRow}
    (hvalues : ∀ p ∈ published, F64.parse p.row.value = some (.fin p.value))
    (hnodup : (absent.map OpsRow.rowId).Nodup)
    (hdisjoint : ∀ r ∈ absent, ∀ p ∈ published, r.rowId ≠ p.row.rowId) :
    ∃ rates, Rates.parse (render (published.map Published.row ++ absent)) = .ok rates ∧
      ∀ p ∈ published, rates.get p.row.rowId =
        ((variants published p.row.rowId).argmax Published.value).map fun p ↦ p.row.rate.2 := by
  obtain ⟨rates, hfold, hget⟩ := exists_ofRows_published hvalues
  have hids : (absent.map OpsRow.rate).map Prod.fst = absent.map OpsRow.rowId := List.map_map
  have hfresh : ∀ e ∈ absent.map OpsRow.rate, rates.get e.1 = none := by
    intro e he
    obtain ⟨r, hr, rfl⟩ := List.mem_map.mp he
    have hnone : variants published r.rowId = [] := by
      apply List.filter_eq_nil_iff.mpr
      intro p hp
      simpa using (hdisjoint r hr p hp).symm
    have hget' := hget r.rowId
    rw [hnone] at hget'
    exact hget'
  obtain ⟨rates', hfold', hget'⟩ := Rates.exists_foldlM_add_fresh (hids ▸ hnodup) hfresh
  refine ⟨rates', ?_, ?_⟩
  · rw [parse_render, List.map_append, List.map_map, Rates.ofRows, List.foldlM_append]
    rw [Rates.ofRows] at hfold
    change (List.foldlM _ _ (published.map fun p ↦ p.row.rate) >>= _) = _
    rw [hfold]
    exact hfold'
  · intro p hp
    rw [hget' p.row.rowId, hget]
    rw [hids]
    intro hmem
    obtain ⟨r, hr, hid⟩ := List.mem_map.mp hmem
    exact hdisjoint r hr p hp hid

/-- The table reads back as its header and its rows, and the ingest finds for
every measured identifier that is no contention probe the first published row
with the largest value. -/
theorem mkTable_roundTrip {results : List (Str × Str)} {priorsCsv : Str} {naCsv : Option Str}
    {out : Str × ℕ} {published : List Published} {absent : List OpsRow}
    {measured : List (Str × List Meas)} (hrun : mkTable results priorsCsv naCsv = .ok out)
    (hrows : tableRows results priorsCsv naCsv = .ok (published, absent))
    (hmeasured : measurements results = .ok measured)
    (hmedians : ∀ p ∈ published, ∃ q : ℚ, median p.sample.runVals = .ok (.fin q))
    (hnodup : (absent.map OpsRow.rowId).Nodup)
    (hdisjoint : ∀ r ∈ absent, ∀ p ∈ published, r.rowId ≠ p.row.rowId) :
    (∃ records, parseRecords out.1 = header :: records ∧ records.length = out.2 ∧
      ∀ fields ∈ header :: records, fields.length = 16) ∧
    ∃ rates, Rates.parse out.1 = .ok rates ∧
      ∀ e ∈ measured, isPipe e.1 = false →
        ∃ p ∈ (variants published e.1).argmax Published.value,
          rates.get e.1 = some ⟨p.row.value, p.row.pipe⟩ ∧
          F64.parse p.row.value = some (.fin p.value) := by
  obtain ⟨published', absent', hrows', rfl⟩ := mkTable_eq_ok hrun
  obtain ⟨rfl, rfl⟩ := Prod.mk.inj (Except.ok.inj (hrows.symm.trans hrows'))
  obtain ⟨priors, labels, groups, -, hgroups, hpublished, -⟩ := tableRows_eq_ok hrows
  have hvalues : ∀ p ∈ published, F64.parse p.row.value = some (.fin p.value) := by
    intro p hp
    obtain ⟨g, -, hg⟩ := Exec.mem_of_mapM_eq_ok hpublished hp
    obtain ⟨q, hq⟩ := hmedians p hp
    exact parse_value hg hq
  constructor
  · refine ⟨_, parseRecords_render _, List.length_map _, ?_⟩
    intro fields hfields
    rcases List.mem_cons.mp hfields with rfl | hfields
    · rfl
    · obtain ⟨r, -, rfl⟩ := List.mem_map.mp hfields
      rfl
  · obtain ⟨rates, hparse, hget⟩ := exists_parse_render hvalues hnodup hdisjoint
    refine ⟨rates, hparse, ?_⟩
    intro e he hpipe
    obtain ⟨g, hg, hid⟩ := exists_mem_tableGroups hgroups hmeasured he hpipe
    obtain ⟨p₀, hp₀, hgp⟩ := Exec.exists_of_mapM_eq_ok hpublished hg
    have hid₀ : p₀.row.rowId = e.1 := (publish_value hgp).1.trans hid
    have hrate := hget p₀ hp₀
    rw [hid₀] at hrate
    cases hmax : (variants published e.1).argmax Published.value with
    | none =>
        have hmem : p₀ ∈ variants published e.1 := List.mem_filter.mpr ⟨hp₀, by simp [hid₀]⟩
        rw [List.argmax_eq_none.mp hmax] at hmem
        cases hmem
    | some p =>
        have hp : p ∈ published := List.mem_of_mem_filter (List.argmax_mem hmax)
        rw [hmax] at hrate
        exact ⟨p, rfl, hrate, hvalues p hp⟩

/-- The identifiers and medians of a table of two runs, and its absences. -/
def twoRunsRows : Option (List (Str × Option F64) × List Str) :=
  (tableRows (twoRuns "4.07" "4.08") noPriors (some (absence "mem.cpasync"))).toOption.map fun t ↦
    (t.1.map fun p ↦ (p.row.rowId, (median p.sample.runVals).toOption), t.2.map OpsRow.rowId)

theorem mkTable_roundTrip_twoRuns : ∃ out rates,
    mkTable (twoRuns "4.07" "4.08") noPriors (some (absence "mem.cpasync")) = .ok out ∧
      Rates.parse out.1 = .ok rates ∧
      ∃ r ∈ rates.get "x.err", F64.parse r.value = some (.fin 4.075) := by
  have hids : twoRunsRows = some ([(lit "x.err", some (.fin 4.075))], [lit "mem.cpasync"]) := by
    decide +kernel
  have hkeys : (measurements (twoRuns "4.07" "4.08")).toOption.map (·.map Prod.fst) =
      some [lit "x.err"] := by
    decide +kernel
  obtain ⟨⟨published, absent⟩, hrows, heq⟩ := Option.map_eq_some_iff.mp hids
  obtain ⟨measured, hmeasured, hkey⟩ := Option.map_eq_some_iff.mp hkeys
  obtain ⟨hpublished, habsent⟩ := Prod.mk.inj heq
  have hrows := Exec.toOption_eq_some.mp hrows
  have hrow : ∀ p ∈ published,
      p.row.rowId = lit "x.err" ∧ median p.sample.runVals = .ok (.fin 4.075) := by
    intro p hp
    have hmem : (p.row.rowId, (median p.sample.runVals).toOption) ∈
        [(lit "x.err", some (.fin 4.075 : F64))] :=
      hpublished ▸ List.mem_map_of_mem hp
    obtain ⟨hid, hmedian⟩ := Prod.mk.inj (List.mem_singleton.mp hmem)
    exact ⟨hid, Exec.toOption_eq_some.mp hmedian⟩
  have hid : ∀ r ∈ absent, r.rowId = lit "mem.cpasync" := by
    intro r hr
    have hmem : r.rowId ∈ [lit "mem.cpasync"] := habsent ▸ List.mem_map_of_mem hr
    exact List.mem_singleton.mp hmem
  have hdisjoint : ∀ r ∈ absent, ∀ p ∈ published, r.rowId ≠ p.row.rowId := by
    intro r hr p hp
    rw [hid r hr, (hrow p hp).1]
    decide
  obtain ⟨out, hrun⟩ : ∃ out,
      mkTable (twoRuns "4.07" "4.08") noPriors (some (absence "mem.cpasync")) = .ok out :=
    ⟨_, by rw [mkTable, hrows]; rfl⟩
  obtain ⟨-, rates, hparse, hrates⟩ := mkTable_roundTrip hrun hrows
    (Exec.toOption_eq_some.mp hmeasured) (fun p hp ↦ ⟨_, (hrow p hp).2⟩)
    (habsent ▸ List.nodup_singleton _) hdisjoint
  obtain ⟨e, rfl, he⟩ := List.map_eq_singleton_iff.mp hkey
  obtain ⟨p, hp, hget, hvalue⟩ := hrates e List.mem_cons_self (by rw [he]; decide)
  have hmem : p ∈ published := List.mem_of_mem_filter (List.argmax_mem hp)
  have hmedian : p.value = 4.075 := by
    rw [Published.value, (hrow p hmem).2]
    decide +kernel
  rw [he] at hget
  exact ⟨out, rates, hrun, hparse, _, hget, hmedian ▸ hvalue⟩

end CalxMill.Nvidia
