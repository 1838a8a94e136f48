import CalxMill.Nvidia.Published

/-!
# What the table says of the measurements

The table groups the measurements by row identifier, a row's measurements by
suffix or variant, and a sweep's measurements by invocation.  Each step is a
partition, so the published rows partition the measurements.  The measurements
are read in the order of the file names, so the order of the listing is lost.
-/

namespace CalxMill.Nvidia

open Lib Rust

/-! ## The measurements and their rows -/

/-- The measurements of the admitted files, in the order of the file names. -/
def readings (results : List (Str × Str)) : Exec Str (List Meas) := do
  let files := (results.insertionSort fun a b ↦ a.1 ≤ b.1).filter fun f ↦ isResults f.1
  let read ← files.mapM fun f ↦ readMeas f.1 f.2
  pure read.flatten

/-- The readings that are no contention probes. -/
def bodyOf (ms : List Meas) : List Meas := ms.filter fun m ↦ !isPipe m.rowId

def Meas.num (m : Meas) : ℚ := ((F64.parse m.value).getD .nan).val

/-- Every value is a finite number. -/
def Numeric (ms : List Meas) : Prop := ∀ m ∈ ms, F64.parse m.value = some (.fin m.num)

def OneKind (ms : List Meas) : Prop := ∀ m ∈ ms, ∀ m' ∈ ms, m.rowId = m'.rowId → m.kind = m'.kind

/-- The row that a measurement belongs to. -/
def rowKey (m : Meas) : Str × GroupKey := (m.rowId, groupKey m.kind m.variant)

def Published.key (p : Published) : Str × GroupKey := (p.row.rowId, p.group.key)

def invocation (m : Meas) : Str × Str := (m.runId, m.gpuIndex)

/-- One highest measurement for each invocation. -/
structure Peaks (members peaks : List Meas) : Prop where
  distinct : (peaks.map invocation).Nodup
  covers : ∀ m ∈ members, invocation m ∈ peaks.map invocation
  mem : ∀ p ∈ peaks, p ∈ members
  highest : ∀ p ∈ peaks, ∀ m ∈ members, invocation m = invocation p → m.num ≤ p.num

/-- The published rows account for the measurements. -/
structure Accounts (ms : List Meas) (published : List Published) : Prop where
  /-- Every measurement is counted once. -/
  once : (published.flatMap fun p ↦ p.group.members).Perm ms
  exactlyOne : ∀ m ∈ ms, ∃! p, p ∈ published ∧ p.key = rowKey m
  members : ∀ p ∈ published, p.group.members = ms.filter fun m ↦ rowKey m = p.key
  measured : ∀ p ∈ published, p.group.members ≠ []
  distinct : (published.map fun p ↦ (p.row.rowId, p.row.variant)).Nodup
  plain : ∀ p ∈ published, ∀ v, p.group.key = .plain v → p.row.variant = v ∧
    p.row.value = g6 (.fin (sortedMedian (p.group.members.map Meas.num)))
  sweep : ∀ p ∈ published, ∀ s, p.group.key = .sweep s → ∃ peaks, Peaks p.group.members peaks ∧
    p.row.variant ∈ peaks.map Meas.variant ∧
    p.row.value = g6 (.fin (sortedMedian (peaks.map Meas.num)))

/-! ## The groups of the table -/

theorem measurements_eq (results : List (Str × Str)) :
    measurements results = Assoc.groupOn Meas.rowId <$> readings results := by
  simp only [measurements, readings, map_bind, map_pure]

/-- A group under its key. -/
def Group.entry (g : Group) : (Str × GroupKey) × List Meas := ((g.rowId, g.key), g.members)

/-- The groups that the rows of an identifier are split into. -/
def splitEntry (e : Str × List Meas) : List (GroupKey × List Meas) :=
  splitRows ((e.2.head?.map Meas.kind).getD []) e.2

theorem rowGroups_eq_ok {body : List (Str × List Meas)} {id : Str} {gs : List Group}
    (h : rowGroups body id = .ok gs) :
    gs.map Group.entry = (splitEntry (id, (body.lookup id).getD [])).map
      fun x ↦ ((id, x.1), x.2) := by
  simp only [rowGroups, Exec.bind_eq_ok, Exec.expect_eq_ok, Exec.pure_eq_ok] at h
  obtain ⟨rows, hrows, first, hfirst, rfl⟩ := h
  rw [hrows, Option.getD_some, splitEntry, hfirst, List.map_map]
  rfl

theorem entries_eq {body : List (Str × List Meas)} {ids : List Str} {gss : List (List Group)}
    (h : ids.mapM (rowGroups body) = .ok gss) :
    gss.flatten.map Group.entry =
      (ids.map fun id ↦ (id, (body.lookup id).getD [])).flatMap fun e ↦
        (splitEntry e).map fun x ↦ ((e.1, x.1), x.2) := by
  replace h := Exec.mapM_eq_ok.mp h
  induction h with
  | nil => rfl
  | cons hid _ ih =>
      rw [List.flatten_cons, List.map_append, rowGroups_eq_ok hid, ih, List.map_cons,
        List.flatMap_cons]

/-- The rows of an identifier, in the order of the identifiers. -/
theorem map_lookup_perm {body : List (Str × List Meas)} {ids : List Str}
    (hids : ids.Perm (Assoc.keys body)) (hbody : (Assoc.keys body).Nodup) :
    (ids.map fun id ↦ (id, (body.lookup id).getD [])).Perm body := by
  have hmap : (Assoc.keys body).map (fun id ↦ (id, (body.lookup id).getD [])) = body := by
    rw [Assoc.keys, List.map_map]
    conv_rhs => rw [← List.map_id body]
    apply List.map_congr_left
    intro e he
    simp [Assoc.lookup_of_mem hbody he]
  have hperm := hids.map fun id ↦ (id, (body.lookup id).getD [])
  rwa [hmap] at hperm

/-- The groups of the table partition the measurements. -/
theorem partitions_tableGroups {results : List (Str × Str)} {ms : List Meas}
    {labels : List (Str × Str)} {groups : List Group} (hms : readings results = .ok ms)
    (hkind : OneKind (bodyOf ms)) (h : tableGroups results = .ok (labels, groups)) :
    Assoc.Partitions rowKey (bodyOf ms) (groups.map Group.entry) := by
  simp only [tableGroups, measurements_eq, hms, Exec.bind_eq_ok, Exec.pure_eq_ok] at h
  obtain ⟨measured, hmeasured, labels', -, gss, hgss, heq⟩ := h
  obtain rfl := Except.ok.inj hmeasured
  obtain ⟨-, rfl⟩ := Prod.mk.inj heq
  rw [List.partition_eq_filter_filter] at hgss
  have hbody : Assoc.Partitions Meas.rowId (bodyOf ms)
      ((Assoc.groupOn Meas.rowId ms).filter fun e ↦ !isPipe e.1) :=
    (Assoc.partitions_groupOn Meas.rowId ms).filter fun id ↦ !isPipe id
  have hrows := hbody.perm
    (map_lookup_perm (List.perm_insertionSort (· ≤ ·) (Assoc.keys _)) hbody.nodup)
  rw [entries_eq hgss]
  refine hrows.nested fun e he ↦ (partitions_splitRows _ _).congr fun m hm ↦ ?_
  obtain ⟨first, rest, hcons⟩ := List.exists_cons_of_ne_nil (hrows.ne_nil e he)
  have hfirst : first ∈ e.2 := hcons ▸ List.mem_cons_self
  obtain ⟨hm, hid⟩ := (hrows.mem_iff he).mp hm
  obtain ⟨hfirst, hid'⟩ := (hrows.mem_iff he).mp hfirst
  have hsame : m.kind = first.kind := hkind m hm first hfirst (hid.trans hid'.symm)
  rw [hcons, hsame]
  rfl

/-! ## The values of a group -/

theorem fval_eq_num {m : Meas} (h : F64.parse m.value = some (.fin m.num)) :
    fval m.value = .ok (.fin m.num) :=
  Exec.expect_eq_ok.mpr h

theorem runVals_plain {g : Group} {s : Sample F64} {v : Str} (hnum : Numeric g.members)
    (hkey : g.key = .plain v) (h : sample g = .ok s) :
    s.variant = v ∧ s.runVals = (g.members.map Meas.num).map .fin := by
  have hmap : g.members.mapM (fun m ↦ fval m.value) = .ok (g.members.map fun m ↦ .fin m.num) :=
    Exec.mapM_eq_map fun m hm ↦ fval_eq_num (hnum m hm)
  simp only [sample, hkey, Exec.bind_eq_ok, Exec.pure_eq_ok] at h
  obtain ⟨values, hvalues, cvs, -, rfl⟩ := h
  obtain rfl := Except.ok.inj (hmap.symm.trans hvalues)
  exact ⟨rfl, (List.map_map ..).symm⟩

theorem higher_eq {peak m : Meas} (hpeak : F64.parse peak.value = some (.fin peak.num))
    (hm : F64.parse m.value = some (.fin m.num)) :
    higher peak m = .ok (if peak.num < m.num then m else peak) := by
  rw [higher, fval_eq_num hm, fval_eq_num hpeak]
  exact congrArg Except.ok (if_congr (ExtNum.fin_lt_fin _ _) rfl rfl)

/-- The climb ends on a measurement that no other one exceeds. -/
theorem foldlM_higher {ms : List Meas} (hms : Numeric ms) :
    ∀ {first p : Meas}, F64.parse first.value = some (.fin first.num) →
      ms.foldlM higher first = .ok p → p ∈ first :: ms ∧ ∀ m ∈ first :: ms, m.num ≤ p.num := by
  induction ms with
  | nil =>
      intro first p _ h
      obtain rfl := Exec.pure_eq_ok.mp h
      simp
  | cons m ms ih =>
      intro first p hfirst h
      obtain ⟨hm, hms⟩ := List.forall_mem_cons.mp hms
      rw [List.foldlM_cons, higher_eq hfirst hm] at h
      change ms.foldlM higher (if first.num < m.num then m else first) = .ok p at h
      split at h
      next hlt =>
        obtain ⟨hmem, hle⟩ := ih hms hm h
        refine ⟨List.mem_cons_of_mem _ hmem, List.forall_mem_cons.mpr ⟨?_, hle⟩⟩
        exact hlt.le.trans (hle m List.mem_cons_self)
      next hlt =>
        obtain ⟨hmem, hle⟩ := ih hms hfirst h
        obtain ⟨hp, hall⟩ := List.forall_mem_cons.mp hle
        constructor
        · rcases List.mem_cons.mp hmem with rfl | hmem
          · exact List.mem_cons_self
          · exact List.mem_cons_of_mem _ (List.mem_cons_of_mem _ hmem)
        · exact List.forall_mem_cons.mpr
            ⟨hp, List.forall_mem_cons.mpr ⟨(not_lt.mp hlt).trans hp, hall⟩⟩

/-- The peak of an invocation is one of its highest measurements. -/
theorem sweepPeak_num {e : (Str × Str) × List Meas} {p : Peak} (hnum : Numeric e.2)
    (h : sweepPeak e = .ok p) :
    ∃ m ∈ e.2, p.variant = m.variant ∧ p.value = .fin m.num ∧ ∀ m' ∈ e.2, m'.num ≤ m.num := by
  simp only [sweepPeak, Exec.bind_eq_ok, Exec.expect_eq_ok, Exec.pure_eq_ok] at h
  obtain ⟨first, hfirst, m, hm, value, hvalue, cv, -, rfl⟩ := h
  obtain ⟨rest, hrest⟩ := List.head?_eq_some_iff.mp hfirst
  rw [hrest] at hnum hm ⊢
  obtain ⟨hfirst, htail⟩ := List.forall_mem_cons.mp hnum
  obtain ⟨hmem, hle⟩ := foldlM_higher htail hfirst hm
  exact ⟨m, hmem, rfl, Except.ok.inj (hvalue.symm.trans (fval_eq_num (hnum m hmem))), hle⟩

/-- No measurement of the group exceeds this one. -/
def Highest (e : (Str × Str) × List Meas) (m : Meas) : Prop :=
  m ∈ e.2 ∧ ∀ m' ∈ e.2, m'.num ≤ m.num

theorem exists_highest {groups : List ((Str × Str) × List Meas)} {peaks : List Peak}
    (hnum : ∀ e ∈ groups, Numeric e.2) (h : groups.mapM sweepPeak = .ok peaks) :
    ∃ ms, List.Forall₂ Highest groups ms ∧
      peaks.map Peak.value = (ms.map Meas.num).map .fin ∧
      peaks.map Peak.variant = ms.map Meas.variant := by
  replace h := Exec.mapM_eq_ok.mp h
  induction h with
  | nil => exact ⟨[], .nil, rfl, rfl⟩
  | cons hp _ ih =>
      obtain ⟨he, hnum⟩ := List.forall_mem_cons.mp hnum
      obtain ⟨m, hm, hvariant, hvalue, hle⟩ := sweepPeak_num he hp
      obtain ⟨ms, hms, hvalues, hvariants⟩ := ih hnum
      refine ⟨m :: ms, .cons ⟨hm, hle⟩ hms, ?_, ?_⟩
      · rw [List.map_cons, List.map_cons, List.map_cons, hvalue, hvalues]
      · rw [List.map_cons, List.map_cons, hvariant, hvariants]

theorem peaks_of_highest {members peaks : List Meas} {groups : List ((Str × Str) × List Meas)}
    (h : Assoc.Partitions invocation members groups) (hpeaks : List.Forall₂ Highest groups peaks) :
    Peaks members peaks := by
  have hkeys : peaks.map invocation = Assoc.keys groups := by
    have hkey : ∀ e ∈ groups, ∀ m ∈ e.2, invocation m = e.1 :=
      fun e he m hm ↦ ((h.mem_iff he).mp hm).2
    clear h
    induction hpeaks with
    | nil => rfl
    | cons hm _ ih =>
        obtain ⟨he, hkey⟩ := List.forall_mem_cons.mp hkey
        rw [List.map_cons, he _ hm.1, ih hkey]
        rfl
  refine ⟨hkeys ▸ h.nodup, fun m hm ↦ hkeys ▸ h.covers m hm, fun p hp ↦ ?_, fun p hp m hm hinv ↦ ?_⟩
  · obtain ⟨e, he, hpe⟩ := Exec.exists_of_mem_right hpeaks hp
    exact ((h.mem_iff he).mp hpe.1).1
  · obtain ⟨e, he, hpe⟩ := Exec.exists_of_mem_right hpeaks hp
    exact hpe.2 m ((h.mem_iff he).mpr ⟨hm, hinv.trans ((h.mem_iff he).mp hpe.1).2⟩)

theorem runVals_sweep {g : Group} {s : Sample F64} {suffix : Str} (hnum : Numeric g.members)
    (hkey : g.key = .sweep suffix) (h : sample g = .ok s) :
    ∃ peaks, Peaks g.members peaks ∧ s.variant ∈ peaks.map Meas.variant ∧
      s.runVals = (peaks.map Meas.num).map .fin := by
  simp only [sample, hkey, Exec.bind_eq_ok, Exec.expect_eq_ok, Exec.pure_eq_ok] at h
  obtain ⟨peaks, hpeaks, best, hbest, rfl⟩ := h
  have hinvocations := Assoc.partitions_groupOn invocation g.members
  have hnums : ∀ e ∈ Assoc.groupOn invocation g.members, Numeric e.2 :=
    fun e he m hm ↦ hnum m ((hinvocations.mem_iff he).mp hm).1
  obtain ⟨ms, hms, hvalues, hvariants⟩ := exists_highest hnums hpeaks
  refine ⟨ms, peaks_of_highest hinvocations hms, ?_, hvalues⟩
  rw [← hvariants]
  obtain ⟨e, he, hvariant⟩ := List.mem_map.mp (List.argmax_mem hbest)
  obtain ⟨p, hp, hkey⟩ := (Assoc.partitions_groupOn Peak.variant peaks).exists_key
    (Assoc.mem_keys_of_mem he)
  exact List.mem_map.mpr ⟨p, hp, hkey.trans (congrArg Prod.fst hvariant)⟩

/-! ## The published rows -/

theorem entries_published {priors : List (Str × Prior)} {labels : List (Str × Str)}
    {groups : List Group} {published : List Published}
    (h : groups.mapM (publish priors labels) = .ok published) :
    groups.map Group.entry = published.map fun p ↦ (p.key, p.group.members) := by
  replace h := Exec.mapM_eq_ok.mp h
  induction h with
  | nil => rfl
  | cons hp _ ih =>
      have hrow := (publish_value hp).1
      obtain ⟨rfl, -, -⟩ := publish_sample hp
      rw [List.map_cons, List.map_cons, ih, Published.key, hrow]
      rfl

/-- A published value is the median of the numbers that the group was reduced to. -/
theorem value_eq {priors : List (Str × Prior)} {labels : List (Str × Str)} {g : Group}
    {p : Published} (h : publish priors labels g = .ok p) {l : List ℚ}
    (hl : p.sample.runVals = l.map .fin) : p.row.value = g6 (.fin (sortedMedian l)) := by
  obtain ⟨-, v, hv, hvalue⟩ := publish_value h
  rw [hl] at hv
  rw [hvalue, eq_sortedMedian hv]

section Rows

variable {ms : List Meas} {published : List Published}
  (h : Assoc.Partitions rowKey ms (published.map fun p ↦ (p.key, p.group.members)))
  (hplain : ∀ p ∈ published, ∀ v, p.group.key = .plain v → p.row.variant = v ∧
    p.row.value = g6 (.fin (sortedMedian (p.group.members.map Meas.num))))
  (hsweep : ∀ p ∈ published, ∀ s, p.group.key = .sweep s → ∃ peaks, Peaks p.group.members peaks ∧
    p.row.variant ∈ peaks.map Meas.variant ∧
    p.row.value = g6 (.fin (sortedMedian (peaks.map Meas.num))))

include h

theorem nodup_published_keys : (published.map Published.key).Nodup := by
  have hnodup := h.nodup
  rw [Assoc.keys, List.map_map] at hnodup
  exact hnodup

include hplain hsweep

/-- The variant of a row is the variant of one of its measurements. -/
theorem exists_variant {p : Published} (hp : p ∈ published) :
    ∃ m ∈ ms, rowKey m = p.key ∧ m.variant = p.row.variant := by
  have hmem := List.mem_map_of_mem (f := fun p : Published ↦ (p.key, p.group.members)) hp
  cases hkey : p.group.key with
  | sweep s =>
      obtain ⟨peaks, hpeaks, hv, -⟩ := hsweep p hp s hkey
      obtain ⟨m, hm, hv⟩ := List.mem_map.mp hv
      obtain ⟨hm, hrow⟩ := (h.mem_iff hmem).mp (hpeaks.mem m hm)
      exact ⟨m, hm, hrow, hv⟩
  | plain v =>
      obtain ⟨m, hm⟩ := List.exists_mem_of_ne_nil _ (h.ne_nil _ hmem)
      obtain ⟨hm, hrow⟩ := (h.mem_iff hmem).mp hm
      have hgroup : groupKey m.kind m.variant = .plain v := (congrArg Prod.snd hrow).trans hkey
      exact ⟨m, hm, hrow, (groupKey_plain hgroup).trans (hplain p hp v hkey).1.symm⟩

/-- Rows of one identifier and one variant have one kind, so they have one key. -/
theorem nodup_variants (hkind : OneKind ms) :
    (published.map fun p ↦ (p.row.rowId, p.row.variant)).Nodup := by
  have hkeys := nodup_published_keys h
  rw [List.Nodup, List.pairwise_map] at hkeys ⊢
  refine hkeys.imp_of_mem fun hp hp' hne hsame ↦ hne ?_
  obtain ⟨hid, hv⟩ := Prod.mk.inj hsame
  obtain ⟨m, hm, hkey, hmv⟩ := exists_variant h hplain hsweep hp
  obtain ⟨m', hm', hkey', hmv'⟩ := exists_variant h hplain hsweep hp'
  have hids : m.rowId = m'.rowId :=
    (congrArg Prod.fst hkey).trans (hid.trans (congrArg Prod.fst hkey').symm)
  rw [← hkey, ← hkey', rowKey, rowKey, hids, hkind m hm m' hm' hids, hmv, hmv', hv]

/-- The rows that partition the measurements account for them. -/
theorem accounts_of_partitions (hkind : OneKind ms) : Accounts ms published := by
  have hmem : ∀ p ∈ published, (p.key, p.group.members) ∈
      published.map fun p ↦ (p.key, p.group.members) := fun p hp ↦ List.mem_map_of_mem hp
  refine ⟨?_, fun m hm ↦ ?_, fun p hp ↦ h.eq_filter _ (hmem p hp), fun p hp ↦ h.ne_nil _ (hmem p hp),
    nodup_variants h hplain hsweep hkind, hplain, hsweep⟩
  · simpa [List.flatMap_map] using h.flatMap_perm
  · obtain ⟨e, he, hkey, -⟩ := h.exists_mem hm
    obtain ⟨p, hp, rfl⟩ := List.mem_map.mp he
    refine ⟨p, ⟨hp, hkey⟩, fun p' hp' ↦ ?_⟩
    exact List.inj_on_of_nodup_map (nodup_published_keys h) hp'.1 hp (hp'.2.trans hkey.symm)

end Rows

/-! ## The order of the listing -/

theorem measurements_perm {results results' : List (Str × Str)} (h : results'.Perm results)
    (hnames : (results.map Prod.fst).Nodup) : measurements results' = measurements results := by
  have hsort : results'.insertionSort (fun a b ↦ a.1 ≤ b.1) =
      results.insertionSort fun a b ↦ a.1 ≤ b.1 :=
    Assoc.insertionSort_perm h hnames
  rw [measurements, hsort, measurements]

/-- The table accounts for every measurement once, and it does not depend on
the order in which the files are listed. -/
theorem mkTable_accounts {results : List (Str × Str)} {priorsCsv : Str} {naCsv : Option Str}
    {out : Str × ℕ} (hnames : (results.map Prod.fst).Nodup)
    (hnum : ∀ ms, readings results = .ok ms → Numeric (bodyOf ms))
    (hkind : ∀ ms, readings results = .ok ms → OneKind (bodyOf ms))
    (hrun : mkTable results priorsCsv naCsv = .ok out) :
    (∀ results', results'.Perm results → mkTable results' priorsCsv naCsv = .ok out) ∧
      ∃ ms published absent, readings results = .ok ms ∧
        tableRows results priorsCsv naCsv = .ok (published, absent) ∧
        out.1 = render (published.map Published.row ++ absent) ∧
        Accounts (bodyOf ms) published := by
  constructor
  · intro results' hperm
    have hmeasurements := measurements_perm hperm hnames
    rw [← hrun]
    simp only [mkTable, tableRows, tableGroups, hmeasurements]
  · obtain ⟨published, absent, hrows, rfl⟩ := mkTable_eq_ok hrun
    obtain ⟨priors, labels, groups, -, hgroups, hpublished, -⟩ := tableRows_eq_ok hrows
    obtain ⟨ms, hms⟩ : ∃ ms, readings results = .ok ms := by
      simp only [tableGroups, measurements_eq, Exec.bind_eq_ok, Exec.map_eq_ok] at hgroups
      obtain ⟨-, ⟨ms, hms, -⟩, -⟩ := hgroups
      exact ⟨ms, hms⟩
    refine ⟨ms, published, absent, hms, hrows, rfl, ?_⟩
    have hpartition := partitions_tableGroups hms (hkind ms hms) hgroups
    have hmembers : ∀ g ∈ groups, Numeric g.members := fun g hg m hm ↦
      hnum ms hms m ((hpartition.mem_iff (List.mem_map_of_mem hg)).mp hm).1
    rw [entries_published hpublished] at hpartition
    refine accounts_of_partitions hpartition ?_ ?_ (hkind ms hms)
    · intro p hp v hkey
      obtain ⟨g, hg, hgp⟩ := Exec.mem_of_mapM_eq_ok hpublished hp
      obtain ⟨rfl, hsample, hvariant⟩ := publish_sample hgp
      obtain ⟨hv, hvals⟩ := runVals_plain (hmembers p.group hg) hkey hsample
      exact ⟨hvariant.trans hv, value_eq hgp hvals⟩
    · intro p hp s hkey
      obtain ⟨g, hg, hgp⟩ := Exec.mem_of_mapM_eq_ok hpublished hp
      obtain ⟨rfl, hsample, hvariant⟩ := publish_sample hgp
      obtain ⟨peaks, hpeaks, hv, hvals⟩ := runVals_sweep (hmembers p.group hg) hkey hsample
      exact ⟨peaks, hpeaks, hvariant.symm ▸ hv, value_eq hgp hvals⟩

/-- Two runs, and a sweep of three measurements beside a variant and a probe. -/
def sweepFiles : List (Str × Str) :=
  ("t.csv",
    lit "run_id,gpu_index,row_id,kind,variant,value,unit,cv_pct,bench_src,git_sha,notes\n" ++
      lit "r0,0,alu.shf,recip_tput,w8_s8,2,cyc,0,t.cu,a,\n" ++
      lit "r0,0,alu.shf,recip_tput,w16_s8,3,cyc,0,t.cu,a,\n" ++
      lit "r1,0,alu.shf,recip_tput,w8_s8,4,cyc,0,t.cu,a,\n" ++
      lit "r0,0,alu.shf,recip_tput,stride18,5,cyc,0,t.cu,a,\n" ++
      lit "r0,0,alu.shf.pipe,na,gate,1,cyc,0,t.cu,a,pipe=alu; a\n") ::
    twoRuns "4.07" "4.08"

theorem mkTable_accounts_sweep : ∃ out, mkTable sweepFiles noPriors none = .ok out ∧
    mkTable sweepFiles.reverse noPriors none = .ok out ∧
    ∃ ms published, readings sweepFiles = .ok ms ∧ Accounts (bodyOf ms) published := by
  have hrun : (mkTable sweepFiles noPriors none).toOption.isSome := by decide +kernel
  have hms : ∀ ms ∈ (readings sweepFiles).toOption,
      (∀ m ∈ bodyOf ms, F64.parse m.value = some (.fin m.num)) ∧
        ∀ m ∈ bodyOf ms, ∀ m' ∈ bodyOf ms, m.rowId = m'.rowId → m.kind = m'.kind := by
    decide +kernel
  obtain ⟨out, hout⟩ := Option.isSome_iff_exists.mp hrun
  have hout := Exec.toOption_eq_some.mp hout
  obtain ⟨hperm, ms, published, absent, hread, -, -, haccounts⟩ :=
    mkTable_accounts (by decide) (fun ms h ↦ (hms ms (Exec.toOption_eq_some.mpr h)).1)
      (fun ms h ↦ (hms ms (Exec.toOption_eq_some.mpr h)).2) hout
  exact ⟨out, hout, hperm _ (List.reverse_perm _), ms, published, hread, haccounts⟩

end CalxMill.Nvidia
