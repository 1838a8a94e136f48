import CalxMill.Nvidia.CsvRoundTrip
import CalxMill.Nvidia.Projection
import CalxMill.Nvidia.Published

/-!
# Projecting with a published table

The projection parses a rate when an op needs it.  The published rows of the
ops table all have a value that parses, the absence rows have none, so the
projection panics exactly when it reaches an absence row, apart from counts
that leave their type.
-/

namespace CalxMill.Nvidia

open Lib Rust

/-! ## When the projection returns -/

/-- The row that an op is costed by. -/
def measuredRow (rates : Rates) (mn : Str) : Option RateRow :=
  ((shapeRow mn).bind rates.get).or ((baseRow mn).bind rates.get)

/-- The entry cannot be charged, whatever has been charged before. -/
def Unchargeable (rates : Rates) (e : Str × ℕ) : Prop :=
  match opClass e.1 with
  | .memory b => 2 ^ 64 ≤ e.2 * b
  | .pipe => ∃ r ∈ measuredRow rates e.1, F64.parse r.value = none
  | _ => False

/-- The bytes that an entry moves through memory. -/
def entryBytes (e : Str × ℕ) : ℕ :=
  match opClass e.1 with
  | .memory b => e.2 * b
  | _ => 0

def traffic (items : List (Str × ℕ)) : ℕ := (items.map entryBytes).sum

variable {rates : Rates} {d d' : Demands F64} {e : Str × ℕ}

/-- The mark of a tensor shape that its base row stands in for. -/
def shapeMarks (rates : Rates) (mn : Str) : List Str :=
  if ((shapeRow mn).bind rates.get).isNone ∧ (tensorShape mn).isSome ∧
    ((baseRow mn).bind rates.get).isSome then [mn] else []

theorem opRate_of_some {mn : Str} {r : RateRow} (h : measuredRow rates mn = some r) :
    opRate rates mn = (fun rate : F64 ↦
      ⟨if r.pipe = [] then defaultPipe mn else r.pipe, rate, shapeMarks rates mn⟩) <$>
        Exec.expect (lit "rate value parses") (F64.parse r.value) := by
  rw [measuredRow] at h
  simp only [opRate, h, bind_pure_comp, shapeMarks]

theorem opRate_of_none {mn : Str} (h : measuredRow rates mn = none) :
    opRate rates mn = pure ⟨defaultPipe mn, defaultRate (defaultPipe mn),
      shapeMarks rates mn ++ [mn]⟩ := by
  rw [measuredRow] at h
  simp only [opRate, h, shapeMarks]

theorem opRate_fails {mn : Str} :
    (opRate rates mn).Fails ↔ ∃ r ∈ measuredRow rates mn, F64.parse r.value = none := by
  cases h : measuredRow rates mn with
  | none =>
      simp [opRate_of_none h]
  | some r =>
      simp [opRate_of_some h]

theorem charge_fails :
    (charge rates d e).Fails ↔ Unchargeable rates e ∨ 2 ^ 64 ≤ d.totalInsts + e.2 := by
  rw [charge, Unchargeable]
  apply checked_bind_fails
  cases opClass e.1 with
  | control => simp
  | sharedMem b => simp
  | localMem => simp
  | memory b => simp [mulU64]
  | pipe => simp [opRate_fails]

theorem charge_eq_ok (h : charge rates d e = .ok d') :
    d'.totalInsts = d.totalInsts + e.2 ∧
      ∀ k : ℕ, d.memBytesTotal = .fin k → d'.memBytesTotal = .fin (k + entryBytes e : ℕ) := by
  rw [charge] at h
  rw [entryBytes]
  obtain ⟨n, hn, h⟩ := Exec.bind_eq_ok.mp h
  obtain ⟨-, rfl⟩ := checked_eq_ok.mp hn
  cases hop : opClass e.1 with
  | control =>
      rw [hop] at h
      obtain rfl := Exec.pure_eq_ok.mp h
      simp
  | sharedMem b =>
      rw [hop] at h
      obtain rfl := Exec.pure_eq_ok.mp h
      simp
  | localMem =>
      rw [hop] at h
      obtain rfl := Exec.pure_eq_ok.mp h
      simp
  | memory b =>
      simp only [hop] at h
      obtain ⟨bytes, hbytes, h⟩ := Exec.bind_eq_ok.mp h
      obtain ⟨-, rfl⟩ := checked_eq_ok.mp hbytes
      obtain rfl := Exec.pure_eq_ok.mp h
      refine ⟨rfl, fun k hk ↦ ?_⟩
      simp [hk, ofU64]
  | pipe =>
      simp only [hop] at h
      obtain ⟨op, -, h⟩ := Exec.bind_eq_ok.mp h
      obtain rfl := Exec.pure_eq_ok.mp h
      simp

theorem charges_eq_ok {items : List (Str × ℕ)} :
    ∀ {d d' : Demands F64} {k : ℕ}, d.memBytesTotal = .fin k →
      items.foldlM (charge rates) d = .ok d' →
      d'.memBytesTotal = .fin (k + traffic items : ℕ) := by
  induction items with
  | nil =>
      intro d d' k hk h
      cases h
      simpa [traffic] using hk
  | cons e items ih =>
      intro d d' k hk h
      rw [List.foldlM_cons] at h
      obtain ⟨d₁, h₁, h₂⟩ := Exec.bind_eq_ok.mp h
      have hk₁ := (charge_eq_ok h₁).2 k hk
      rw [ih hk₁ h₂]
      simp [traffic, Nat.add_assoc]

theorem charges_fail {items : List (Str × ℕ)} :
    (items.foldlM (charge rates) ⟨[], 0, 0, 0, []⟩).Fails ↔
      (∃ e ∈ items, Unchargeable rates e) ∨ 2 ^ 64 ≤ (items.map (·.2)).sum := by
  have h : (items.foldlM (charge rates) ⟨[], 0, 0, 0, []⟩).Fails ↔
      (∃ e ∈ items, Unchargeable rates e) ∨ 2 ^ 64 ≤ 0 + (items.map (·.2)).sum :=
    Exec.foldlM_fails_counted (fun _ ↦ True) Demands.totalInsts (fun e : Str × ℕ ↦ e.2)
      (fun d e _ _ _ ↦ charge_fails) (fun d e _ d' _ h ↦ ⟨trivial, (charge_eq_ok h).1⟩)
      ⟨[], 0, 0, 0, []⟩ trivial (Nat.two_pow_pos 64)
  rwa [Nat.zero_add] at h

theorem byteBudget_fails {memClass : MemClass} {dramBudget : F64} {k : ℕ} :
    (byteBudget rates memClass dramBudget (.fin k)).Fails ↔
      k ≠ 0 ∧ memClass ≠ .dram ∧ ∃ r ∈ rates.get "mem.l1.bw", F64.parse r.value = none := by
  have hl1 : (l1Budget rates).Fails ↔
      ∃ r ∈ rates.get "mem.l1.bw", F64.parse r.value = none := by
    rw [l1Budget]
    cases h : rates.get "mem.l1.bw" with
    | none => simp
    | some r => simp
  unfold byteBudget
  by_cases hk : k = 0
  · simp [hk]
  · cases memClass <;> simp [hk, hl1]

theorem resourceName_returns {names : List Str} {kind : ResourceKind}
    (h : ∀ i, kind = .pipe i → i < names.length) : ∃ n, resourceName names kind = .ok n := by
  cases kind with
  | pipe i =>
      have hget := List.getElem?_eq_getElem (h i rfl)
      exact ⟨_, by rw [resourceName, hget]; rfl⟩
  | localStoreBw => exact ⟨_, rfl⟩
  | memoryBw => exact ⟨_, rfl⟩
  | issue => exact ⟨_, rfl⟩

/-- Every resource of the steady state has a name, the binding one included. -/
theorem perResource_returns {names : List Str} {pipes : List F64}
    (hlen : names.length = pipes.length) (w smem bytes budget insts cap : F64) :
    let ss := projectMix w pipes smem bytes budget insts cap
    (∃ bound ∈ ss.perResource, ss.perResource[ss.ppmBound]? = some bound) ∧
      ∀ e ∈ ss.perResource, ∃ n, resourceName names e.1 = .ok n := by
  intro ss
  have hss : ss.perResource = mixDemands w pipes smem bytes budget insts cap := rfl
  constructor
  · have hne : ss.perResource.map (·.2) ≠ [] := by simp [hss, mixDemands]
    have hget := getElem?_firstMax hne
    rw [List.getElem?_map, Option.map_eq_some_iff] at hget
    obtain ⟨bound, hbound, -⟩ := hget
    exact ⟨bound, List.mem_of_getElem? hbound, hbound⟩
  · intro e he
    apply resourceName_returns
    intro i hi
    rw [hss] at he
    simp only [mixDemands, List.mem_append, List.mem_map, List.mem_singleton] at he
    rcases he with ((⟨c, hc, rfl⟩ | he) | he) | rfl
    · obtain rfl : c.2 = i := ResourceKind.pipe.inj hi
      have hlt := (List.mem_zipIdx hc).2.1
      omega
    · split at he
      · cases he
      · obtain rfl := List.mem_singleton.mp he
        cases hi
    · split at he
      · cases he
      · obtain rfl := List.mem_singleton.mp he
        cases hi
    · cases hi

theorem named_returns (warps : F64) (d : Demands F64) (budget : F64 × List Str) :
    ∃ r, named warps d budget = .ok r := by
  have hlen : (d.pipes.map (·.1)).length = (d.pipes.map (·.2)).length := by simp
  obtain ⟨⟨bound, hmem, hbound⟩, hnames⟩ := perResource_returns hlen warps d.smemCycles
    d.memBytesTotal budget.1 (ofU64 d.totalInsts) ISSUE_CAP
  obtain ⟨n, hn⟩ := hnames bound hmem
  apply Exec.not_fails.mp
  intro hfails
  simp only [named, hbound, Exec.expect_some, Exec.fails_bind, Exec.fails_ok, false_or,
    Exec.mapM_fails, Exec.fails_map, Exec.fails_pure, and_false, exists_false, or_false] at hfails
  obtain ⟨b, hb, hfails⟩ := hfails
  obtain rfl := Except.ok.inj hb
  rcases hfails with hfails | ⟨-, -, e, he, hfails⟩
  · exact Exec.not_fails.mpr ⟨n, hn⟩ hfails
  · exact Exec.not_fails.mpr (hnames e he) hfails

/-- The projection returns when every entry can be charged and a byte budget
is found. -/
theorem project_returns_iff {census : Census} {warps dramBudget : F64} {memClass : MemClass} :
    (∃ r, project census warps memClass rates dramBudget = .ok r) ↔
      (census.items.map (·.2)).sum < 2 ^ 64 ∧ (∀ e ∈ census.items, ¬ Unchargeable rates e) ∧
        (memClass ≠ .dram → traffic census.items ≠ 0 →
          ∀ r ∈ rates.get "mem.l1.bw", F64.parse r.value ≠ none) := by
  rw [← Exec.not_fails, project, Exec.fails_bind, charges_fail]
  constructor
  · intro h
    obtain ⟨hcharge, hbudget⟩ := not_or.mp h
    obtain ⟨hbad, hsum⟩ := not_or.mp hcharge
    refine ⟨Nat.lt_of_not_le hsum, by simpa using hbad, fun hclass htraffic r hr hparse ↦ ?_⟩
    have hfold := Exec.not_fails.mp (mt charges_fail.mp hcharge)
    obtain ⟨d, hd⟩ := hfold
    refine hbudget ⟨d, hd, Exec.fails_bind.mpr (Or.inl ?_)⟩
    rw [charges_eq_ok rfl hd, Nat.zero_add, byteBudget_fails]
    exact ⟨htraffic, hclass, r, hr, hparse⟩
  · rintro ⟨hsum, hcharge, hl1⟩ ((⟨e, he, hbad⟩ | hover) | ⟨d, hd, hfails⟩)
    · exact hcharge e he hbad
    · exact Nat.not_le.mpr hsum hover
    · rw [charges_eq_ok rfl hd, Nat.zero_add, Exec.fails_bind, byteBudget_fails] at hfails
      rcases hfails with ⟨htraffic, hclass, r, hr, hparse⟩ | ⟨budget, -, hfails⟩
      · exact hl1 hclass htraffic r hr hparse
      · exact Exec.not_fails.mpr (named_returns warps d budget) hfails

/-! ## The rates of a published table -/

theorem fields_length (r : OpsRow) : r.fields.length = header.length := rfl

def OpsRow.rate (r : OpsRow) : Str × RateRow := (r.rowId, ⟨r.value, r.pipe⟩)

/-- The ingest reads the rows that the table was rendered from. -/
theorem parse_render (rows : List OpsRow) :
    Rates.parse (render rows) = Rates.ofRows (rows.map OpsRow.rate) := by
  have htable : Table.parse (render rows) = ⟨header, rows.map OpsRow.fields⟩ :=
    Table.parse_foldl_writeRecord (by decide) (List.forall_mem_map.mpr fun r _ ↦ fields_length r)
  have hcol : ∀ name i, header.findIdx? (· = name) = some i →
      (⟨header, rows.map OpsRow.fields⟩ : Table).col name = .ok i :=
    fun name i h ↦ by simp [Table.col, h]
  rw [Rates.parse]
  rw [htable]
  dsimp only
  rw [hcol "row_id" 0 (by decide), hcol "value" 5 (by decide), hcol "pipe" 8 (by decide)]
  change List.foldlM _ _ (rows.map OpsRow.fields) = _
  rw [Rates.ofRows, List.foldlM_map, List.foldlM_map]
  rfl

/-- In an accepted table the entries that do not parse are those of the absence
rows. -/
theorem exists_parse_none_iff {results : List (Str × Str)} {priorsCsv : Str} {naCsv : Option Str}
    {out : Str × ℕ} {absent : List OpsRow} (hrun : mkTable results priorsCsv naCsv = .ok out)
    (habsent : absentRows naCsv = .ok absent) (hrates : Rates.parse out.1 = .ok rates) (id : Str) :
    (∃ r ∈ rates.get id, F64.parse r.value = none) ↔ id ∈ absent.map OpsRow.rowId := by
  obtain ⟨published, absent', hrows, rfl⟩ := mkTable_eq_ok hrun
  obtain ⟨priors, labels, groups, -, -, hpublished, habsent'⟩ := tableRows_eq_ok hrows
  obtain rfl := Except.ok.inj (habsent.symm.trans habsent')
  rw [parse_render] at hrates
  constructor
  · rintro ⟨r, hget, hbad⟩
    obtain ⟨row, hrow, heq⟩ := List.mem_map.mp (Rates.mem_of_get_ofRows hrates hget)
    obtain ⟨rfl, rfl⟩ := Prod.mk.inj heq
    rcases List.mem_append.mp hrow with hrow | hrow
    · obtain ⟨p, hp, rfl⟩ := List.mem_map.mp hrow
      obtain ⟨g, -, hg⟩ := Exec.mem_of_mapM_eq_ok hpublished hp
      obtain ⟨-, v, -, hv⟩ := publish_value hg
      have hsome := parse_g6 v
      rw [← hv, hbad] at hsome
      cases hsome
    · exact List.mem_map_of_mem hrow
  · intro hid
    obtain ⟨row, hrow, rfl⟩ := List.mem_map.mp hid
    have hbad : F64.parse row.value = none := by
      rw [(absentRows_eq_ok habsent row hrow).2]
      rfl
    have hmem : row.rate ∈ (published.map Published.row ++ absent).map OpsRow.rate :=
      List.mem_map_of_mem (List.mem_append_right _ hrow)
    exact ⟨_, Rates.get_of_parse_none hrates hmem hbad, hbad⟩

/-! ## Projecting with a published table -/

/-- The identifier of the row that an op is costed by. -/
def usedRow (rates : Rates) (mn : Str) : Option Str :=
  ((shapeRow mn).filter fun id ↦ (rates.get id).isSome).or
    ((baseRow mn).filter fun id ↦ (rates.get id).isSome)

theorem measuredRow_eq (rates : Rates) (mn : Str) :
    measuredRow rates mn = (usedRow rates mn).bind rates.get := by
  have hfilter : ∀ id : Option Str,
      (id.filter fun id ↦ (rates.get id).isSome).bind rates.get = id.bind rates.get := by
    intro id
    cases id with
    | none => rfl
    | some id => cases h : rates.get id <;> simp [Option.filter, h]
  have hisSome : ∀ id : Option Str,
      (id.filter fun id ↦ (rates.get id).isSome).isSome = (id.bind rates.get).isSome := by
    intro id
    cases id with
    | none => rfl
    | some id => cases h : rates.get id <;> simp [Option.filter, h]
  have hshape := hfilter (shapeRow mn)
  have hsome := hisSome (shapeRow mn)
  rw [measuredRow, usedRow]
  cases h : (shapeRow mn).filter fun id ↦ (rates.get id).isSome with
  | none =>
      rw [h] at hshape
      rw [← hshape, Option.none_or, ← hfilter (baseRow mn)]
      rfl
  | some id =>
      rw [h] at hshape hsome
      obtain ⟨r, hr⟩ := Option.isSome_iff_exists.mp hsome.symm
      rw [hr, Option.some_or, Option.some_or, hshape, hr]

/-- An op with a row in the table, all of them absence rows. -/
def OnlyAbsent (absent : List Str) (rates : Rates) (mn : Str) : Prop :=
  (∃ id ∈ (shapeRow mn).toList ++ (baseRow mn).toList, (rates.get id).isSome) ∧
    ∀ id ∈ (shapeRow mn).toList ++ (baseRow mn).toList, (rates.get id).isSome → id ∈ absent

/-- The projection returns, with the ops that have an absence row only costed at
the default rate of their pipe and listed. -/
def Projects (absent : List Str) (rates : Rates) (census : Census) (warps : F64)
    (memClass : MemClass) (dramBudget : F64) : Prop :=
  ∃ r, project census warps memClass rates dramBudget = .ok r ∧
    ∀ e ∈ census.items, opClass e.1 = .pipe → OnlyAbsent absent rates e.1 →
      (∃ op, opRate rates e.1 = .ok op ∧ op.pipe = defaultPipe e.1 ∧
        op.rate = defaultRate (defaultPipe e.1)) ∧ e.1 ∈ r.defaulted

/-- The counts fit their type, and no row that the projection reads is an
absence row. -/
structure Projectable (absent : List Str) (rates : Rates) (census : Census)
    (memClass : MemClass) : Prop where
  counts : (census.items.map (·.2)).sum < 2 ^ 64
  bytes : ∀ e ∈ census.items, ∀ b, opClass e.1 = .memory b → e.2 * b < 2 ^ 64
  rows : ∀ e ∈ census.items, opClass e.1 = .pipe → ∀ id ∈ usedRow rates e.1, id ∉ absent
  l1 : memClass ≠ .dram → traffic census.items ≠ 0 → lit "mem.l1.bw" ∉ absent

theorem usedRow_mem {mn : Str} {id : Str} (h : id ∈ usedRow rates mn) :
    id ∈ (shapeRow mn).toList ++ (baseRow mn).toList ∧ (rates.get id).isSome := by
  rcases Option.or_eq_some_iff.mp h with h | ⟨-, h⟩
  · obtain ⟨hid, hget⟩ := Option.filter_eq_some_iff.mp h
    exact ⟨by simp [hid], hget⟩
  · obtain ⟨hid, hget⟩ := Option.filter_eq_some_iff.mp h
    exact ⟨by simp [hid], hget⟩

theorem exists_usedRow {mn : Str} {id : Str}
    (hid : id ∈ (shapeRow mn).toList ++ (baseRow mn).toList) (hget : (rates.get id).isSome) :
    ∃ id', id' ∈ usedRow rates mn := by
  have hsome : (usedRow rates mn).isSome := by
    rw [usedRow, Option.isSome_or, Bool.or_eq_true]
    rcases List.mem_append.mp hid with hid | hid
    · have hid : shapeRow mn = some id := by simpa using hid
      apply Or.inl
      simp [hid, Option.filter, hget]
    · have hid : baseRow mn = some id := by simpa using hid
      apply Or.inr
      simp [hid, Option.filter, hget]
  exact Option.isSome_iff_exists.mp hsome

theorem unchargeable_iff {ids : List Str}
    (hbad : ∀ id, (∃ r ∈ rates.get id, F64.parse r.value = none) ↔ id ∈ ids) (e : Str × ℕ) :
    Unchargeable rates e ↔ (∃ b, opClass e.1 = .memory b ∧ 2 ^ 64 ≤ e.2 * b) ∨
      (opClass e.1 = .pipe ∧ ∃ id ∈ usedRow rates e.1, id ∈ ids) := by
  rw [Unchargeable]
  rw [measuredRow_eq]
  cases opClass e.1 with
  | control => simp
  | sharedMem b => simp
  | localMem => simp
  | memory b => simp
  | pipe =>
      cases usedRow rates e.1 with
      | none => simp
      | some id => simpa using hbad id

theorem project_returns_iff_projectable {ids : List Str}
    (hbad : ∀ id, (∃ r ∈ rates.get id, F64.parse r.value = none) ↔ id ∈ ids) {census : Census}
    {warps dramBudget : F64} {memClass : MemClass} :
    (∃ r, project census warps memClass rates dramBudget = .ok r) ↔
      Projectable ids rates census memClass := by
  rw [project_returns_iff]
  constructor
  · rintro ⟨hsum, hcharge, hl1⟩
    refine ⟨hsum, fun e he b hb ↦ ?_, fun e he hpipe id hid hids ↦ ?_,
      fun hclass htraffic hids ↦ ?_⟩
    · by_contra hover
      exact hcharge e he ((unchargeable_iff hbad e).mpr (Or.inl ⟨b, hb, Nat.le_of_not_lt hover⟩))
    · exact hcharge e he ((unchargeable_iff hbad e).mpr (Or.inr ⟨hpipe, id, hid, hids⟩))
    · obtain ⟨r, hr, hparse⟩ := (hbad _).mpr hids
      exact hl1 hclass htraffic r hr hparse
  · intro h
    refine ⟨h.counts, fun e he hun ↦ ?_, fun hclass htraffic r hr hparse ↦ ?_⟩
    · rcases (unchargeable_iff hbad e).mp hun with ⟨b, hb, hover⟩ | ⟨hpipe, id, hid, hids⟩
      · exact Nat.not_le_of_lt (h.bytes e he b hb) hover
      · exact h.rows e he hpipe id hid hids
    · exact h.l1 hclass htraffic ((hbad _).mp ⟨r, hr, hparse⟩)

/-- The projection over a published table returns as claimed exactly when the
counts fit and it reads no absence row. -/
theorem projects_iff {results : List (Str × Str)} {priorsCsv : Str} {naCsv : Option Str}
    {out : Str × ℕ} {absent : List OpsRow} (hrun : mkTable results priorsCsv naCsv = .ok out)
    (habsent : absentRows naCsv = .ok absent) (hrates : Rates.parse out.1 = .ok rates)
    (census : Census) (warps : F64) (memClass : MemClass) (dramBudget : F64) :
    Projects (absent.map OpsRow.rowId) rates census warps memClass dramBudget ↔
      Projectable (absent.map OpsRow.rowId) rates census memClass := by
  have hreturns : (∃ r, project census warps memClass rates dramBudget = .ok r) ↔ _ :=
    project_returns_iff_projectable (exists_parse_none_iff hrun habsent hrates)
  constructor
  · rintro ⟨r, hr, -⟩
    exact hreturns.mp ⟨r, hr⟩
  · intro h
    obtain ⟨r, hr⟩ := hreturns.mpr h
    refine ⟨r, hr, fun e he hpipe habsent ↦ ?_⟩
    obtain ⟨⟨id, hid, hget⟩, honly⟩ := habsent
    -- an op with absence rows only would be costed by one of them
    obtain ⟨id', hid'⟩ := exists_usedRow hid hget
    obtain ⟨hmem, hget'⟩ := usedRow_mem hid'
    exact absurd (honly id' hmem hget') (h.rows e he hpipe id' hid')

/-- An absence table of one row. -/
def absence (id : Str) : Str :=
  lit "row_id,instruction,prior_src,notes\n" ++ id ++ lit ",NA_SM75,ptx_isa,absent\n"

/-- The rates of the table of two runs and one absence. -/
def publishedRates (id : Str) : Option ((Str × ℕ) × Rates) :=
  (mkTable (twoRuns "4.07" "4.08") noPriors (some (absence id))).toOption.bind fun out ↦
    (Rates.parse out.1).toOption.map fun rates ↦ (out, rates)

theorem publishedRates_eq_some {id : Str} {out : Str × ℕ} {rates : Rates}
    (h : publishedRates id = some (out, rates)) :
    mkTable (twoRuns "4.07" "4.08") noPriors (some (absence id)) = .ok out ∧
      Rates.parse out.1 = .ok rates := by
  obtain ⟨out', hout, h⟩ := Option.bind_eq_some_iff.mp h
  obtain ⟨rates', hrates, heq⟩ := Option.map_eq_some_iff.mp h
  obtain ⟨rfl, rfl⟩ := Prod.mk.inj heq
  exact ⟨Exec.toOption_eq_some.mp hout, Exec.toOption_eq_some.mp hrates⟩

theorem projects_iff_cpasync : ∃ out absent rates,
    mkTable (twoRuns "4.07" "4.08") noPriors (some (absence "mem.cpasync")) = .ok out ∧
      absentRows (some (absence "mem.cpasync")) = .ok absent ∧ Rates.parse out.1 = .ok rates ∧
      (Projects (absent.map OpsRow.rowId) rates ⟨[("FFMA", 128)]⟩ (.fin 8) .none (.fin 5.82) ↔
        Projectable (absent.map OpsRow.rowId) rates ⟨[("FFMA", 128)]⟩ .none) := by
  have hpublished : (publishedRates "mem.cpasync").isSome := by decide +kernel
  obtain ⟨⟨out, rates⟩, h⟩ := Option.isSome_iff_exists.mp hpublished
  obtain ⟨hrun, hrates⟩ := publishedRates_eq_some h
  obtain ⟨published, absent, hrows, -⟩ := mkTable_eq_ok hrun
  obtain ⟨-, -, -, -, -, -, habsent⟩ := tableRows_eq_ok hrows
  exact ⟨out, absent, rates, hrun, habsent, hrates,
    projects_iff hrun habsent hrates ⟨[("FFMA", 128)]⟩ (.fin 8) .none (.fin 5.82)⟩

/-- The rates of a table that says `POPC` has none. -/
def noPopc : Rates := [("x.err", ⟨"4.075", []⟩), ("alu.popc.tput", ⟨[], []⟩)]

theorem not_projects : ∃ out,
    mkTable (twoRuns "4.07" "4.08") noPriors (some (absence "alu.popc.tput")) = .ok out ∧
      Rates.parse out.1 = .ok noPopc ∧
      project ⟨[("POPC", 1)]⟩ (.fin 8) .none noPopc (.fin 5.82) =
        .error (.panic "rate value parses") ∧
      ∀ ids, ¬ Projects ids noPopc ⟨[("POPC", 1)]⟩ (.fin 8) .none (.fin 5.82) := by
  have hpublished : (publishedRates "alu.popc.tput").map (·.2) = some noPopc := by decide +kernel
  obtain ⟨⟨out, rates⟩, h, rfl⟩ := Option.map_eq_some_iff.mp hpublished
  obtain ⟨hrun, hrates⟩ := publishedRates_eq_some h
  have hpanic : project ⟨[("POPC", 1)]⟩ (.fin 8) .none noPopc (.fin 5.82) =
      .error (.panic "rate value parses") := by
    rfl
  refine ⟨out, hrun, hrates, hpanic, ?_⟩
  rintro ids ⟨r, hr, -⟩
  rw [hpanic] at hr
  cases hr

end CalxMill.Nvidia
