import CalxMill.Validity

/-!
# Rows that can refuse

An anchor row is of use when some projection misses it.  The registry loads
every number that parses, so a row keeps that property exactly when its cells
spell finite doubles, its tolerance leaves out some double, its ranges are
ordered and its keys are written once.
-/

namespace CalxMill

open Lib Rust Rust.F64 Nvidia

/-- The pairs of an `at` or `domain` cell. -/
def kvPairs (field : Str) : List (Str × Str) :=
  ((field.splitOn ';').filter (· ≠ [])).filterMap fun part ↦
    (splitOnce "=" part).map fun kv ↦ (trim kv.1, trim kv.2)

/-- The tolerance that the cells ask for, before its last rounding. -/
def askedTol (kind : Str) (q m : ℚ) : ℚ :=
  if kind = "rel" then nearest (nearest q / 100) * |m| else q

/-- A tolerance of this size around a number leaves out some double: it stays
below the largest one, or the distances to the number overflow before it does. -/
def Missable (m tol : ℚ) : Prop :=
  |tol| ≤ maxFinite - topUlp / 2 ∨ (topUlp / 2 ≤ |m| ∧ |tol| < overflow)

/-- The cells of a row spell finite doubles, a tolerance that can be missed,
ordered ranges and distinct keys. -/
structure FiniteCells (t : Table) (r : List Str) : Prop where
  anchor : ∃ m q : ℚ, F64.parse (t.field "measured" r) = some (.fin m) ∧ |m| < overflow ∧
    F64.parse (t.field "tol" r) = some (.fin q) ∧ |q| < overflow ∧
    Missable (nearest m) (askedTol (t.field "tol_kind" r) q (nearest m))
  range : ∀ kv ∈ kvPairs (t.field "domain" r), ∀ lo hi, splitOnce ".." kv.2 = some (lo, hi) →
    ∃ a b : ℚ, F64.parse (trim lo) = some (.fin a) ∧ |a| < overflow ∧
      F64.parse (trim hi) = some (.fin b) ∧ |b| < overflow ∧ nearest a ≤ nearest b
  atKeys : ((kvPairs (t.field "at" r)).map (·.1)).Nodup
  domainKeys : ((kvPairs (t.field "domain" r)).map (·.1)).Nodup

/-- The tolerance of the row is that of its cells: as written, or in percent of
the measured value. -/
def TolResolved (t : Table) (r : List Str) (a : Anchor) : Prop :=
  ∃ raw, (F64.parse (t.field "tol" r)).map binary64 = some raw ∧
    ((t.field "tol_kind" r = "abs" ∧ a.tol = raw) ∨
      (t.field "tol_kind" r = "rel" ∧
        a.tol = binary64 (binary64 (raw / .fin 100) * a.measured.abs)))

/-- The anchor is made of finite numbers, and some double misses it. -/
structure RowCanRefuse (t : Table) (r : List Str) (row : AnchorRow) : Prop where
  measured : ∃ m : ℚ, row.anchor.measured = .fin m
  tol : ∃ x : ℚ, 0 ≤ x ∧ row.anchor.tol = .fin x
  resolved : TolResolved t r row.anchor
  range : ∀ d ∈ row.domain, ∀ lo hi, d.2 = .range lo hi →
    ∃ a b : ℚ, lo = .fin a ∧ hi = .fin b ∧ a ≤ b
  atKeys : (row.at'.map (·.1)).Nodup
  domainKeys : (row.domain.map (·.1)).Nodup
  refuses : ∃ x : ℚ, IsDouble x ∧ row.anchor.reproduces (.fin x) binary64 = false

/-- Every loaded row can refuse, and no identifier repeats. -/
structure RegistryCanRefuse (t : Table) (rows : List AnchorRow) : Prop where
  row : List.Forall₂ (RowCanRefuse t) t.rows rows
  ids : (rows.map (·.id)).Nodup

/-! ## What a loaded row was read from -/

/-- The values of a row beside the cells they were read from. -/
structure Reads (t : Table) (r : List Str) (row : AnchorRow) : Prop where
  measured : (F64.parse (t.field "measured" r)).map binary64 = some row.anchor.measured
  tol : ∃ raw, (F64.parse (t.field "tol" r)).map binary64 = some raw ∧ ¬ raw < 0 ∧
    resolveTol row.id (t.field "tol_kind" r) raw row.anchor.measured binary64 =
      .ok row.anchor.tol
  at' : row.at' = kvPairs (t.field "at" r)
  domain : List.Forall₂ (fun kv d ↦ d.1 = kv.1 ∧ parseBound row.id kv.2 binary64 = .ok d.2)
    (kvPairs (t.field "domain" r)) row.domain

theorem filterMap_eq_of_forall₂ {α β : Type} {f : α → Option β} {l : List α} {l' : List β}
    (h : List.Forall₂ (fun a b ↦ f a = some b) l l') : l.filterMap f = l' := by
  induction h with
  | nil => rfl
  | cons hab _ ih => rw [List.filterMap_cons_some hab, ih]

/-- Entries and results that agree one by one agree as a whole. -/
theorem forall_mem_iff_of_forall₂ {α β : Type} {R : α → β → Prop} {P : α → Prop} {Q : β → Prop}
    {l : List α} {l' : List β} (h : List.Forall₂ R l l') (hiff : ∀ a b, R a b → (Q b ↔ P a)) :
    (∀ b ∈ l', Q b) ↔ ∀ a ∈ l, P a := by
  induction h with
  | nil => exact iff_of_true (List.forall_mem_nil _) (List.forall_mem_nil _)
  | cons hab _ ih => rw [List.forall_mem_cons, List.forall_mem_cons, hiff _ _ hab, ih]

theorem forall₂_iff_forall_mem {α β : Type} {R S : α → β → Prop} {P : α → Prop}
    {l : List α} {l' : List β} (h : List.Forall₂ R l l') (hiff : ∀ a b, R a b → (S a b ↔ P a)) :
    List.Forall₂ S l l' ↔ ∀ a ∈ l, P a := by
  induction h with
  | nil => exact iff_of_true .nil (List.forall_mem_nil _)
  | cons hab _ ih => rw [List.forall₂_cons, List.forall_mem_cons, hiff _ _ hab, ih]

theorem parseKv_eq_ok {field what : Str} {kvs : List (Str × Str)}
    (h : parseKv field what = .ok kvs) : kvs = kvPairs field := by
  obtain ⟨bs, hkvs, hbs⟩ := Exec.foldlM_forall₂ (P := fun part kv ↦
      ((splitOnce "=" part).map fun kv ↦ (trim kv.1, trim kv.2)) = some kv)
    (by
      intro out part out' hstep
      obtain ⟨kv, hkv, hout⟩ := Exec.bind_eq_ok.mp hstep
      rw [Exec.ofOption_eq_ok] at hkv
      exact ⟨_, (Exec.pure_eq_ok.mp hout).symm, by rw [hkv]; rfl⟩) h
  rw [hkvs, List.nil_append, kvPairs, filterMap_eq_of_forall₂ hbs]

theorem parseDomain_eq_ok {id field : Str} {domain : List (Str × DomainBound)}
    (h : parseDomain id field binary64 = .ok domain) :
    List.Forall₂ (fun kv d ↦ d.1 = kv.1 ∧ parseBound id kv.2 binary64 = .ok d.2)
      (kvPairs field) domain := by
  obtain ⟨kvs, hkvs, h⟩ := Exec.bind_eq_ok.mp h
  rw [← parseKv_eq_ok hkvs]
  obtain ⟨bs, hdomain, hbs⟩ := Exec.foldlM_forall₂ (P := fun kv d ↦
      d.1 = kv.1 ∧ parseBound id kv.2 binary64 = .ok d.2)
    (by
      rintro out ⟨k, v⟩ out' hstep
      obtain ⟨bound, hbound, hout⟩ := Exec.bind_eq_ok.mp hstep
      exact ⟨_, (Exec.pure_eq_ok.mp hout).symm, rfl, hbound⟩) h
  rwa [hdomain, List.nil_append]

theorem parseRow_reads {t : Table} {c : Columns} (hc : columns t = .ok c)
    {rows rows' : List AnchorRow} {r : List Str} (h : parseRow c rows r binary64 = .ok rows') :
    ∃ row, rows' = rows ++ [row] ∧ Reads t r row ∧ ∀ x ∈ rows, x.id ≠ row.id := by
  simp only [columns, Exec.bind_eq_ok] at hc
  obtain ⟨_, -, _, hcm, _, hct, _, hck, _, -, _, hca, _, hcd, hc⟩ := hc
  cases hc
  obtain ⟨id, -, h⟩ := Exec.bind_eq_ok.mp h
  split at h
  · exact absurd h Exec.err_ne_ok
  next hid =>
    obtain ⟨m, hm, h⟩ := Exec.bind_eq_ok.mp h
    obtain ⟨measured, hmeasured, h⟩ := Exec.bind_eq_ok.mp h
    obtain ⟨t', ht', h⟩ := Exec.bind_eq_ok.mp h
    obtain ⟨tolRaw, htolRaw, h⟩ := Exec.bind_eq_ok.mp h
    split at h
    · exact absurd h Exec.err_ne_ok
    next hneg =>
      obtain ⟨kind, hkind, h⟩ := Exec.bind_eq_ok.mp h
      obtain ⟨tol, htol, h⟩ := Exec.bind_eq_ok.mp h
      obtain ⟨d, hd, h⟩ := Exec.bind_eq_ok.mp h
      obtain ⟨domain, hdomain, h⟩ := Exec.bind_eq_ok.mp h
      obtain ⟨units, -, h⟩ := Exec.bind_eq_ok.mp h
      obtain ⟨a, ha, h⟩ := Exec.bind_eq_ok.mp h
      obtain ⟨at', hat, h⟩ := Exec.bind_eq_ok.mp h
      rw [Exec.ofOption_eq_ok] at hmeasured htolRaw
      refine ⟨_, (Exec.pure_eq_ok.mp h).symm, ⟨?_, ⟨tolRaw, ?_, hneg, ?_⟩, ?_, ?_⟩, ?_⟩
      · rw [Table.field_eq hcm hm, hmeasured]
      · rw [Table.field_eq hct ht', htolRaw]
      · rw [Table.field_eq hck hkind, htol]
      · rw [Table.field_eq hca ha, parseKv_eq_ok hat]
      · rw [Table.field_eq hcd hd]
        exact parseDomain_eq_ok hdomain
      · intro x hx hxid
        exact hid (List.any_eq_true.mpr ⟨x, hx, decide_eq_true hxid⟩)

/-- The rows of a registry that loads, in their order. -/
theorem parseRegistry_reads {text : Str} {rows : List AnchorRow}
    (h : parseRegistry text binary64 = .ok rows) :
    List.Forall₂ (Reads (Table.parse text)) (Table.parse text).rows rows ∧
      (rows.map (·.id)).Nodup := by
  dsimp only [parseRegistry] at h
  split at h
  · exact absurd h Exec.err_ne_ok
  · obtain ⟨c, hc, h⟩ := Exec.bind_eq_ok.mp h
    constructor
    · obtain ⟨bs, hrows, hbs⟩ := Exec.foldlM_forall₂ (P := Reads (Table.parse text))
        (by
          intro out r out' hstep
          obtain ⟨row, hrow, hreads, -⟩ := parseRow_reads hc hstep
          exact ⟨row, hrow, hreads⟩) h
      rwa [hrows, List.nil_append]
    · refine Exec.foldlM_invariant (fun rows : List AnchorRow ↦ (rows.map (·.id)).Nodup)
        (fun rows r _ rows' hrows hstep ↦ ?_) (by exact List.nodup_nil) h
      obtain ⟨row, rfl, -, hid⟩ := parseRow_reads hc hstep
      rw [List.map_append, List.map_singleton]
      refine List.nodup_append.mpr ⟨hrows, List.nodup_singleton _, ?_⟩
      intro a ha b hb
      obtain ⟨x, hx, rfl⟩ := List.mem_map.mp ha
      rw [List.mem_singleton.mp hb]
      exact hid x hx

/-! ## Numbers, ranges and keys -/

section Rows

variable {t : Table} {r : List Str} {row : AnchorRow}

theorem Reads.tolResolved (h : Reads t r row) : TolResolved t r row.anchor := by
  obtain ⟨raw, hraw, -, htol⟩ := h.tol
  refine ⟨raw, hraw, ?_⟩
  rw [resolveTol] at htol
  split at htol
  next hkind => exact Or.inl ⟨hkind, (Exec.pure_eq_ok.mp htol).symm⟩
  next =>
    split at htol
    next hkind => exact Or.inr ⟨hkind, (Exec.pure_eq_ok.mp htol).symm⟩
    next => exact absurd htol Exec.err_ne_ok

/-- A cell that reads as a finite double spells a number that does not overflow. -/
theorem parse_eq_of_fin {s : Str} {p : ℚ} (h : (F64.parse s).map binary64 = some (.fin p)) :
    ∃ q, F64.parse s = some (.fin q) ∧ |q| < overflow ∧ nearest q = p := by
  obtain ⟨v, hv, hp⟩ := Option.map_eq_some_iff.mp h
  obtain ⟨q, rfl, hq⟩ := exists_of_binary64_eq_fin hp
  exact ⟨q, hv, hq⟩

theorem map_parse_eq {s : Str} {q : ℚ} (h : F64.parse s = some (.fin q)) (hq : |q| < overflow) :
    (F64.parse s).map binary64 = some (.fin (nearest q)) := by
  rw [h, Option.map_some, binary64_eq_fin.mpr ⟨hq, rfl⟩]

/-- A hundredth of a double does not overflow. -/
theorem binary64_div_hundred {q : ℚ} (hq : |q| < overflow) :
    binary64 (.fin (nearest q) / .fin 100) = .fin (nearest (nearest q / 100)) := by
  rw [ExtNum.fin_div _ (by norm_num)]
  apply binary64_eq_fin.mpr ⟨_, rfl⟩
  have hle := (abs_nearest_top hq).1
  have hmax : maxFinite < overflow := lt_add_of_pos_right _ (half_pos topUlp_pos)
  rw [abs_div, abs_of_pos (by norm_num : (0 : ℚ) < 100)]
  exact (div_le_self (abs_nonneg _) (by norm_num)).trans_lt (hle.trans_lt hmax)

theorem Reads.tol_eq (h : Reads t r row) {m q : ℚ} (hm : row.anchor.measured = .fin m)
    (hparse : F64.parse (t.field "tol" r) = some (.fin q)) (hq : |q| < overflow) :
    row.anchor.tol = binary64 (.fin (askedTol (t.field "tol_kind" r) q m)) := by
  obtain ⟨raw, hraw, hkind⟩ := h.tolResolved
  obtain rfl := Option.some.inj (hraw.symm.trans (map_parse_eq hparse hq))
  rcases hkind with ⟨hkind, htol⟩ | ⟨hkind, htol⟩
  · rw [htol, askedTol, hkind, if_neg (by decide), binary64_eq_fin.mpr ⟨hq, rfl⟩]
  · rw [htol, askedTol, if_pos hkind, binary64_div_hundred hq, hm, ExtNum.abs_fin,
      ExtNum.fin_mul]

theorem Reads.askedTol_nonneg (h : Reads t r row) {q : ℚ} (m : ℚ)
    (hparse : F64.parse (t.field "tol" r) = some (.fin q)) (hq : |q| < overflow) :
    0 ≤ nearest (askedTol (t.field "tol_kind" r) q m) := by
  obtain ⟨raw, hraw, hneg, -⟩ := h.tol
  obtain rfl := Option.some.inj (hraw.symm.trans (map_parse_eq hparse hq))
  have hq0 : 0 ≤ nearest q := not_lt.mp hneg
  rw [askedTol]
  split
  · exact nearest_nonneg (mul_nonneg (nearest_nonneg (by positivity)) (abs_nonneg m))
  · exact hq0

/-- Over a finite measured value a finite tolerance was written as one. -/
theorem Reads.tol_finite (h : Reads t r row) {m x : ℚ} (hm : row.anchor.measured = .fin m)
    (hx : row.anchor.tol = .fin x) :
    ∃ q, F64.parse (t.field "tol" r) = some (.fin q) ∧ |q| < overflow := by
  obtain ⟨raw, hraw, hkind⟩ := h.tolResolved
  have hfin : ∃ p, raw = .fin p := by
    rcases hkind with ⟨-, htol⟩ | ⟨-, htol⟩
    · exact ⟨x, htol.symm.trans hx⟩
    · rw [hx, hm] at htol
      obtain ⟨y, hy, -⟩ := exists_of_binary64_eq_fin htol.symm
      obtain ⟨z, hz⟩ := ExtNum.eq_fin_of_mul hy
      obtain ⟨w, hw, -⟩ := exists_of_binary64_eq_fin hz
      exact ExtNum.eq_fin_of_div hw
  obtain ⟨p, rfl⟩ := hfin
  obtain ⟨q, hparse, hq, -⟩ := parse_eq_of_fin hraw
  exact ⟨q, hparse, hq⟩

/-- A tolerance can be missed exactly when it does not overflow and some double
lies beyond it. -/
theorem missable_iff {m b : ℚ} (hb : 0 ≤ nearest b) :
    Missable m b ↔ |b| < overflow ∧ (nearest b < maxFinite ∨ topUlp / 2 ≤ |m|) := by
  have hlow : |b| ≤ maxFinite - topUlp / 2 → |b| < overflow := by
    intro hle
    rw [overflow]
    linarith [topUlp_pos]
  constructor
  · rintro (hle | ⟨hm, hlt⟩)
    · have hmax := (abs_nearest_top (hlow hle)).2.mpr hle
      exact ⟨hlow hle, Or.inl (abs_of_nonneg hb ▸ hmax)⟩
    · exact ⟨hlt, Or.inr hm⟩
  · rintro ⟨hlt, hmax | hm⟩
    · rw [← abs_of_nonneg hb] at hmax
      exact Or.inl ((abs_nearest_top hlt).2.mp hmax)
    · exact Or.inr ⟨hm, hlt⟩

theorem refuses_iff {a : Anchor} {m x : ℚ} (hm : a.measured = .fin m) (hx : a.tol = .fin x)
    (hx0 : 0 ≤ x) : (∃ y : ℚ, IsDouble y ∧ a.reproduces (.fin y) binary64 = false) ↔
      x < maxFinite ∨ topUlp / 2 ≤ |m| := by
  rw [← exists_far_iff]
  refine exists_congr fun y ↦ and_congr_right fun _ ↦ ?_
  rw [Anchor.reproduces, decide_eq_false_iff_not, hm, hx, ExtNum.fin_sub, ExtNum.abs_fin,
    abs_of_nonneg hx0]

theorem Reads.range_iff (h : Reads t r row) :
    (∀ d ∈ row.domain, ∀ lo hi, d.2 = .range lo hi →
      ∃ a b : ℚ, lo = .fin a ∧ hi = .fin b ∧ a ≤ b) ↔
    ∀ kv ∈ kvPairs (t.field "domain" r), ∀ lo hi, splitOnce ".." kv.2 = some (lo, hi) →
      ∃ a b : ℚ, F64.parse (trim lo) = some (.fin a) ∧ |a| < overflow ∧
        F64.parse (trim hi) = some (.fin b) ∧ |b| < overflow ∧ nearest a ≤ nearest b := by
  refine forall_mem_iff_of_forall₂ h.domain fun kv d hd ↦ ?_
  obtain ⟨-, hbound⟩ := hd
  rw [parseBound] at hbound
  split at hbound
  next lo hi hsplit =>
    obtain ⟨x, hx, hbound⟩ := Exec.bind_eq_ok.mp hbound
    obtain ⟨y, hy, hbound⟩ := Exec.bind_eq_ok.mp hbound
    rw [Exec.ofOption_eq_ok] at hx hy
    rw [← Exec.pure_eq_ok.mp hbound, hsplit]
    constructor
    · intro hfin lo' hi' hpair
      obtain ⟨rfl, rfl⟩ := Prod.mk.inj (Option.some.inj hpair)
      obtain ⟨_, _, rfl, rfl, hle⟩ := hfin x y rfl
      obtain ⟨a, ha, halt, rfl⟩ := parse_eq_of_fin hx
      obtain ⟨b, hb, hblt, rfl⟩ := parse_eq_of_fin hy
      exact ⟨a, b, ha, halt, hb, hblt, hle⟩
    · intro hfin x' y' hrange
      obtain ⟨rfl, rfl⟩ := DomainBound.range.inj hrange
      obtain ⟨a, b, ha, halt, hb, hblt, hle⟩ := hfin lo hi rfl
      exact ⟨_, _, Option.some.inj (hx.symm.trans (map_parse_eq ha halt)),
        Option.some.inj (hy.symm.trans (map_parse_eq hb hblt)), hle⟩
  next hsplit =>
    rw [← Exec.pure_eq_ok.mp hbound, hsplit]
    exact iff_of_true (fun lo hi hrange ↦ absurd hrange (by simp))
      (fun lo hi hpair ↦ absurd hpair (by simp))

theorem Reads.domainKeys (h : Reads t r row) :
    row.domain.map (·.1) = (kvPairs (t.field "domain" r)).map (·.1) := by
  have hdomain := h.domain
  generalize kvPairs (t.field "domain" r) = kvs at hdomain
  generalize row.domain = domain at hdomain
  induction hdomain with
  | nil => rfl
  | cons hd _ ih => rw [List.map_cons, List.map_cons, hd.1, ih]

theorem Reads.canRefuse_iff (h : Reads t r row) : RowCanRefuse t r row ↔ FiniteCells t r := by
  constructor
  · intro hrow
    obtain ⟨m', hm⟩ := hrow.measured
    obtain ⟨x, hx0, hx⟩ := hrow.tol
    obtain ⟨m, hmparse, hmlt, rfl⟩ := parse_eq_of_fin (hm ▸ h.measured)
    obtain ⟨q, hparse, hq⟩ := h.tol_finite hm hx
    obtain ⟨hlt, rfl⟩ := binary64_eq_fin.mp ((h.tol_eq hm hparse hq).symm.trans hx)
    have hmiss := (missable_iff hx0).mpr ⟨hlt, (refuses_iff hm hx hx0).mp hrow.refuses⟩
    exact ⟨⟨m, q, hmparse, hmlt, hparse, hq, hmiss⟩, h.range_iff.mp hrow.range, h.at' ▸ hrow.atKeys,
      h.domainKeys ▸ hrow.domainKeys⟩
  · intro hcells
    obtain ⟨m, q, hmparse, hmlt, hparse, hq, hmiss⟩ := hcells.anchor
    have hm : row.anchor.measured = .fin (nearest m) :=
      Option.some.inj (h.measured.symm.trans (map_parse_eq hmparse hmlt))
    have hx0 := h.askedTol_nonneg (nearest m) hparse hq
    obtain ⟨hlt, hfar⟩ := (missable_iff hx0).mp hmiss
    have hx := (h.tol_eq hm hparse hq).trans (binary64_eq_fin.mpr ⟨hlt, rfl⟩)
    exact ⟨⟨_, hm⟩, ⟨_, hx0, hx⟩, h.tolResolved, h.range_iff.mpr hcells.range,
      h.at' ▸ hcells.atKeys, h.domainKeys ▸ hcells.domainKeys, (refuses_iff hm hx hx0).mpr hfar⟩

end Rows

/-- The rows of a registry that loads can all refuse exactly when their cells
spell finite doubles, tolerances that can be missed, ordered ranges and
distinct keys. -/
theorem registryCanRefuse_iff (text : Str) (rows : List AnchorRow)
    (h : parseRegistry text binary64 = .ok rows) :
    RegistryCanRefuse (Table.parse text) rows ↔
      ∀ r ∈ (Table.parse text).rows, FiniteCells (Table.parse text) r := by
  obtain ⟨hreads, hids⟩ := parseRegistry_reads h
  have hrows := forall₂_iff_forall_mem hreads fun r row hrow ↦ hrow.canRefuse_iff
  rw [← hrows]
  exact ⟨fun hrefuse ↦ hrefuse.row, fun hrow ↦ ⟨hrow, hids⟩⟩

/-- A tolerance of 25 percent around one, over a range of one axis. -/
theorem registryCanRefuse_rel :
    let text : Str := "id,measured,tol,tol_kind,units,at,domain\nx,1,25,rel,,c=1,c=1..2\n"
    let rows : List AnchorRow := [⟨"x", ⟨.fin 1, .fin (1 / 4)⟩, [], [("c", "1")],
      [("c", .range (.fin 1) (.fin 2))]⟩]
    RegistryCanRefuse (Table.parse text) rows ↔
      ∀ r ∈ (Table.parse text).rows, FiniteCells (Table.parse text) r :=
  registryCanRefuse_iff _ _ (by decide +kernel)

/-- A tolerance spelled `inf` loads, and so does one above the largest double;
every double reproduces such an anchor. -/
theorem not_registryCanRefuse : ¬ ∀ (text : Str) (rows : List AnchorRow),
    parseRegistry text binary64 = .ok rows → RegistryCanRefuse (Table.parse text) rows := by
  intro h
  have hload : parseRegistry
      "id,measured,tol,tol_kind,units,at,domain\nx,1,inf,abs,,,\ny,1,1e999,abs,,,\n" binary64 =
      .ok [⟨"x", ⟨.fin 1, .inf false⟩, [], [], []⟩, ⟨"y", ⟨.fin 1, .inf false⟩, [], [], []⟩] := by
    decide +kernel
  obtain ⟨r, l, hrow, -, -⟩ := List.forall₂_cons_right_iff.mp (h _ _ hload).row
  obtain ⟨x, -, hx⟩ := hrow.tol
  cases hx

end CalxMill
