import CalxMill.Nvidia.Csv
import CalxMill.Rust.Rounding

/-!
# Projection validity

The authority lattice of the arbiter, the anchors it judges a claim against,
and the anchor registry with the mechanical domain fit.
-/

namespace CalxMill

open Lib Rust Nvidia

/-- The authority tier, ordered `advisory < crossChecked < gate`. -/
inductive Authority where
  | advisory
  | crossChecked
  | gate
  deriving DecidableEq

/-- How a query relates to the point and the domain of an anchor. -/
inductive DomainFit where
  | atAnchor
  | inDomain
  | outOfDomain
  deriving DecidableEq

inductive Verdict where
  | certified
  | provisional
  | refused
  deriving DecidableEq

namespace Authority

def rank : Authority → ℕ
  | advisory => 0
  | crossChecked => 1
  | gate => 2

theorem rank_injective : Function.Injective rank := by
  intro a b h
  cases a <;> cases b <;> first | rfl | cases h

instance : LinearOrder Authority := LinearOrder.lift' rank rank_injective

end Authority

structure Anchor where
  measured : F64
  tol : F64
  deriving DecidableEq

def Anchor.reproduces (a : Anchor) (projected : F64) (fl : Rounding := fun x ↦ x) : Bool :=
  decide ((fl (projected - a.measured)).abs ≤ a.tol.abs)

def authority (anchored : Bool) (fit : DomainFit) : Authority :=
  if !anchored then .advisory else
  match fit with
  | .atAnchor => .gate
  | .inDomain => .crossChecked
  | .outOfDomain => .advisory

def compose (a b : Authority) (compositeAnchored : Bool) : Authority :=
  let m := min a b
  if compositeAnchored then m else min m .crossChecked

def verdict : Authority → Verdict
  | .gate => .certified
  | .crossChecked => .provisional
  | .advisory => .refused

def exitCode : Verdict → ℕ
  | .certified => 0
  | .refused => 2
  | .provisional => 3

def usageExit : ℕ := 4

@[simp] theorem exitCode_eq_zero {v : Verdict} : exitCode v = 0 ↔ v = .certified := by
  cases v <;> simp [exitCode]

theorem exitCode_injective : Function.Injective exitCode := by
  intro v w h
  cases v <;> cases w <;> first | rfl | cases h

theorem exitCode_ne_usageExit (v : Verdict) : exitCode v ≠ usageExit := by
  cases v <;> decide

@[simp] theorem authority_eq_gate {anchored : Bool} {fit : DomainFit} :
    authority anchored fit = .gate ↔ anchored = true ∧ fit = .atAnchor := by
  cases anchored <;> cases fit <;> simp [authority]

/-- The composite keeps the top tier only when both inputs have it and the
composite reproduces an anchor of its own. -/
theorem compose_eq_gate {a b : Authority} {anchored : Bool} :
    compose a b anchored = .gate ↔ a = .gate ∧ b = .gate ∧ anchored = true := by
  cases a <;> cases b <;> cases anchored <;> decide

/-- Below the top tier the anchor of the composite plays no part. -/
theorem compose_of_not_both_gate {a b : Authority} (h : ¬ (a = .gate ∧ b = .gate))
    (s t : Bool) : compose a b s = compose a b t := by
  cases a <;> cases b <;> cases s <;> cases t <;> first | rfl | exact absurd ⟨rfl, rfl⟩ h

/-! ## The anchor registry -/

/-- A closed numeric range, or a value compared as a number when both sides
parse as one and as a string otherwise. -/
inductive DomainBound where
  | range (lo hi : F64)
  | exact (s : Str)
  deriving DecidableEq

structure AnchorRow where
  id : Str
  anchor : Anchor
  units : Str
  at' : List (Str × Str)
  domain : List (Str × DomainBound)
  deriving DecidableEq

def parseKv (field what : Str) : Exec Str (List (Str × Str)) :=
  ((field.splitOn ';').filter (· ≠ [])).foldlM (fun out part ↦ do
    let (k, v) ← Exec.ofOption (what ++ ": " ++ debug part ++ " is not key=value")
      (splitOnce "=" part)
    pure (out ++ [(trim k, trim v)])) []

def parseBound (id v : Str) (fl : Rounding := fun x ↦ x) : Exec Str DomainBound :=
  match splitOnce ".." v with
  | some (lo, hi) => do
      let bad : Str := "registry " ++ id ++ ": bad range " ++ debug v
      let lo ← Exec.ofOption bad ((F64.parse (trim lo)).map fl)
      let hi ← Exec.ofOption bad ((F64.parse (trim hi)).map fl)
      pure (.range lo hi)
  | none => pure (.exact v)

def parseDomain (id field : Str) (fl : Rounding := fun x ↦ x) :
    Exec Str (List (Str × DomainBound)) := do
  let kvs ← parseKv field ("registry " ++ id ++ " domain")
  kvs.foldlM (fun domain (k, v) ↦ do
    let bound ← parseBound id v fl
    pure (domain ++ [(k, bound)])) []

def resolveTol (id kind : Str) (tolRaw measured : F64) (fl : Rounding := fun x ↦ x) :
    Exec Str F64 :=
  if kind = "abs" then pure tolRaw else
  if kind = "rel" then pure (fl (fl (tolRaw / .fin 100) * measured.abs)) else
  Exec.err ("registry " ++ id ++ ": tol_kind " ++ debug kind ++ " (abs|rel)")

/-- The seven columns of the registry, at their indices in the header. -/
structure Columns where
  id : ℕ
  measured : ℕ
  tol : ℕ
  tolKind : ℕ
  units : ℕ
  at' : ℕ
  domain : ℕ

def needed : List Str := ["id", "measured", "tol", "tol_kind", "units", "at", "domain"]

def columns (t : Table) : Exec Str Columns := do
  pure ⟨← t.col "id", ← t.col "measured", ← t.col "tol", ← t.col "tol_kind",
    ← t.col "units", ← t.col "at", ← t.col "domain"⟩

def parseRow (c : Columns) (rows : List AnchorRow) (r : List Str) (fl : Rounding := fun x ↦ x) :
    Exec Str (List AnchorRow) := do
  let id ← Table.cell r c.id
  if rows.any (·.id = id) then Exec.err ("registry: duplicate id " ++ debug id) else
  let m ← Table.cell r c.measured
  let measured ← Exec.ofOption ("registry " ++ id ++ ": bad measured " ++ debug m)
    ((F64.parse m).map fl)
  let t ← Table.cell r c.tol
  let tolRaw ← Exec.ofOption ("registry " ++ id ++ ": bad tol " ++ debug t)
    ((F64.parse t).map fl)
  if tolRaw < 0 then Exec.err ("registry " ++ id ++ ": negative tol") else
  let tol ← resolveTol id (← Table.cell r c.tolKind) tolRaw measured fl
  let domain ← parseDomain id (← Table.cell r c.domain) fl
  let units ← Table.cell r c.units
  let at' ← parseKv (← Table.cell r c.at') "registry at"
  pure (rows ++ [⟨id, ⟨measured, tol⟩, units, at', domain⟩])

/-- The numbers of a registry are rounded as they are read, and so is a
tolerance in percent. -/
def parseRegistry (text : Str) (fl : Rounding := fun x ↦ x) : Exec Str (List AnchorRow) :=
  let t := Table.parse text
  match needed.find? (fun need ↦ need ∉ t.header) with
  | some need => Exec.err ("registry: missing column " ++ debug need)
  | none => do
      let c ← columns t
      t.rows.foldlM (fun rows r ↦ parseRow c rows r fl) []

theorem parseKv_safe (field what : Str) : (parseKv field what).Safe :=
  Exec.Safe.foldlM _ fun _ _ _ ↦ (Exec.Safe.ofOption _ _).bind fun _ _ ↦ Exec.Safe.ok _

theorem parseBound_safe (id v : Str) : (parseBound id v).Safe := by
  rw [parseBound]
  split
  · apply (Exec.Safe.ofOption _ _).bind
    intro _ _
    exact (Exec.Safe.ofOption _ _).bind fun _ _ ↦ Exec.Safe.ok _
  · exact Exec.Safe.ok _

theorem parseDomain_safe (id field : Str) : (parseDomain id field).Safe := by
  refine (parseKv_safe _ _).bind fun _ _ ↦ Exec.Safe.foldlM _ fun _ _ _ ↦ ?_
  exact (parseBound_safe _ _).bind fun _ _ ↦ Exec.Safe.ok _

theorem resolveTol_safe (id kind : Str) (t m : F64) : (resolveTol id kind t m).Safe := by
  rw [resolveTol]
  split
  · exact Exec.Safe.ok _
  · split
    · exact Exec.Safe.ok _
    · exact Exec.Safe.err _

/-- Every column index comes from the header, so it is inside every row. -/
theorem cell_safe_of_columns {text : Str} {c : Columns} (hc : columns (Table.parse text) = .ok c)
    {row : List Str} (hrow : row ∈ (Table.parse text).rows) :
    (Table.cell row c.id).Safe ∧ (Table.cell row c.measured).Safe ∧
      (Table.cell row c.tol).Safe ∧ (Table.cell row c.tolKind).Safe ∧
        (Table.cell row c.units).Safe ∧ (Table.cell row c.at').Safe ∧
          (Table.cell row c.domain).Safe := by
  simp only [columns, Exec.bind_eq_ok] at hc
  obtain ⟨_, h₁, _, h₂, _, h₃, _, h₄, _, h₅, _, h₆, _, h₇, hc⟩ := hc
  cases hc
  exact ⟨Table.cell_safe hrow h₁, Table.cell_safe hrow h₂, Table.cell_safe hrow h₃,
    Table.cell_safe hrow h₄, Table.cell_safe hrow h₅, Table.cell_safe hrow h₆,
    Table.cell_safe hrow h₇⟩

theorem parseRow_safe {text : Str} {c : Columns} (hc : columns (Table.parse text) = .ok c)
    {row : List Str} (hrow : row ∈ (Table.parse text).rows) (rows : List AnchorRow) :
    (parseRow c rows row).Safe := by
  obtain ⟨hid, hm, ht, hk, hu, ha, hd⟩ := cell_safe_of_columns hc hrow
  rw [parseRow]
  apply hid.bind
  intro id _
  split
  · exact Exec.Safe.err _
  refine hm.bind fun _ _ ↦ (Exec.Safe.ofOption _ _).bind fun _ _ ↦ ?_
  refine ht.bind fun _ _ ↦ (Exec.Safe.ofOption _ _).bind fun _ _ ↦ ?_
  split
  · exact Exec.Safe.err _
  refine hk.bind fun _ _ ↦ (resolveTol_safe _ _ _ _).bind fun _ _ ↦ ?_
  refine hd.bind fun _ _ ↦ (parseDomain_safe _ _).bind fun _ _ ↦ ?_
  exact hu.bind fun _ _ ↦ ha.bind fun _ _ ↦ (parseKv_safe _ _).bind fun _ _ ↦ Exec.Safe.ok _

/-- The header check comes first, so loading a registry never panics. -/
theorem parseRegistry_safe (text : Str) : (parseRegistry text).Safe := by
  dsimp only [parseRegistry]
  split
  · exact Exec.Safe.err _
  · next hneed =>
      have hmem : ∀ n ∈ needed, n ∈ (Table.parse text).header := by
        simpa using List.find?_eq_none.mp hneed
      have hcol (n : Str) (hn : n ∈ needed) : ((Table.parse text).col n).Safe :=
        Table.col_safe (hmem n hn)
      refine Exec.Safe.bind ?_ fun c hc ↦ Exec.Safe.foldlM _ fun rows row hrow ↦
        parseRow_safe hc hrow rows
      rw [columns]
      iterate 7 refine (hcol _ (by simp [needed])).bind fun _ _ ↦ ?_
      exact Exec.Safe.ok _

theorem resolveTol_not_neg {id kind : Str} {t m tol : F64} (ht : ¬ t < 0)
    (h : resolveTol id kind t m = .ok tol) : ¬ tol < 0 := by
  rw [resolveTol] at h
  split at h
  · exact Exec.pure_eq_ok.mp h ▸ ht
  · split at h
    · obtain rfl := Exec.pure_eq_ok.mp h
      exact ExtNum.not_mul_lt_zero (ExtNum.not_div_fin_lt_zero ht (by norm_num))
        (ExtNum.not_abs_lt_zero m)
    · exact absurd h Exec.err_ne_ok

/-- One more row is loaded, and its tolerance is not negative. -/
theorem parseRow_eq_ok {c : Columns} {rows rows' : List AnchorRow} {r : List Str}
    (h : parseRow c rows r = .ok rows') :
    ∃ row, rows' = rows ++ [row] ∧ ¬ row.anchor.tol < 0 := by
  obtain ⟨id, -, h⟩ := Exec.bind_eq_ok.mp h
  split at h
  · exact absurd h Exec.err_ne_ok
  obtain ⟨m, -, h⟩ := Exec.bind_eq_ok.mp h
  obtain ⟨measured, -, h⟩ := Exec.bind_eq_ok.mp h
  obtain ⟨t, -, h⟩ := Exec.bind_eq_ok.mp h
  obtain ⟨tolRaw, -, h⟩ := Exec.bind_eq_ok.mp h
  split at h
  · exact absurd h Exec.err_ne_ok
  next hneg =>
    obtain ⟨kind, -, h⟩ := Exec.bind_eq_ok.mp h
    obtain ⟨tol, htol, h⟩ := Exec.bind_eq_ok.mp h
    simp only [Exec.bind_eq_ok, Exec.pure_eq_ok] at h
    obtain ⟨_, -, _, -, _, -, _, -, _, -, rfl⟩ := h
    exact ⟨_, rfl, resolveTol_not_neg hneg htol⟩

theorem parseRegistry_tol_not_neg {text : Str} {rows : List AnchorRow}
    (h : parseRegistry text = .ok rows) : ∀ row ∈ rows, ¬ row.anchor.tol < 0 := by
  dsimp only [parseRegistry] at h
  split at h
  · exact absurd h Exec.err_ne_ok
  · obtain ⟨c, -, h⟩ := Exec.bind_eq_ok.mp h
    refine Exec.foldlM_invariant (fun rows ↦ ∀ row ∈ rows, ¬ row.anchor.tol < 0)
      (fun rows r _ rows' hrows hstep ↦ ?_) (by simp) h
    obtain ⟨row, rfl, hrow⟩ := parseRow_eq_ok hstep
    intro row' hmem
    rcases List.mem_append.mp hmem with hmem | hmem
    · exact hrows row' hmem
    · exact List.mem_singleton.mp hmem ▸ hrow

/-- On a tolerance that passed its sign check the two forms of the
reproduction test agree. -/
theorem Anchor.reproduces_iff {a : Anchor} (h : ¬ a.tol < 0) (x : F64) :
    a.reproduces x = true ↔ (x - a.measured).abs ≤ a.tol := by
  simp [Anchor.reproduces, ExtNum.abs_of_not_lt_zero h]

/-! ## The computed fit -/

def valueEq (a b : Str) : Bool :=
  match F64.parse a, F64.parse b with
  | some x, some y => x.feq y
  | _, _ => a = b

/-- The test a query value passes against one bound of the domain. -/
def DomainBound.admits (qv : Str) : DomainBound → Bool
  | .range lo hi =>
      match F64.parse qv with
      | some x => !(decide (x < lo) || decide (hi < x))
      | none => false
  | .exact s => valueEq qv s

def computedFit (row : AnchorRow) (query : List (Str × Str)) : DomainFit :=
  if query.any (fun q ↦ !row.domain.any (·.1 = q.1)) then .outOfDomain else
  if row.domain.any (fun d ↦ match query.find? (·.1 = d.1) with
      | none => true
      | some q => !d.2.admits q.2) then .outOfDomain else
  if query.length = row.at'.length ∧
      query.all (fun q ↦ row.at'.any fun a ↦ a.1 = q.1 && valueEq a.2 q.2) then .atAnchor
  else .inDomain

end CalxMill
