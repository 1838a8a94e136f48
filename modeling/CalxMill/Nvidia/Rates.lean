import CalxMill.Lib.Assoc
import CalxMill.Nvidia.Csv
import CalxMill.Rust.Float
import Mathlib.Data.List.MinMax

/-!
# The rate table

The ops table by row identifier.  Rows that share an identifier are parsed and
the peak is kept; the value of any other row stays a text.
-/

namespace CalxMill.Nvidia

open Lib Rust

structure RateRow where
  value : Str
  pipe : Str
  deriving DecidableEq

abbrev Rates := List (Str × RateRow)

namespace Rates

def get (rates : Rates) (rowId : Str) : Option RateRow := rates.lookup rowId

def parseValue (s rowId : Str) : Exec Str F64 :=
  Exec.ofOption ("row " ++ rowId ++ ": value " ++ debug s ++ " is not a number") (F64.parse s)

/-- Keep the peak; on a tie the first-seen row stays. -/
def add (rates : Rates) (id : Str) (row : RateRow) : Exec Str Rates :=
  match rates.get id with
  | some existing => do
      let old ← parseValue existing.value id
      let new ← parseValue row.value id
      pure (if new ≤ old then rates else Assoc.alter (fun _ ↦ row) id rates)
  | none => pure (Assoc.alter (fun _ ↦ row) id rates)

def addRow (idCol valueCol pipeCol : ℕ) (rates : Rates) (row : List Str) : Exec Str Rates := do
  let id ← Table.cell row idCol
  let value ← Table.cell row valueCol
  let pipe ← Table.cell row pipeCol
  rates.add id ⟨value, pipe⟩

def parse (csvText : Str) : Exec Str Rates := do
  let t := Table.parse csvText
  let idCol ← t.col "row_id"
  let valueCol ← t.col "value"
  let pipeCol ← t.col "pipe"
  t.rows.foldlM (addRow idCol valueCol pipeCol) []

/-! ## The entry of an identifier -/

variable {rates rates' : Rates} {id : Str} {row r : RateRow}

theorem add_eq_ok (h : rates.add id row = .ok rates') :
    rates' = Assoc.alter (fun _ ↦ row) id rates ∨
      (rates' = rates ∧ ∃ r, rates.get id = some r) := by
  rw [add] at h
  split at h
  next existing hget =>
    simp only [Exec.bind_eq_ok, Exec.pure_eq_ok] at h
    obtain ⟨old, -, new, -, rfl⟩ := h
    split
    · exact Or.inr ⟨rfl, existing, hget⟩
    · exact Or.inl rfl
  next => exact Or.inl (Exec.pure_eq_ok.mp h).symm

theorem get_add (h : rates.add id row = .ok rates') {id' : Str} (hid : id' ≠ id) :
    rates'.get id' = rates.get id' := by
  rcases add_eq_ok h with rfl | ⟨rfl, -⟩
  · exact Assoc.lookup_alter_of_ne _ hid rates
  · rfl

/-- A repeated identifier is accepted only with two values that parse. -/
theorem parse_of_add_eq_ok (h : rates.add id row = .ok rates') (hget : rates.get id = some r) :
    F64.parse r.value ≠ none ∧ F64.parse row.value ≠ none := by
  rw [add] at h
  rw [hget] at h
  simp only [parseValue, Exec.bind_eq_ok, Exec.ofOption_eq_ok] at h
  obtain ⟨old, hold, new, hnew, -⟩ := h
  exact ⟨by simp [hold], by simp [hnew]⟩

/-- A value that does not parse stays the entry of its identifier. -/
theorem get_add_of_parse_none (h : rates.add id row = .ok rates') {id' : Str}
    (hget : rates.get id' = some r) (hbad : F64.parse r.value = none) :
    rates'.get id' = some r := by
  by_cases hid : id' = id
  · subst hid
    exact absurd hbad (parse_of_add_eq_ok h hget).1
  · rw [get_add h hid, hget]

/-! ## A table of rows -/

/-- The rows of a table by identifier. -/
def ofRows (rows : List (Str × RateRow)) : Exec Str Rates :=
  rows.foldlM (fun rates row ↦ rates.add row.1 row.2) []

variable {rows : List (Str × RateRow)}

/-- Every entry is a row of the table. -/
theorem mem_of_get_ofRows (h : ofRows rows = .ok rates) (hget : rates.get id = some r) :
    (id, r) ∈ rows := by
  have hinv : ∀ id r, rates.get id = some r → (id, r) ∈ rows := by
    refine Exec.foldlM_invariant
      (fun rates : Rates ↦ ∀ id r, rates.get id = some r → (id, r) ∈ rows)
      (fun rates row hrow rates' hinv hadd id r hget ↦ ?_) (by simp [get]) h
    by_cases hid : id = row.1
    · subst hid
      rcases add_eq_ok hadd with rfl | ⟨rfl, -⟩
      · have hself : some row.2 = some r := (Assoc.lookup_alter_self _ _ _).symm.trans hget
        obtain rfl := Option.some.inj hself
        exact hrow
      · exact hinv _ _ hget
    · rw [get_add hadd hid] at hget
      exact hinv id r hget
  exact hinv id r hget

/-- In an accepted table a row whose value does not parse is the entry of its
identifier. -/
theorem get_of_parse_none (h : ofRows rows = .ok rates) (hrow : (id, row) ∈ rows)
    (hbad : F64.parse row.value = none) : rates.get id = some row := by
  obtain ⟨pre, post, rfl⟩ := List.append_of_mem hrow
  rw [ofRows] at h
  rw [List.foldlM_append] at h
  obtain ⟨before, -, h⟩ := Exec.bind_eq_ok.mp h
  rw [List.foldlM_cons] at h
  obtain ⟨mid, hmid, h⟩ := Exec.bind_eq_ok.mp h
  have hget : mid.get id = some row := by
    rcases add_eq_ok hmid with rfl | ⟨rfl, r, hr⟩
    · exact Assoc.lookup_alter_self _ _ _
    · exact absurd hbad (parse_of_add_eq_ok hmid hr).2
  exact Exec.foldlM_invariant (fun rates : Rates ↦ rates.get id = some row)
    (fun rates row' _ rates' hget hadd ↦ get_add_of_parse_none hadd hget hbad) hget h

/-! ## The peak of an identifier -/

theorem add_of_none (hget : rates.get id = none) :
    rates.add id row = .ok (Assoc.alter (fun _ ↦ row) id rates) := by
  rw [add, hget]
  rfl

theorem add_of_some {old new : ℚ} (hget : rates.get id = some r)
    (hold : F64.parse r.value = some (.fin old)) (hnew : F64.parse row.value = some (.fin new)) :
    rates.add id row = .ok (if new ≤ old then rates else Assoc.alter (fun _ ↦ row) id rates) := by
  simp only [add, hget, parseValue, hold, hnew, Exec.ofOption_some]
  rfl

theorem get_alter_self : Rates.get (Assoc.alter (fun _ ↦ row) id rates) id = some row :=
  Assoc.lookup_alter_self _ _ _

/-- The rows of an identifier, in the order of the table. -/
def rowsOf (rows : List (Str × RateRow)) (id : Str) : List RateRow :=
  (rows.filter (·.1 = id)).map Prod.snd

theorem rowsOf_concat_self (rows : List (Str × RateRow)) (id : Str) (row : RateRow) :
    rowsOf (rows ++ [(id, row)]) id = rowsOf rows id ++ [row] := by
  simp [rowsOf]

theorem rowsOf_concat_of_ne {id' : Str} (h : id' ≠ id) :
    rowsOf (rows ++ [(id, row)]) id' = rowsOf rows id' := by
  simp [rowsOf, Ne.symm h]

/-- A table of finite values keeps the first of the largest rows. -/
theorem exists_ofRows_argmax (v : RateRow → ℚ)
    (hv : ∀ e ∈ rows, F64.parse e.2.value = some (.fin (v e.2))) :
    ∃ rates, ofRows rows = .ok rates ∧ ∀ id, rates.get id = (rowsOf rows id).argmax v := by
  induction rows using List.reverseRecOn with
  | nil => exact ⟨[], rfl, fun id ↦ rfl⟩
  | append_singleton rows e ih =>
      obtain ⟨hrows, hlast⟩ := List.forall_mem_append.mp hv
      obtain ⟨rates, hfold, hget⟩ := ih hrows
      obtain ⟨id, row⟩ := e
      have hrow : F64.parse row.value = some (.fin (v row)) := hlast (id, row) (by simp)
      have hadd : ofRows (rows ++ [(id, row)]) = rates.add id row := by
        rw [ofRows] at hfold ⊢
        rw [List.foldlM_append, hfold]
        exact bind_pure (rates.add id row)
      rw [hadd]
      cases hold : rates.get id with
      | none =>
          refine ⟨_, add_of_none hold, ?_⟩
          intro id'
          by_cases hid : id' = id
          · subst hid
            rw [get_alter_self, rowsOf_concat_self, List.argmax_concat, ← hget id', hold]
          · rw [rowsOf_concat_of_ne hid, ← hget id']
            exact Assoc.lookup_alter_of_ne _ hid rates
      | some r =>
          have hmem : (id, r) ∈ rows := mem_of_get_ofRows hfold hold
          refine ⟨_, add_of_some hold (hrows _ hmem) hrow, ?_⟩
          intro id'
          by_cases hid : id' = id
          · subst hid
            rw [rowsOf_concat_self, List.argmax_concat, ← hget id', hold]
            dsimp only
            split
            next hle => rw [if_neg (not_lt.mpr hle), hold]
            next hlt => rw [if_pos (not_le.mp hlt), get_alter_self]
          · rw [rowsOf_concat_of_ne hid, ← hget id']
            split
            next => rfl
            next => exact Assoc.lookup_alter_of_ne _ hid rates

/-- Rows of new identifiers are added beside the others. -/
theorem exists_foldlM_add_fresh (hnodup : (rows.map Prod.fst).Nodup)
    (hfresh : ∀ e ∈ rows, rates.get e.1 = none) :
    ∃ rates', rows.foldlM (fun rates e ↦ rates.add e.1 e.2) rates = .ok rates' ∧
      ∀ id ∉ rows.map Prod.fst, rates'.get id = rates.get id := by
  induction rows generalizing rates with
  | nil => exact ⟨rates, rfl, fun id _ ↦ rfl⟩
  | cons e rows ih =>
      rw [List.map_cons] at hnodup
      obtain ⟨hnew, hnodup⟩ := List.nodup_cons.mp hnodup
      obtain ⟨hnone, hfresh⟩ := List.forall_mem_cons.mp hfresh
      have hrest : ∀ e' ∈ rows, Rates.get (Assoc.alter (fun _ ↦ e.2) e.1 rates) e'.1 = none := by
        intro e' he'
        have hne : e'.1 ≠ e.1 := fun h ↦ hnew (h ▸ List.mem_map_of_mem he')
        exact (Assoc.lookup_alter_of_ne _ hne rates).trans (hfresh e' he')
      obtain ⟨rates', hfold, hget⟩ := ih hnodup hrest
      refine ⟨rates', ?_, ?_⟩
      · rw [List.foldlM_cons, add_of_none hnone]
        exact hfold
      · intro id hid
        obtain ⟨hne, hid⟩ := not_or.mp (mt List.mem_cons.mpr hid)
        rw [hget id hid]
        exact Assoc.lookup_alter_of_ne _ hne rates

end Rates

end CalxMill.Nvidia
