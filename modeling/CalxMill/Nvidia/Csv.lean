import CalxMill.Lib.Exec
import CalxMill.Rust.Str

/-!
# The CSV reader and writer

`parseRecords` is a state machine over the characters of the text.  Its four
variables are the field and the record under construction, whether a quoted
section is open, and whether a delimiter or quote has announced a field.
-/

namespace CalxMill.Nvidia

open Lib Rust

structure Reader where
  records : List (List Str)
  record : List Str
  field : Str
  inQuotes : Bool
  fieldStarted : Bool

namespace Reader

def start : Reader := ⟨[], [], [], false, false⟩

def pending (r : Reader) : Bool :=
  r.fieldStarted || !r.field.isEmpty || !r.record.isEmpty

/-- Close the record under construction, unless the line was blank. -/
def endRecord (r : Reader) : Reader :=
  if r.pending then
    { r with records := r.records ++ [r.record ++ [r.field]], record := [], field := [] }
  else r

theorem endRecord_of_pending {r : Reader} (hr : r.pending = true) : r.endRecord =
    { r with records := r.records ++ [r.record ++ [r.field]], record := [], field := [] } :=
  if_pos hr

theorem endRecord_of_not_pending {r : Reader} (hr : r.pending = false) : r.endRecord = r :=
  if_neg (by simp [hr])

def push (r : Reader) (c : Char) : Reader := { r with field := r.field ++ [c] }

/-- A character outside quotes. -/
def plain (r : Reader) (c : Char) : Reader :=
  if c = '"' then { r with inQuotes := true, fieldStarted := true } else
  if c = ',' then
    { r with record := r.record ++ [r.field], field := [], fieldStarted := true } else
  if c = '\r' then r else
  if c = '\n' then { r.endRecord with fieldStarted := false } else
  r.push c

def read : Reader → Str → Reader
  | r, [] => r
  | r, c :: cs =>
      if r.inQuotes then
        if c = '"' then
          match cs with
          | '"' :: cs => read (r.push '"') cs
          | cs => read { r with inQuotes := false } cs
        else read (r.push c) cs
      else read (r.plain c) cs

section

variable {r : Reader} {c : Char} {s rest : Str}

theorem read_cons (hq : r.inQuotes = false) : r.read (c :: rest) = (r.plain c).read rest := by
  rw [read.eq_def]
  simp [hq]

theorem read_inner (hq : r.inQuotes = true) (hc : c ≠ '"') :
    r.read (c :: rest) = (r.push c).read rest := by
  rw [read.eq_def]
  simp [hq, hc]

theorem read_doubled (hq : r.inQuotes = true) :
    r.read ('"' :: '"' :: rest) = (r.push '"').read rest := by
  rw [read.eq_def]
  simp [hq]

theorem read_close (hq : r.inQuotes = true) (hrest : rest.head? ≠ some '"') :
    r.read ('"' :: rest) = ({ r with inQuotes := false } : Reader).read rest := by
  rw [read.eq_def]
  simp only [hq, if_true]
  split
  next => exact absurd rfl hrest
  next => rfl

/-- What does not start with a quote is read behind the text in front of it. -/
theorem read_append (hrest : rest.head? ≠ some '"') :
    r.read (s ++ rest) = (r.read s).read rest := by
  fun_induction read r s with
  | case1 => rfl
  | case2 r hq cs ih =>
      rw [List.cons_append, List.cons_append, read_doubled hq]
      exact ih
  | case3 r hq cs hcs ih =>
      have hhead : (cs ++ rest).head? ≠ some '"' := by
        cases cs with
        | nil => exact hrest
        | cons c cs =>
            intro h
            obtain rfl := Option.some.inj h
            exact hcs cs rfl
      rw [List.cons_append, read_close hq hhead]
      exact ih
  | case4 r c cs hq hc ih =>
      rw [List.cons_append, read_inner hq hc]
      exact ih
  | case5 r c cs hq ih =>
      rw [List.cons_append, read_cons (by simpa using hq)]
      exact ih

end

end Reader

def parseRecords (text : Str) : List (List Str) :=
  ((Reader.start.read text).endRecord).records

def needsQuotes (f : Str) : Bool := f.any (· ∈ [',', '"', '\r', '\n'])

def doubleQuotes (f : Str) : Str := f.flatMap fun c ↦ if c = '"' then ['"', '"'] else [c]

/-- A field is quoted only if it holds the delimiter, a quote or a line break. -/
def quoteField (f : Str) : Str :=
  if needsQuotes f then '"' :: doubleQuotes f ++ ['"'] else f

def writeRecord (out : Str) (fields : List Str) : Str :=
  out ++ join "," (fields.map quoteField) ++ "\r\n"

structure Table where
  header : List Str
  rows : List (List Str)

namespace Table

def parse (text : Str) : Table :=
  match parseRecords text with
  | [] => ⟨[], []⟩
  | header :: records =>
      ⟨header, records.map fun row ↦ row ++ List.replicate (header.length - row.length) []⟩

/-- Column index by name; a missing column is a panic. -/
def col (t : Table) (name : Str) : Exec Str ℕ :=
  Exec.expect ("no column " ++ debug name ++ " in header " ++ debugList t.header)
    (t.header.findIdx? (· = name))

/-- A cell of a row; an index past the end is a panic. -/
def cell (row : List Str) (i : ℕ) : Exec Str Str :=
  Exec.expect "index out of bounds" row[i]?

/-- The cell of a row under a column of the header. -/
def field (t : Table) (name : Str) (row : List Str) : Str :=
  row.getD (t.header.findIdx (· = name)) []

theorem field_eq_getD {t : Table} {name : Str} {i : ℕ} (hi : t.col name = .ok i) (row : List Str) :
    t.field name row = row.getD i [] := by
  have hfind : t.header.findIdx? (· = name) = some i := Exec.expect_eq_ok.mp hi
  have hidx : t.header.findIdx (· = name) = i := (List.findIdx?_eq_some_iff_findIdx_eq.mp hfind).2
  rw [field, hidx]

theorem field_eq {t : Table} {name s : Str} {i : ℕ} {row : List Str} (hi : t.col name = .ok i)
    (hs : cell row i = .ok s) : t.field name row = s := by
  have hcell : row[i]? = some s := Exec.expect_eq_ok.mp hs
  rw [field_eq_getD hi, List.getD_eq_getElem?_getD, hcell, Option.getD_some]

/-- Every row is at least as long as the header. -/
theorem length_le_of_mem_parse {text : Str} {row : List Str} (h : row ∈ (parse text).rows) :
    (parse text).header.length ≤ row.length := by
  rw [parse] at h ⊢
  split at h
  · simp at h
  · obtain ⟨r, -, rfl⟩ := List.mem_map.mp h
    simp only [List.length_append, List.length_replicate]
    omega

theorem col_eq_ok {t : Table} {name : Str} {i : ℕ} (h : t.col name = .ok i) :
    i < t.header.length := by
  have hi : t.header.findIdx? (· = name) = some i := Exec.expect_eq_ok.mp h
  exact (List.findIdx?_eq_some_iff_getElem.mp hi).1

theorem col_safe {t : Table} {name : Str} (h : name ∈ t.header) : (t.col name).Safe := by
  have hs : (t.header.findIdx? (· = name)).isSome := by simpa using h
  obtain ⟨i, hi⟩ := Option.isSome_iff_exists.mp hs
  simpa [col, hi] using Exec.Safe.ok i

/-- A column of the header names a cell in every row of the table. -/
theorem cell_safe {text name : Str} {row : List Str} {i : ℕ}
    (hrow : row ∈ (parse text).rows) (hi : (parse text).col name = .ok i) :
    (cell row i).Safe := by
  have hlt : i < row.length := (col_eq_ok hi).trans_le (length_le_of_mem_parse hrow)
  simpa [cell, List.getElem?_eq_getElem hlt] using Exec.Safe.ok row[i]

end Table

end CalxMill.Nvidia
