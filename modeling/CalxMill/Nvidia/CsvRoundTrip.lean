import CalxMill.Nvidia.Csv

/-!
# Reading back what the writer wrote

The reader is followed over one written field, then over one record, then over
a list of records.  A written field ends in front of a comma or a carriage
return, so a closing quote is never taken for half of a doubled one.
-/

namespace CalxMill.Nvidia

open Lib Rust

namespace Reader

variable {r : Reader} {f rest eol : Str} {c : Char}

/-! ## One field -/

theorem needsQuotes_cons_eq_false : needsQuotes (c :: f) = false ↔
    (c ≠ ',' ∧ c ≠ '"' ∧ c ≠ '\r' ∧ c ≠ '\n') ∧ needsQuotes f = false := by
  simp [needsQuotes]

theorem read_unquoted (hq : r.inQuotes = false) (hf : needsQuotes f = false) :
    r.read (f ++ rest) = ({ r with field := r.field ++ f } : Reader).read rest := by
  induction f generalizing r with
  | nil => simp
  | cons c f ih =>
      obtain ⟨⟨hcomma, hquote, hcr, hlf⟩, hf⟩ := needsQuotes_cons_eq_false.mp hf
      have hplain : r.plain c = { r with field := r.field ++ [c] } := by
        simp [plain, push, hcomma, hquote, hcr, hlf]
      have hrec := ih (r := { r with field := r.field ++ [c] }) hq hf
      rw [List.cons_append, read_cons hq, hplain, hrec]
      simp

/-- From inside the quotes to behind the closing one. -/
theorem read_quoted (hq : r.inQuotes = true) (hrest : rest.head? ≠ some '"') :
    r.read (doubleQuotes f ++ '"' :: rest) =
      ({ r with field := r.field ++ f, inQuotes := false } : Reader).read rest := by
  induction f generalizing r with
  | nil =>
      rw [List.append_nil]
      exact read_close hq hrest
  | cons c f ih =>
      have hpush : (r.push c).inQuotes = true := hq
      have hfield : (r.push c).field ++ f = r.field ++ c :: f := by simp [push]
      have hrec := ih hpush
      rw [hfield] at hrec
      by_cases hc : c = '"'
      · subst hc
        exact (read_doubled hq).trans hrec
      · have hdouble : doubleQuotes (c :: f) = c :: doubleQuotes f := by simp [doubleQuotes, hc]
        rw [hdouble]
        exact (read_inner hq hc).trans hrec

/-- A written field is read into an empty one. -/
theorem read_quoteField (hq : r.inQuotes = false) (hfield : r.field = [])
    (hrest : rest.head? ≠ some '"') :
    r.read (quoteField f ++ rest) = ({ r with
      field := f, fieldStarted := r.fieldStarted || needsQuotes f } : Reader).read rest := by
  rw [quoteField]
  cases hf : needsQuotes f with
  | false =>
      rw [if_neg (by simp), read_unquoted hq hf, hfield]
      simp
  | true =>
      have hopen : r.plain '"' = { r with inQuotes := true, fieldStarted := true } := rfl
      rw [if_pos rfl, List.append_assoc, List.cons_append, read_cons hq, hopen,
        List.singleton_append, read_quoted rfl hrest]
      simp [hfield, hq]

/-! ## Records -/

/-- The line ends that the reader knows. -/
def IsLineEnd (eol : Str) : Prop := eol = lit "\r\n" ∨ eol = lit "\n"

theorem IsLineEnd.head?_ne_quote (h : IsLineEnd eol) : (eol ++ rest).head? ≠ some '"' := by
  rcases h with rfl | rfl
  · simp [lit]
  · simp [lit]

/-- A record in front of a line end. -/
def recordWith (eol : Str) (fields : List Str) : Str := join "," (fields.map quoteField) ++ eol

/-- The state behind a record. -/
def after (r : Reader) (fields : List Str) : Reader :=
  { r with
    records := r.records ++ [r.record ++ fields]
    record := []
    field := []
    fieldStarted := false }

theorem read_lineBreak (heol : IsLineEnd eol) (hq : r.inQuotes = false)
    (hstarted : r.pending = true) :
    r.read (eol ++ rest) = (({ r with field := [] } : Reader).after [r.field]).read rest := by
  have hcr : r.plain '\r' = r := rfl
  have hlf : r.plain '\n' = ({ r with field := [] } : Reader).after [r.field] := by
    simp [plain, endRecord, hstarted, after]
  have hend : r.read ('\n' :: rest) =
      (({ r with field := [] } : Reader).after [r.field]).read rest :=
    (read_cons hq).trans (congrArg (fun r ↦ read r rest) hlf)
  rcases heol with rfl | rfl
  · exact (read_cons hq).trans ((congrArg (fun r ↦ read r ('\n' :: rest)) hcr).trans hend)
  · exact hend

/-- The fields of a record and its line break. -/
theorem read_fields {fs : List Str} (heol : IsLineEnd eol) (hq : r.inQuotes = false)
    (hfield : r.field = []) :
    ∀ f : Str, r.fieldStarted = true ∨ fs ≠ [] →
    r.read (join "," ((f :: fs).map quoteField) ++ (eol ++ rest)) =
      (r.after (f :: fs)).read rest := by
  induction fs generalizing r with
  | nil =>
      intro f hstarted
      have hstarted : r.fieldStarted = true := by simpa using hstarted
      have hjoin : join "," ([f].map quoteField) = quoteField f := by simp [join]
      let r' : Reader := { r with field := f, fieldStarted := r.fieldStarted || needsQuotes f }
      have hpending : r'.pending = true := by simp [r', pending, hstarted]
      have hlast : r'.read (eol ++ rest) =
          (({ r' with field := [] } : Reader).after [r'.field]).read rest :=
        read_lineBreak heol hq hpending
      rw [hjoin, read_quoteField hq hfield heol.head?_ne_quote, hlast]
      simp [after, r']
  | cons f' fs ih =>
      intro f _
      have hjoin : join "," ((f :: f' :: fs).map quoteField) =
          quoteField f ++ (',' :: join "," ((f' :: fs).map quoteField)) := by
        simp [join, lit, List.intercalate]
      rw [hjoin, List.append_assoc, read_quoteField hq hfield (by simp), List.cons_append,
        read_cons (by exact hq)]
      have hrec := ih (r := { r with record := r.record ++ [f], field := [], fieldStarted := true })
        hq rfl f' (Or.inl rfl)
      refine Eq.trans ?_ (hrec.trans ?_)
      · rfl
      · simp [after]

/-- Records of two or more fields, read between two records. -/
theorem read_records {rows : List (List Str)} (heol : IsLineEnd eol) (hq : r.inQuotes = false)
    (hfield : r.field = []) (hrecord : r.record = []) (hstarted : r.fieldStarted = false)
    (hrows : ∀ fields ∈ rows, 2 ≤ fields.length) :
    r.read (rows.flatMap (recordWith eol)) = { r with records := r.records ++ rows } := by
  induction rows generalizing r with
  | nil => simp [read]
  | cons fields rows ih =>
      have hlen := hrows fields List.mem_cons_self
      obtain ⟨f, tail, rfl⟩ := List.exists_cons_of_length_pos (by omega : 0 < fields.length)
      have htail : 0 < tail.length := by
        rw [List.length_cons] at hlen
        omega
      obtain ⟨f', fs, rfl⟩ := List.exists_cons_of_length_pos htail
      have hrec := ih (r := r.after (f :: f' :: fs)) hq rfl rfl rfl
        fun fields hf ↦ hrows fields (List.mem_cons_of_mem _ hf)
      rw [List.flatMap_cons, recordWith, List.append_assoc,
        read_fields heol hq hfield f (Or.inr (by simp)), hrec]
      simp [after, hfield, hrecord, hstarted]

/-- A record is closed once. -/
theorem records_endRecord_endRecord (r : Reader) :
    ({ r.endRecord with fieldStarted := false } : Reader).endRecord.records =
      r.endRecord.records := by
  have hclosed : ({ r.endRecord with fieldStarted := false } : Reader).pending = false := by
    cases hpending : r.pending with
    | true =>
        rw [endRecord_of_pending hpending]
        rfl
    | false =>
        rw [endRecord_of_not_pending hpending]
        simp only [pending, Bool.or_eq_false_iff] at hpending
        simp [pending, hpending]
  rw [endRecord, hclosed]
  rfl

end Reader

theorem foldl_writeRecord {rows : List (List Str)} :
    ∀ out, rows.foldl writeRecord out = out ++ rows.flatMap (writeRecord []) := by
  induction rows with
  | nil => simp
  | cons fields rows ih =>
      intro out
      rw [List.foldl_cons, ih, List.flatMap_cons]
      simp [writeRecord]

/-- Records of two or more fields are read back, whichever way their lines end. -/
theorem parseRecords_flatMap_recordWith {eol : Str} {rows : List (List Str)}
    (heol : Reader.IsLineEnd eol) (h : ∀ fields ∈ rows, 2 ≤ fields.length) :
    parseRecords (rows.flatMap (Reader.recordWith eol)) = rows := by
  rw [parseRecords, Reader.read_records heol rfl rfl rfl rfl h]
  rfl

/-- The last line break may be missing. -/
theorem parseRecords_append_lineBreak {s : Str}
    (h : (Reader.start.read (s ++ ['\n'])).inQuotes = false) :
    parseRecords (s ++ ['\n']) = parseRecords s := by
  have hread : Reader.start.read (s ++ ['\n']) = (Reader.start.read s).read ['\n'] :=
    Reader.read_append (by simp)
  have hq : (Reader.start.read s).inQuotes = false := by
    by_contra hq
    rw [Bool.not_eq_false] at hq
    rw [hread, Reader.read_inner hq (by decide)] at h
    exact absurd (hq.symm.trans h) (by decide)
  have hlf : (Reader.start.read s).read ['\n'] =
      { (Reader.start.read s).endRecord with fieldStarted := false } := Reader.read_cons hq
  rw [parseRecords, parseRecords, hread, hlf]
  exact Reader.records_endRecord_endRecord _

theorem flatMap_writeRecord (rows : List (List Str)) :
    rows.flatMap (writeRecord []) = rows.flatMap (Reader.recordWith (lit "\r\n")) := rfl

/-- The reader returns the records that were written one behind another. -/
theorem parseRecords_flatMap_writeRecord {rows : List (List Str)}
    (h : ∀ fields ∈ rows, 2 ≤ fields.length) :
    parseRecords (rows.flatMap (writeRecord [])) = rows := by
  rw [flatMap_writeRecord]
  exact parseRecords_flatMap_recordWith (Or.inl rfl) h

theorem parseRecords_flatMap_writeRecord_quotes :
    parseRecords ([[lit "a,b", lit "c\"\rd"], [[], lit "é\n"]].flatMap (writeRecord [])) =
      [[lit "a,b", lit "c\"\rd"], [[], lit "é\n"]] := by
  apply parseRecords_flatMap_writeRecord
  simp

/-- The reader returns the records that the writer was given. -/
theorem parseRecords_foldl_writeRecord {rows : List (List Str)}
    (h : ∀ fields ∈ rows, 2 ≤ fields.length) :
    parseRecords (rows.foldl writeRecord []) = rows := by
  rw [foldl_writeRecord, List.nil_append, flatMap_writeRecord]
  exact parseRecords_flatMap_recordWith (Or.inl rfl) h

/-- A table whose rows are as wide as its header is read back. -/
theorem Table.parse_foldl_writeRecord {header : List Str} {rows : List (List Str)}
    (hheader : 2 ≤ header.length) (hrows : ∀ row ∈ rows, row.length = header.length) :
    Table.parse ((header :: rows).foldl writeRecord []) = ⟨header, rows⟩ := by
  have hall : ∀ fields ∈ header :: rows, 2 ≤ fields.length := by
    intro fields hf
    rcases List.mem_cons.mp hf with rfl | hf
    · exact hheader
    · exact hheader.trans_eq (hrows fields hf).symm
  rw [Table.parse]
  rw [parseRecords_foldl_writeRecord hall]
  have hpad : ∀ row ∈ rows, row ++ List.replicate (header.length - row.length) [] = row := by
    intro row hrow
    simp [hrows row hrow]
  simp only [Table.mk.injEq, true_and]
  exact (List.map_congr_left hpad).trans (List.map_id rows)

end CalxMill.Nvidia
