import CalxMill.Lib.Assoc
import CalxMill.Nvidia.CsvRoundTrip
import CalxMill.Rust.Float
import CalxMill.Rust.Text
import Mathlib.Data.List.FinRange

/-!
# Metric exports

An export is searched for the line that names its columns, and what stands in
front of that line is dropped.  The columns are then found by name, so the rows
do not depend on their order, on further columns or on the dropped lines.  The
lines are taken apart and joined again, so a line break inside a field is read
as a line feed.
-/

namespace CalxMill.Nvidia

open Lib Rust

structure MetricRow where
  launch : Str
  kernel : Str
  metric : Str
  unit : Str
  value : Str
  deriving DecidableEq

/-! ## The reader -/

/-- The line names both columns that mark the header. -/
def NamesMetric (line : Str) : Bool :=
  contains line "Metric Name" && contains line "Metric Value"

/-- The optional columns are empty where they are missing. -/
def metricRow (kernel metric value : ℕ) (unit launch : Option ℕ) (r : List Str) :
    Exec Str MetricRow := do
  let kernel ← Table.cell r kernel
  let metric ← Table.cell r metric
  let value ← Table.cell r value
  return {
    launch := (launch.bind (r[·]?)).getD []
    kernel := kernel
    metric := metric
    unit := (unit.bind (r[·]?)).getD []
    value := value }

/-- A record that ends in front of one of the three required columns is dropped. -/
def metricRows (header : List Str) (records : List (List Str)) : Exec Str (List MetricRow) := do
  let col (name : Str) : Option ℕ := header.findIdx? (· = name)
  let kernel ← Exec.ofOption (lit "no \"Kernel Name\" column") (col "Kernel Name")
  let metric ← Exec.ofOption (lit "no \"Metric Name\" column") (col "Metric Name")
  let value ← Exec.ofOption (lit "no \"Metric Value\" column") (col "Metric Value")
  let unit := col "Metric Unit"
  let launch := col "ID"
  (records.filter fun r ↦ max (max value metric) kernel < r.length).mapM
    (metricRow kernel metric value unit launch)

def parseNcuCsv (text : Str) : Exec Str (List MetricRow) := do
  let headerAt ← Exec.ofOption
    (lit "no ncu csv header (a line naming \"Metric Name\" and \"Metric Value\")")
    ((lines text).findIdx? NamesMetric)
  let body := join "\n" ((lines text).drop headerAt)
  match parseRecords body with
  | [] => Exec.err (lit "empty ncu csv")
  | header :: records => metricRows header records

/-- A value as a number, without its thousands separators. -/
def metricValue (row : MetricRow) : Option F64 := F64.parse (row.value.filter (· ≠ ','))

def ACHIEVED_OCCUPANCY : Str := "sm__warps_active.avg.pct_of_peak_sustained_active"

structure Achieved where
  launch : Str
  kernel : Str
  pct : F64
  deriving DecidableEq

/-- In the order of the export; a value that is no number is left out. -/
def achievedOccupancy (rows : List MetricRow) : List Achieved :=
  (rows.filter (·.metric = ACHIEVED_OCCUPANCY)).filterMap fun r ↦
    (metricValue r).map fun v ↦ ⟨r.launch, r.kernel, v⟩

/-! ## The tables of an export -/

/-- A table of named columns, each with a cell in every row. -/
structure MetricTable (n : ℕ) where
  columns : List (Str × (Fin n → Str))
  distinct : (Assoc.keys columns).Nodup
  singleLine : ∀ name ∈ Assoc.keys columns, '\n' ∉ name
  kernelName : lit "Kernel Name" ∈ Assoc.keys columns
  metricName : lit "Metric Name" ∈ Assoc.keys columns
  valueName : lit "Metric Value" ∈ Assoc.keys columns

namespace MetricTable

variable {n : ℕ}

def header (t : MetricTable n) : List Str := Assoc.keys t.columns

def row (t : MetricTable n) (i : Fin n) : List Str := t.columns.map fun c ↦ c.2 i

/-- The header and the rows, written one behind another. -/
def text (t : MetricTable n) : Str :=
  (t.header :: List.ofFn t.row).flatMap (writeRecord [])

/-- The cell of a named column as it is read, empty where there is no such column. -/
def cell (t : MetricTable n) (name : Str) (i : Fin n) : Str :=
  crlfToLf (((t.columns.lookup name).map (· i)).getD [])

/-- The row of the table, by the names of its columns. -/
def metrics (t : MetricTable n) (i : Fin n) : MetricRow where
  launch := t.cell "ID" i
  kernel := t.cell "Kernel Name" i
  metric := t.cell "Metric Name" i
  unit := t.cell "Metric Unit" i
  value := t.cell "Metric Value" i

/-- The columns that the reader asks for. -/
def named (t : MetricTable n) : List (Str × (Fin n → Str)) :=
  t.columns.filter fun c ↦
    c.1 ∈ ["ID", "Kernel Name", "Metric Name", "Metric Unit", "Metric Value"].map lit

end MetricTable

/-- The lines in front of a table. -/
def preambleText (preamble : List Str) : Str := preamble.flatMap (· ++ ['\n'])

/-- No line of the preamble is taken for the header. -/
def IsPreamble (preamble : List Str) : Prop :=
  ∀ line ∈ preamble, '\n' ∉ line ∧ NamesMetric line = false

/-! ## Written records with line feeds -/

theorem crlfToLf_doubleQuotes (f : Str) : crlfToLf (doubleQuotes f) = doubleQuotes (crlfToLf f) := by
  fun_induction crlfToLf f with
  | case1 s ih =>
      have hdouble : doubleQuotes ('\r' :: '\n' :: s) = '\r' :: '\n' :: doubleQuotes s := rfl
      rw [hdouble, crlfToLf_crlf, ih]
      rfl
  | case2 c s hs ih =>
      by_cases hc : c = '"'
      · subst hc
        have hdouble : ∀ s, doubleQuotes ('"' :: s) = '"' :: '"' :: doubleQuotes s := fun _ ↦ rfl
        rw [hdouble, hdouble, crlfToLf_cons (Or.inl (by decide)),
          crlfToLf_cons (Or.inl (by decide)), ih]
      · have hdouble : ∀ s, doubleQuotes (c :: s) = c :: doubleQuotes s := by
          simp [doubleQuotes, hc]
        have hhead : c ≠ '\r' ∨ (doubleQuotes s).head? ≠ some '\n' := by
          by_contra hboth
          obtain ⟨hcr, hlf⟩ := not_or.mp hboth
          cases s with
          | nil => exact hlf (by simp [doubleQuotes])
          | cons d s =>
              apply hs s (not_not.mp hcr)
              have hd := not_not.mp hlf
              by_cases hquote : d = '"'
              · simp [doubleQuotes, hquote] at hd
              · simpa [doubleQuotes, hquote] using hd
        rw [hdouble, hdouble, crlfToLf_cons hhead, ih]
  | case3 => rfl

theorem needsQuotes_crlfToLf (f : Str) : needsQuotes (crlfToLf f) = needsQuotes f := by
  fun_induction crlfToLf f with
  | case1 s ih => simp [needsQuotes]
  | case2 c s hs ih =>
      rw [needsQuotes] at ih ⊢
      rw [List.any_cons, ih]
      rfl
  | case3 => rfl

theorem crlfToLf_quoteField (f : Str) : crlfToLf (quoteField f) = quoteField (crlfToLf f) := by
  rw [quoteField, quoteField, needsQuotes_crlfToLf]
  cases hf : needsQuotes f with
  | false => simp
  | true =>
      have hquote : crlfToLf ['"'] = ['"'] := rfl
      rw [if_pos rfl, if_pos rfl, List.cons_append, crlfToLf_cons (Or.inl (by decide)),
        crlfToLf_append (by simp), crlfToLf_doubleQuotes, hquote]
      rfl

theorem crlfToLf_recordWith {fields : List Str} (hne : fields ≠ []) (rest : Str) :
    crlfToLf (Reader.recordWith (lit "\r\n") fields ++ rest) =
      Reader.recordWith (lit "\n") (fields.map crlfToLf) ++ crlfToLf rest := by
  induction fields with
  | nil => exact absurd rfl hne
  | cons f fields ih =>
      cases fields with
      | nil =>
          have hone : ∀ eol f : Str, Reader.recordWith eol [f] = quoteField f ++ eol := by
            simp [Reader.recordWith, join]
          rw [hone, List.map_singleton, hone, List.append_assoc,
            crlfToLf_append (by simp [lit]), crlfToLf_quoteField, List.append_assoc]
          exact congrArg _ (crlfToLf_crlf rest)
      | cons f' fields =>
          have hcons : ∀ (eol f f' : Str) fs, Reader.recordWith eol (f :: f' :: fs) =
              quoteField f ++ ',' :: Reader.recordWith eol (f' :: fs) := by
            intro eol f f' fs
            simp only [Reader.recordWith, List.map_cons, join_cons_cons]
            simp [lit]
          rw [hcons, List.append_assoc, crlfToLf_append (by simp), crlfToLf_quoteField,
            List.cons_append, crlfToLf_cons (Or.inl (by decide)), ih (List.cons_ne_nil f' fields)]
          simp only [List.map_cons, hcons, List.append_assoc, List.cons_append]

theorem crlfToLf_records {rows : List (List Str)} (h : ∀ fields ∈ rows, fields ≠ []) :
    crlfToLf (rows.flatMap (writeRecord [])) =
      (rows.map (·.map crlfToLf)).flatMap (Reader.recordWith (lit "\n")) := by
  rw [flatMap_writeRecord]
  induction rows with
  | nil => rfl
  | cons fields rows ih =>
      obtain ⟨hf, hrows⟩ := List.forall_mem_cons.mp h
      rw [List.flatMap_cons, crlfToLf_recordWith hf, ih hrows, List.map_cons, List.flatMap_cons]

/-- Written records taken apart into lines and joined again are read with line
feeds for their line breaks. -/
theorem parseRecords_join_lines {rows : List (List Str)} (hne : rows ≠ [])
    (h : ∀ fields ∈ rows, 2 ≤ fields.length) :
    parseRecords (join "\n" (lines (rows.flatMap (writeRecord [])))) =
      rows.map (·.map crlfToLf) := by
  have hfields : ∀ fields ∈ rows, fields ≠ [] := by
    rintro fields hf rfl
    exact absurd (h [] hf) (by decide)
  have hlast : (rows.flatMap (writeRecord [])).getLast? = some '\n' := by
    obtain ⟨init, last, rfl⟩ := (List.eq_nil_or_concat' rows).resolve_left hne
    rw [List.flatMap_append, List.flatMap_singleton, writeRecord, ← List.append_assoc,
      List.getLast?_append_of_ne_nil _ (by simp [lit])]
    rfl
  have hlines : lines (rows.flatMap (writeRecord [])) ≠ [] := by
    obtain ⟨a, t, htext, ha⟩ := List.eq_append_cons_of_mem (List.mem_of_getLast? hlast)
    rw [htext, lines_append ha]
    exact List.cons_ne_nil _ _
  have hjoin : join "\n" (lines (rows.flatMap (writeRecord []))) ++ ['\n'] =
      (rows.map (·.map crlfToLf)).flatMap (Reader.recordWith (lit "\n")) := by
    rw [← crlfToLf_records hfields, ← flatMap_lines (Or.inr hlast)]
    exact join_append (lit "\n") hlines
  have hread : ∀ fields ∈ rows.map (·.map crlfToLf), 2 ≤ fields.length := by
    simpa using h
  rw [← parseRecords_append_lineBreak, hjoin, parseRecords_flatMap_recordWith (Or.inr rfl) hread]
  rw [hjoin, Reader.read_records (Or.inr rfl) rfl rfl rfl rfl hread]
  rfl

/-! ## The header line -/

theorem infix_join {sep p : Str} {parts : List Str} (h : p ∈ parts) : p <:+: join sep parts := by
  induction parts with
  | nil => cases h
  | cons q parts ih =>
      cases parts with
      | nil =>
          obtain rfl := List.mem_singleton.mp h
          simp [join]
      | cons q' parts =>
          rw [join_cons_cons]
          rcases List.mem_cons.mp h with rfl | h
          · exact (List.prefix_append _ _).isInfix
          · exact (ih h).trans (((List.suffix_append _ _).trans (List.suffix_append _ _)).isInfix)

theorem not_mem_quoteField {f : Str} (h : '\n' ∉ f) : '\n' ∉ quoteField f := by
  have hdouble : '\n' ∉ doubleQuotes f := by
    intro hmem
    obtain ⟨c, hc, hmem⟩ := List.mem_flatMap.mp hmem
    split at hmem
    · simp at hmem
    · exact h (List.mem_singleton.mp hmem ▸ hc)
  rw [quoteField]
  split
  · simp [hdouble]
  · exact h

theorem namesMetric_mono {s t : Str} (h : s <:+: t) (hs : NamesMetric s) : NamesMetric t := by
  simp only [NamesMetric, contains, Bool.and_eq_true, decide_eq_true_eq] at hs ⊢
  exact ⟨hs.1.trans h, hs.2.trans h⟩

theorem stripCr_isInfix (l : Str) : stripCr l <:+: l := by
  rw [stripCr]
  split
  · exact (List.dropLast_prefix l).isInfix
  · exact List.infix_rfl

namespace MetricTable

variable {n : ℕ} (t : MetricTable n)

theorem lines_text : ∃ rest, lines t.text = join "," (t.header.map quoteField) :: rest := by
  have hline : '\n' ∉ join "," (t.header.map quoteField) ++ ['\r'] := by
    intro hmem
    rcases List.mem_append.mp hmem with hmem | hmem
    · rcases mem_join hmem with hsep | ⟨q, hq, hmem⟩
      · exact absurd hsep (by decide)
      · obtain ⟨name, hname, rfl⟩ := List.mem_map.mp hq
        exact not_mem_quoteField (t.singleLine name hname) hmem
    · simp at hmem
  have hsplit : t.text = join "," (t.header.map quoteField) ++ ['\r'] ++
      '\n' :: (List.ofFn t.row).flatMap (writeRecord []) := by
    rw [text, List.flatMap_cons, writeRecord]
    simp [lit]
  have hcr : stripCr (join "," (t.header.map quoteField) ++ ['\r']) =
      join "," (t.header.map quoteField) := by
    rw [stripCr, List.getLast?_concat, if_pos rfl, List.dropLast_concat]
  exact ⟨_, by rw [hsplit, lines_append hline, hcr]⟩

theorem namesMetric_header : NamesMetric (join "," (t.header.map quoteField)) := by
  have hname : quoteField (lit "Metric Name") = lit "Metric Name" := by decide
  have hvalue : quoteField (lit "Metric Value") = lit "Metric Value" := by decide
  simp only [NamesMetric, contains, Bool.and_eq_true, decide_eq_true_eq]
  constructor
  · exact hname ▸ infix_join (List.mem_map_of_mem t.metricName)
  · exact hvalue ▸ infix_join (List.mem_map_of_mem t.valueName)

/-- Behind a preamble the first line that names the metrics is the header. -/
theorem drop_preamble {preamble : List Str} (h : IsPreamble preamble) :
    ∃ i, (lines (preambleText preamble ++ t.text)).findIdx? NamesMetric = some i ∧
      (lines (preambleText preamble ++ t.text)).drop i = lines t.text := by
  have hlines : lines (preambleText preamble ++ t.text) = preamble.map stripCr ++ lines t.text :=
    lines_flatMap_append (fun line hline ↦ (h line hline).1) t.text
  have hnone : (preamble.map stripCr).findIdx? NamesMetric = none := by
    apply List.findIdx?_eq_none_iff.mpr
    intro line hline
    obtain ⟨l, hl, rfl⟩ := List.mem_map.mp hline
    by_contra hnames
    rw [Bool.not_eq_false] at hnames
    exact absurd ((namesMetric_mono (stripCr_isInfix l) hnames).symm.trans (h l hl).2) (by decide)
  obtain ⟨rest, hrest⟩ := t.lines_text
  refine ⟨preamble.length, ?_, ?_⟩
  · rw [hlines, List.findIdx?_append, hnone, hrest, List.findIdx?_cons, t.namesMetric_header]
    simp
  · rw [hlines, List.drop_left' (by simp)]

/-! ## The columns by name -/

/-- The row as it is read. -/
def readRow (i : Fin n) : List Str := (t.row i).map crlfToLf

theorem length_readRow (i : Fin n) : (t.readRow i).length = t.columns.length := by
  rw [readRow, row, List.length_map, List.length_map]

theorem map_header : t.header.map crlfToLf = t.header :=
  (List.map_congr_left fun name hname ↦ crlfToLf_of_not_mem (t.singleLine name hname)).trans
    (List.map_id _)

/-- The reader finds the cells of a column at the place of its name. -/
theorem getElem?_readRow (name : Str) (i : Fin n) :
    ((t.header.findIdx? (· = name)).bind ((t.readRow i)[·]?)) =
      (t.columns.lookup name).map fun f ↦ crlfToLf (f i) := by
  rw [header, Assoc.keys, readRow, row, List.map_map]
  induction t.columns with
  | nil => rfl
  | cons c columns ih =>
      rw [List.map_cons, List.findIdx?_cons, List.lookup_cons]
      by_cases hname : c.1 = name
      · simp [hname]
      · have hne : (name == c.1) = false := by simpa using Ne.symm hname
        rw [if_neg (by simpa using hname), hne, ← ih]
        cases (columns.map Prod.fst).findIdx? (· = name) with
        | none => rfl
        | some j => rfl

theorem getD_readRow (name : Str) (i : Fin n) :
    ((t.header.findIdx? (· = name)).bind ((t.readRow i)[·]?)).getD [] = t.cell name i := by
  rw [t.getElem?_readRow, cell]
  cases t.columns.lookup name with
  | none => rfl
  | some f => rfl

theorem exists_col {name : Str} (h : name ∈ t.header) :
    ∃ j, t.header.findIdx? (· = name) = some j ∧ j < t.columns.length ∧
      ∀ i, Table.cell (t.readRow i) j = .ok (t.cell name i) := by
  have hsome : (t.header.findIdx? (· = name)).isSome := by simpa using h
  obtain ⟨j, hj⟩ := Option.isSome_iff_exists.mp hsome
  have hlt : j < t.columns.length := by
    have hlt := (List.findIdx?_eq_some_iff_getElem.mp hj).1
    rwa [header, Assoc.keys, List.length_map] at hlt
  refine ⟨j, hj, hlt, fun i ↦ ?_⟩
  have hcell := t.getD_readRow name i
  rw [hj, Option.bind_some, List.getElem?_eq_getElem ((t.length_readRow i).symm ▸ hlt)] at hcell
  rw [Table.cell, List.getElem?_eq_getElem ((t.length_readRow i).symm ▸ hlt), ← hcell]
  rfl

theorem metricRows_header : metricRows t.header (List.ofFn t.readRow) = .ok (List.ofFn t.metrics) := by
  obtain ⟨kernel, hkernel, hk, hkcell⟩ := t.exists_col t.kernelName
  obtain ⟨metric, hmetric, hm, hmcell⟩ := t.exists_col t.metricName
  obtain ⟨value, hvalue, hv, hvcell⟩ := t.exists_col t.valueName
  have hfull : (List.ofFn t.readRow).filter (fun r ↦ max (max value metric) kernel < r.length) =
      List.ofFn t.readRow := by
    apply List.filter_eq_self.mpr
    intro r hr
    obtain ⟨i, rfl⟩ := List.mem_ofFn.mp hr
    rw [t.length_readRow, decide_eq_true_eq]
    omega
  have hrow : ∀ i, metricRow kernel metric value (t.header.findIdx? (· = lit "Metric Unit"))
      (t.header.findIdx? (· = lit "ID")) (t.readRow i) = .ok (t.metrics i) := by
    intro i
    rw [metricRow, hkcell, hmcell, hvcell, t.getD_readRow, t.getD_readRow]
    rfl
  simp only [metricRows, hkernel, hmetric, hvalue, Exec.ofOption_some]
  change ((List.ofFn t.readRow).filter _).mapM _ = _
  rw [hfull, Exec.mapM_eq_ok, List.ofFn_eq_map, List.ofFn_eq_map, List.forall₂_map_left_iff,
    List.forall₂_map_right_iff]
  exact List.forall₂_same.mpr fun i _ ↦ hrow i

theorem lookup_named {name : Str} (h : name ∈
    ["ID", "Kernel Name", "Metric Name", "Metric Unit", "Metric Value"].map lit) :
    t.named.lookup name = t.columns.lookup name :=
  Assoc.lookup_filter (fun _ ↦ decide_eq_true h) t.columns

/-- Tables whose named columns are the same read as the same rows. -/
theorem metrics_congr {t t' : MetricTable n} (h : t'.named.Perm t.named) :
    t'.metrics = t.metrics := by
  have hkeys : (Assoc.keys t'.named).Nodup :=
    t'.distinct.sublist (List.filter_sublist.map Prod.fst)
  have hcell : ∀ name ∈ ["ID", "Kernel Name", "Metric Name", "Metric Unit", "Metric Value"].map lit,
      t'.cell name = t.cell name := by
    intro name hname
    funext i
    rw [cell, cell, ← t.lookup_named hname, ← t'.lookup_named hname, Assoc.lookup_perm h hkeys]
  funext i
  simp only [metrics]
  rw [hcell _ (by decide), hcell _ (by decide), hcell _ (by decide), hcell _ (by decide),
    hcell _ (by decide)]

theorem two_le_length : 2 ≤ t.columns.length := by
  have hne : lit "Kernel Name" ≠ lit "Metric Name" := by decide
  by_contra hlt
  obtain ⟨c, hc, hkernel⟩ := Assoc.mem_keys.mp t.kernelName
  obtain ⟨c', hc', hmetric⟩ := Assoc.mem_keys.mp t.metricName
  have hsame : c = c' := by
    have hone := List.length_eq_one_iff.mp
      (le_antisymm (by omega) (List.length_pos_of_mem hc) : t.columns.length = 1)
    obtain ⟨d, hd⟩ := hone
    rw [hd, List.mem_singleton] at hc hc'
    exact hc.trans hc'.symm
  exact hne (hkernel.symm.trans ((congrArg Prod.fst hsame).trans hmetric))

theorem parseRecords_text :
    parseRecords (join "\n" (lines t.text)) = t.header :: List.ofFn t.readRow := by
  have hwidth : ∀ fields ∈ t.header :: List.ofFn t.row, 2 ≤ fields.length := by
    intro fields hfields
    rcases List.mem_cons.mp hfields with rfl | hfields
    · exact t.two_le_length.trans_eq (List.length_map _).symm
    · obtain ⟨i, rfl⟩ := List.mem_ofFn.mp hfields
      exact t.two_le_length.trans_eq (List.length_map _).symm
  rw [text, parseRecords_join_lines (List.cons_ne_nil _ _) hwidth, List.map_cons, t.map_header,
    List.map_ofFn]
  rfl

theorem parseNcuCsv_text {preamble : List Str} (h : IsPreamble preamble) :
    parseNcuCsv (preambleText preamble ++ t.text) = .ok (List.ofFn t.metrics) := by
  obtain ⟨i, hfind, hdrop⟩ := t.drop_preamble h
  rw [parseNcuCsv]
  refine Exec.bind_eq_ok.mpr ⟨i, Exec.ofOption_eq_ok.mpr hfind, ?_⟩
  simp only [hdrop, t.parseRecords_text]
  exact t.metricRows_header

end MetricTable

/-- The columns of an export are found by name: its rows are the rows of the
table, whatever the order of the columns, the further columns and the preamble. -/
theorem parseNcuCsv_byName {n : ℕ} (t : MetricTable n) {preamble : List Str}
    (hpreamble : IsPreamble preamble) :
    parseNcuCsv (preambleText preamble ++ t.text) = .ok (List.ofFn t.metrics) ∧
      ∀ (t' : MetricTable n) (preamble' : List Str), t'.named.Perm t.named → IsPreamble preamble' →
        parseNcuCsv (preambleText preamble' ++ t'.text) = .ok (List.ofFn t.metrics) := by
  refine ⟨t.parseNcuCsv_text hpreamble, fun t' preamble' hnamed hpreamble' ↦ ?_⟩
  rw [t'.parseNcuCsv_text hpreamble', MetricTable.metrics_congr hnamed]

theorem parseNcuCsv_byName_quoted :
    parseNcuCsv (lit "==PROF==\nMetric Value,Kernel Name,Metric Name\r\n7,\"k,1\",m\r\n") =
      .ok [⟨[], lit "k,1", lit "m", [], lit "7"⟩] := by
  have h := @parseNcuCsv_byName 1
    ⟨[(lit "Metric Value", fun _ ↦ lit "7"), (lit "Kernel Name", fun _ ↦ lit "k,1"),
      (lit "Metric Name", fun _ ↦ lit "m")], by decide, by decide, by decide, by decide, by decide⟩
    [lit "==PROF=="] (List.forall_mem_singleton.mpr (by decide))
  exact h.1

end CalxMill.Nvidia
