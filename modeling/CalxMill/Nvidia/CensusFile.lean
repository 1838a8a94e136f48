import CalxMill.Nvidia.CsvRoundTrip
import CalxMill.Nvidia.Projection
import CalxMill.Nvidia.SassReaders
import Mathlib.Algebra.Order.BigOperators.Group.List

/-!
# The census file

The census is written kernel by kernel, the kernels by name and the ops by
count, and read back into one counter over the kernels that match.  Nothing is
quoted, and nothing in it needs a quote unless a function name does.
-/

namespace CalxMill.Nvidia

open Lib Rust

/-! ## Writing -/

/-- The share of a count in percent, as printed. -/
def sharePct (n total : ℕ) : Str := F64.fixed 2 ((.fin 100 * ofU64 n) / ofU64 total)

def censusRow (kernel : Str) (total : ℕ) (e : Str × ℕ) : Str :=
  kernel ++ "," ++ e.1 ++ "," ++ natStr e.2 ++ "," ++ sharePct e.2 total ++ "\n"

/-- The counts in descending order, equal ones in the order of their insertion. -/
def Census.mostCommon (census : Census) : List (Str × ℕ) :=
  census.items.insertionSort fun a b ↦ b.2 ≤ a.2

def kernelRows (k : Str × Census) : Exec Str Str := do
  let total ← k.2.items.foldlM (fun total e ↦ addU64 total e.2) 0
  pure (k.2.mostCommon.flatMap (censusRow k.1 total))

def censusCsv (counts : List (Str × Census)) : Exec Str Str :=
  (counts.insertionSort fun a b ↦ a.1 ≤ b.1).foldlM (fun out k ↦ (out ++ ·) <$> kernelRows k)
    "kernel,op,count,share_pct\n"

/-! ## Reading -/

/-- `Census::add` with the sum of the counts checked. -/
def Census.addChecked (census : Census) (op : Str) (n : ℕ) : Exec Str Census := do
  let _ ← addU64 (census.count op) n
  pure (census.add op n)

def readRow (kernel : Pattern) (k op count : ℕ) (census : Census) (row : List Str) :
    Exec Str Census := do
  let name ← Table.cell row k
  if kernel.isMatch name then do
    let op ← Table.cell row op
    let text ← Table.cell row count
    let n ← Exec.expect "count is an integer" (parseU64 text)
    census.addChecked op n
  else pure census

def fromCensusCsv (text : Str) (kernel : Pattern) : Exec Str Census := do
  let t := Table.parse text
  let k ← t.col "kernel"
  let op ← t.col "op"
  let count ← t.col "count"
  t.rows.foldlM (readRow kernel k op count) .empty

/-! ## Unquoted text -/

theorem Reader.read_filter {r : Reader} (hq : r.inQuotes = false) {text : Str} (h : '"' ∉ text) :
    r.read (text.filter (· ≠ '\r')) = r.read text := by
  induction text generalizing r with
  | nil => rfl
  | cons c text ih =>
      rw [List.mem_cons, not_or] at h
      have hplain : (r.plain c).inQuotes = false := by
        have hc : c ≠ '"' := Ne.symm h.1
        simp only [Reader.plain, Reader.endRecord, Reader.push, hc, if_false]
        split
        · exact hq
        · split
          · exact hq
          · split
            · split <;> exact hq
            · exact hq
      by_cases hcr : c = '\r'
      · subst hcr
        rw [List.filter_cons_of_neg (by simp), read_cons hq, ih hq h.2]
        rfl
      · rw [List.filter_cons_of_pos (by simp [hcr]), read_cons hq, read_cons hq, ih hplain h.2]

/-- A text without quotes is read as without its carriage returns. -/
theorem parseRecords_filter {text : Str} (h : '"' ∉ text) :
    parseRecords (text.filter (· ≠ '\r')) = parseRecords text := by
  rw [parseRecords, Reader.read_filter rfl h, ← parseRecords]

/-- A record with no quotes and a bare line feed. -/
def plainLine (fields : List Str) : Str := join "," fields ++ "\n"

theorem needsQuotes_eq_false {f : Str} :
    needsQuotes f = false ↔ ',' ∉ f ∧ '"' ∉ f ∧ '\r' ∉ f ∧ '\n' ∉ f := by
  simp only [needsQuotes, List.any_eq_false, decide_eq_true_eq, List.mem_cons, List.not_mem_nil,
    or_false, not_or]
  constructor
  · intro h
    exact ⟨fun hc ↦ (h _ hc).1 rfl, fun hc ↦ (h _ hc).2.1 rfl, fun hc ↦ (h _ hc).2.2.1 rfl,
      fun hc ↦ (h _ hc).2.2.2 rfl⟩
  · rintro ⟨hcomma, hquote, hcr, hlf⟩ c hc
    exact ⟨fun h ↦ hcomma (h ▸ hc), fun h ↦ hquote (h ▸ hc), fun h ↦ hcr (h ▸ hc),
      fun h ↦ hlf (h ▸ hc)⟩

section Plain

variable {fields : List Str} (h : ∀ f ∈ fields, needsQuotes f = false)

include h

theorem writeRecord_plain : writeRecord [] fields = join "," fields ++ "\r\n" := by
  have hfields : fields.map quoteField = fields := by
    apply (List.map_congr_left fun f hf ↦ ?_).trans (List.map_id fields)
    rw [quoteField, h f hf]
    rfl
  rw [writeRecord, hfields, List.nil_append]

theorem quote_not_mem_writeRecord : '"' ∉ writeRecord [] fields := by
  rw [writeRecord_plain h]
  intro hmem
  rcases List.mem_append.mp hmem with hmem | hmem
  · rcases mem_join hmem with hmem | ⟨f, hf, hmem⟩
    · exact absurd hmem (by decide)
    · exact (needsQuotes_eq_false.mp (h f hf)).2.1 hmem
  · exact absurd hmem (by decide)

theorem filter_writeRecord : (writeRecord [] fields).filter (· ≠ '\r') = plainLine fields := by
  have hjoin : (join "," fields).filter (· ≠ '\r') = join "," fields := by
    rw [List.filter_eq_self]
    intro c hc
    apply decide_eq_true
    rintro rfl
    rcases mem_join hc with hc | ⟨f, hf, hc⟩
    · exact absurd hc (by decide)
    · exact (needsQuotes_eq_false.mp (h f hf)).2.2.1 hc
  rw [writeRecord_plain h, List.filter_append, hjoin]
  rfl

end Plain

/-- Unquoted rows behind line feeds are read back. -/
theorem parse_plainLines {header : List Str} {rows : List (List Str)}
    (hheader : 2 ≤ header.length) (hrows : ∀ row ∈ rows, row.length = header.length)
    (hplain : ∀ row ∈ header :: rows, ∀ f ∈ row, needsQuotes f = false) :
    Table.parse ((header :: rows).flatMap plainLine) = ⟨header, rows⟩ := by
  have hfilter : (header :: rows).flatMap plainLine =
      ((header :: rows).flatMap (writeRecord [])).filter (· ≠ '\r') := by
    rw [List.filter_flatMap]
    apply List.flatMap_congr
    exact fun row hrow ↦ (filter_writeRecord (hplain row hrow)).symm
  have hquote : '"' ∉ (header :: rows).flatMap (writeRecord []) := by
    intro hmem
    obtain ⟨row, hrow, hmem⟩ := List.mem_flatMap.mp hmem
    exact quote_not_mem_writeRecord (hplain row hrow) hmem
  have hwritten := Table.parse_foldl_writeRecord hheader hrows
  rw [foldl_writeRecord, List.nil_append] at hwritten
  rw [hfilter, Table.parse, parseRecords_filter hquote, ← Table.parse, hwritten]

/-! ## Fields without quotes -/

theorem needsQuotes_of_le {f : Str} (h : ∀ c ∈ f, 45 ≤ c.toNat) : needsQuotes f = false := by
  apply needsQuotes_eq_false.mpr
  refine ⟨fun hc ↦ ?_, fun hc ↦ ?_, fun hc ↦ ?_, fun hc ↦ ?_⟩
  · exact absurd (h _ hc) (by decide)
  · exact absurd (h _ hc) (by decide)
  · exact absurd (h _ hc) (by decide)
  · exact absurd (h _ hc) (by decide)

theorem le_of_isDigit {c : Char} (h : c.isDigit = true) : 45 ≤ c.toNat := by
  have hmnemonic : isMnemonicChar c = true := by simp [isMnemonicChar, h]
  have hbounds := isMnemonicChar_bounds hmnemonic
  omega

theorem le_of_mem_withPoint {k n : ℕ} {c : Char} (h : c ∈ F64.withPoint k n) : 45 ≤ c.toNat := by
  have hpad : ∀ d ∈ List.replicate (k + 1 - (natStr n).length) '0' ++ natStr n,
      45 ≤ d.toNat := by
    intro d hd
    rcases List.mem_append.mp hd with hd | hd
    · rw [List.eq_of_mem_replicate hd]
      decide
    · exact le_of_isDigit (isDigit_of_mem_natStr hd)
  rw [F64.withPoint] at h
  split at h
  · exact hpad c (List.mem_of_mem_take h)
  · rcases List.mem_append.mp h with h | h
    · exact hpad c (List.mem_of_mem_take h)
    · rcases List.mem_cons.mp h with rfl | h
      · decide
      · exact hpad c (List.mem_of_mem_drop h)

theorem le_of_mem_sign {q : ℚ} {c : Char} (h : c ∈ lit (if q < 0 then "-" else "")) :
    45 ≤ c.toNat := by
  split at h
  · obtain rfl := List.mem_singleton.mp h
    decide
  · cases h

theorem le_of_mem_display {x : F64} {c : Char} (h : c ∈ x.display) : 45 ≤ c.toNat := by
  have hsigned : (lit "-inf").all (fun d ↦ decide (45 ≤ d.toNat)) = true := by decide
  have hnan : (lit "NaN").all (fun d ↦ decide (45 ≤ d.toNat)) = true := by decide
  cases x with
  | nan => exact of_decide_eq_true (List.all_eq_true.mp hnan c h)
  | inf neg =>
      cases neg with
      | true => exact of_decide_eq_true (List.all_eq_true.mp hsigned c h)
      | false => exact of_decide_eq_true (List.all_eq_true.mp hsigned c (List.mem_cons_of_mem _ h))
  | fin q =>
      rcases List.mem_append.mp h with h | h
      · exact le_of_mem_sign h
      · exact le_of_mem_withPoint h

theorem le_of_mem_fixed {k : ℕ} {x : F64} {c : Char} (h : c ∈ F64.fixed k x) : 45 ≤ c.toNat := by
  cases x with
  | nan => exact le_of_mem_display (x := .nan) h
  | inf neg => exact le_of_mem_display (x := .inf neg) h
  | fin q =>
      rcases List.mem_append.mp h with h | h
      · exact le_of_mem_sign h
      · exact le_of_mem_withPoint h

/-- An op of the census is cut from a mnemonic. -/
theorem isMnemonicChar_of_mem_opOf {full : Bool} {line : Str} {x : Scan} (h : scan line = some x)
    {c : Char} (hc : c ∈ opOf full x) : isMnemonicChar c = true := by
  obtain ⟨-, s, -, hs, -⟩ := scan_eq_some_iff.mp h
  obtain ⟨hex, gap, predicate, mnemonic, after, -, -, hp, hm, -, -, rfl⟩ :=
    scanHere_eq_some_iff.mp hs
  rw [opOf_eq hp hm] at hc
  split at hc
  · exact hm.all c hc
  · rw [baseOf_eq] at hc
    exact hm.all c (List.takeWhile_subset _ hc)

/-- A function name is one word of its header. -/
theorem functionName_mem_word {line name : Str} (h : functionName line = some name) :
    ∃ rest, name ∈ splitWhitespace rest := by
  obtain ⟨rest, -, hhead⟩ := Option.bind_eq_some_iff.mp h
  exact ⟨rest, List.mem_of_head? hhead⟩

theorem needsQuotes_functionName {line name : Str} (h : functionName line = some name)
    (hcomma : ',' ∉ name) (hquote : '"' ∉ name) : needsQuotes name = false := by
  obtain ⟨rest, hword⟩ := functionName_mem_word h
  refine needsQuotes_eq_false.mpr ⟨hcomma, hquote, fun hc ↦ ?_, fun hc ↦ ?_⟩
  · exact absurd (not_isWhitespace_of_mem_word hword hc) (by decide)
  · exact absurd (not_isWhitespace_of_mem_word hword hc) (by decide)

/-! ## The rows of the file -/

/-- A row of the file, with the total that its share is of. -/
structure CensusEntry where
  kernel : Str
  total : ℕ
  op : Str
  count : ℕ

namespace CensusEntry

def fields (e : CensusEntry) : List Str := [e.kernel, e.op, natStr e.count, sharePct e.count e.total]

theorem plainLine_fields (kernel : Str) (total : ℕ) (e : Str × ℕ) :
    plainLine (⟨kernel, total, e.1, e.2⟩ : CensusEntry).fields = censusRow kernel total e := by
  have hone (s : Str) : join "," [s] = s := by simp [join]
  rw [plainLine, fields, join_cons_cons, join_cons_cons, join_cons_cons, hone, censusRow]
  simp only [List.append_assoc]

end CensusEntry

def Census.total (c : Census) : ℕ := (c.items.map (·.2)).sum

def kernelEntries (k : Str × Census) : List CensusEntry :=
  k.2.mostCommon.map fun e ↦ ⟨k.1, k.2.total, e.1, e.2⟩

def censusEntries (counts : List (Str × Census)) : List CensusEntry :=
  (counts.insertionSort fun a b ↦ a.1 ≤ b.1).flatMap kernelEntries

def censusHeader : List Str := ["kernel", "op", "count", "share_pct"]

theorem foldlM_addU64 {es : List (Str × ℕ)} :
    ∀ {n : ℕ}, n + (es.map (·.2)).sum < 2 ^ 64 →
      es.foldlM (fun total e ↦ addU64 total e.2) n = .ok (n + (es.map (·.2)).sum) := by
  induction es with
  | nil => exact fun _ ↦ rfl
  | cons e es ih =>
      intro n h
      rw [List.map_cons, List.sum_cons] at h ⊢
      have hadd : addU64 n e.2 = .ok (n + e.2) := checked_eq_ok.mpr ⟨by omega, rfl⟩
      have hrest := ih (n := n + e.2) (by omega)
      rw [List.foldlM_cons, hadd]
      exact hrest.trans (congrArg Except.ok (Nat.add_assoc _ _ _))

theorem kernelRows_eq_ok {k : Str × Census} (h : k.2.total < 2 ^ 64) :
    kernelRows k = .ok ((kernelEntries k).flatMap fun e ↦ plainLine e.fields) := by
  have hsum := foldlM_addU64 (n := 0) (by rwa [Nat.zero_add])
  rw [kernelRows, hsum, Nat.zero_add, ← Census.total, kernelEntries, List.flatMap_map]
  apply congrArg Except.ok
  apply List.flatMap_congr
  exact fun e _ ↦ (CensusEntry.plainLine_fields k.1 k.2.total e).symm

theorem censusCsv_eq_ok {counts : List (Str × Census)} (h : ∀ k ∈ counts, k.2.total < 2 ^ 64) :
    censusCsv counts =
      .ok ((censusHeader :: (censusEntries counts).map (·.fields)).flatMap plainLine) := by
  have hrows : ∀ (ks : List (Str × Census)) (out : Str), (∀ k ∈ ks, k.2.total < 2 ^ 64) →
      ks.foldlM (fun out k ↦ (out ++ ·) <$> kernelRows k) out =
        .ok (out ++ (ks.flatMap kernelEntries).flatMap fun e ↦ plainLine e.fields) := by
    intro ks
    induction ks with
    | nil =>
        intro out _
        rw [List.flatMap_nil, List.flatMap_nil, List.append_nil]
        rfl
    | cons k ks ih =>
        intro out hks
        rw [List.foldlM_cons, kernelRows_eq_ok (hks k List.mem_cons_self), List.flatMap_cons,
          List.flatMap_append, ← List.append_assoc]
        exact ih _ fun k' hk' ↦ hks k' (List.mem_cons_of_mem k hk')
  have hheader : plainLine censusHeader = lit "kernel,op,count,share_pct\n" := by decide
  rw [censusCsv, hrows _ _ fun k hk ↦ h k ((List.mem_insertionSort _).mp hk), List.flatMap_cons,
    hheader, List.flatMap_map]
  rfl

/-! ## The rows read back -/

/-- A census with the counts of a list added. -/
def addEntries (c : Census) (es : List (Str × ℕ)) : Census :=
  es.foldl (fun c e ↦ c.add e.1 e.2) c

theorem addEntries_items (c : Census) (es : List (Str × ℕ)) : (addEntries c es).items =
    es.foldl (fun l e ↦ Assoc.alter (fun n ↦ n.getD 0 + e.2) e.1 l) c.items := by
  induction es generalizing c with
  | nil => rfl
  | cons e es ih => exact ih (c.add e.1 e.2)

theorem mem_keys_addEntries {c : Census} {es : List (Str × ℕ)} {op : Str} :
    op ∈ Assoc.keys (addEntries c es).items ↔ op ∈ Assoc.keys c.items ∨ op ∈ Assoc.keys es := by
  rw [addEntries_items]
  exact Assoc.mem_keys_foldl_alter (fun e n ↦ n.getD 0 + e.2) Prod.fst es

section Distinct

variable {c : Census} (h : (Assoc.keys c.items).Nodup)

include h

theorem nodup_keys_addEntries (es : List (Str × ℕ)) :
    (Assoc.keys (addEntries c es).items).Nodup := by
  rw [addEntries_items]
  exact Assoc.nodup_keys_foldl_alter (fun e n ↦ n.getD 0 + e.2) Prod.fst es h

theorem count_addEntries (es : List (Str × ℕ)) (op : Str) :
    (addEntries c es).count op = c.count op + tally es op := by
  have hsum : (addEntries c es).count op = tally (addEntries c es).items op :=
    getD_lookup (nodup_keys_addEntries h es) op
  have hold : c.count op = tally c.items op := getD_lookup h op
  rw [hsum, hold, addEntries_items, (regroups_foldl_alter es c.items).tally_eq, tally_append]

end Distinct

/-- The ops of an instruction stream as entries of one each. -/
theorem addAll_eq_addEntries (c : Census) (ops : List Str) :
    addAll c ops = addEntries c (ops.map fun op ↦ (op, 1)) := by
  rw [addEntries, List.foldl_map, addAll]

theorem total_add (c : Census) (op : Str) (n : ℕ) : (c.add op n).total = c.total + n :=
  sum_alter_add op n c.items

theorem count_le_total (c : Census) (op : Str) : c.count op ≤ c.total := by
  rw [Census.count, Census.total]
  cases hlookup : c.items.lookup op with
  | none => exact Nat.zero_le _
  | some n =>
      obtain ⟨l, l', hitems, -⟩ := List.lookup_eq_some_iff.mp hlookup
      rw [hitems, Option.getD_some, List.map_append, List.sum_append, List.map_cons, List.sum_cons]
      omega

/-- The entries of the kernels that match. -/
def matched (kernel : Pattern) (es : List CensusEntry) : List (Str × ℕ) :=
  (es.filter (kernel.isMatch ·.kernel)).map fun e ↦ (e.op, e.count)

theorem matched_cons (kernel : Pattern) (e : CensusEntry) (es : List CensusEntry) :
    matched kernel (e :: es) =
      if kernel.isMatch e.kernel = true then (e.op, e.count) :: matched kernel es
      else matched kernel es := by
  rw [matched, List.filter_cons]
  split
  · rfl
  · rfl

theorem addChecked_eq_ok {c : Census} {op : Str} {n : ℕ} (h : c.count op + n < 2 ^ 64) :
    c.addChecked op n = .ok (c.add op n) := by
  have hadd : addU64 (c.count op) n = .ok (c.count op + n) := checked_eq_ok.mpr ⟨h, rfl⟩
  rw [Census.addChecked, hadd]
  rfl

theorem readRow_fields (kernel : Pattern) (c : Census) (e : CensusEntry) :
    readRow kernel 0 1 2 c e.fields =
      if kernel.isMatch e.kernel = true then
        Exec.expect (lit "count is an integer") (parseU64 (natStr e.count)) >>= c.addChecked e.op
      else pure c := by
  have hkernel : Table.cell e.fields 0 = .ok e.kernel := rfl
  have hop : Table.cell e.fields 1 = .ok e.op := rfl
  have hcount : Table.cell e.fields 2 = .ok (natStr e.count) := rfl
  simp only [readRow, hkernel, hop, hcount, bind, Except.bind]

theorem foldlM_readRow {kernel : Pattern} {es : List CensusEntry} :
    ∀ {c : Census}, c.total + ((matched kernel es).map (·.2)).sum < 2 ^ 64 →
      (es.map (·.fields)).foldlM (readRow kernel 0 1 2) c =
        .ok (addEntries c (matched kernel es)) := by
  induction es with
  | nil => exact fun _ ↦ rfl
  | cons e es ih =>
      intro c h
      rw [matched_cons] at h ⊢
      rw [List.map_cons, List.foldlM_cons, readRow_fields]
      by_cases hmatch : kernel.isMatch e.kernel = true
      · rw [if_pos hmatch] at h
        rw [List.map_cons, List.sum_cons] at h
        have hle := count_le_total c e.op
        rw [if_pos hmatch, if_pos hmatch, parseU64_natStr (by omega), Exec.expect_some]
        have hadd : c.addChecked e.op e.count = .ok (c.add e.op e.count) :=
          addChecked_eq_ok (by omega)
        have hrest := ih (c := c.add e.op e.count) (by rw [total_add]; omega)
        exact (congrArg (· >>= _) hadd).trans hrest
      · rw [if_neg hmatch] at h
        rw [if_neg hmatch, if_neg hmatch]
        exact ih h

theorem mostCommon_perm (c : Census) : c.mostCommon.Perm c.items := List.perm_insertionSort _ _

theorem matched_kernelEntries (kernel : Pattern) (k : Str × Census) :
    matched kernel (kernelEntries k) =
      if kernel.isMatch k.1 = true then k.2.mostCommon else [] := by
  rw [matched, kernelEntries, List.filter_map, List.map_map]
  by_cases hmatch : kernel.isMatch k.1 = true
  · simp [Function.comp_def, hmatch]
  · simp [Function.comp_def, hmatch]

theorem matched_flatMap (kernel : Pattern) (ks : List (Str × Census)) :
    matched kernel (ks.flatMap kernelEntries) =
      (ks.filter (kernel.isMatch ·.1)).flatMap (·.2.mostCommon) := by
  induction ks with
  | nil => rfl
  | cons k ks ih =>
      have happend : matched kernel (kernelEntries k ++ ks.flatMap kernelEntries) =
          matched kernel (kernelEntries k) ++ matched kernel (ks.flatMap kernelEntries) := by
        rw [matched, List.filter_append, List.map_append, ← matched, ← matched]
      rw [List.flatMap_cons, happend, ih, matched_kernelEntries, List.filter_cons]
      split
      · rw [List.flatMap_cons]
      · rw [List.nil_append]

section Written

variable (kernel : Pattern) (counts : List (Str × Census))

/-- The kernels that match, in the order of the file. -/
theorem filter_insertionSort_perm :
    ((counts.insertionSort fun a b ↦ a.1 ≤ b.1).filter (kernel.isMatch ·.1)).Perm
      (counts.filter (kernel.isMatch ·.1)) :=
  (List.perm_insertionSort _ _).filter _

/-- The counts that are read are no more than those written. -/
theorem sum_matched_le : ((matched kernel (censusEntries counts)).map (·.2)).sum ≤
    (counts.map (·.2.total)).sum := by
  have hkernel : ∀ k : Str × Census, (k.2.mostCommon.map (·.2)).sum = k.2.total :=
    fun k ↦ ((mostCommon_perm k.2).map _).sum_eq
  have hflat (ks : List (Str × Census)) :
      ((ks.flatMap (·.2.mostCommon)).map (·.2)).sum = (ks.map (·.2.total)).sum := by
    induction ks with
    | nil => rfl
    | cons k ks ih =>
        rw [List.flatMap_cons, List.map_append, List.sum_append, ih, hkernel, List.map_cons,
          List.sum_cons]
  rw [censusEntries, matched_flatMap, hflat,
    ((filter_insertionSort_perm kernel counts).map _).sum_eq]
  exact (List.filter_sublist.map _).sum_le_sum fun _ _ ↦ Nat.zero_le _

theorem tally_matched (h : ∀ k ∈ counts, (Assoc.keys k.2.items).Nodup) (op : Str) :
    tally (matched kernel (censusEntries counts)) op =
      ((counts.filter (kernel.isMatch ·.1)).map (·.2.count op)).sum := by
  rw [censusEntries, matched_flatMap, tally_flatMap,
    ((filter_insertionSort_perm kernel counts).map _).sum_eq]
  apply congrArg List.sum
  apply List.map_congr_left
  intro k hk
  rw [(Regroups.of_perm (mostCommon_perm k.2).symm).tally_eq]
  exact (getD_lookup (h k (List.mem_of_mem_filter hk)) op).symm

theorem mem_keys_matched (op : Str) : op ∈ Assoc.keys (matched kernel (censusEntries counts)) ↔
    ∃ k ∈ counts, kernel.isMatch k.1 = true ∧ op ∈ Assoc.keys k.2.items := by
  rw [censusEntries, matched_flatMap, Assoc.keys, List.map_flatMap, List.mem_flatMap]
  constructor
  · rintro ⟨k, hk, hop⟩
    have hmem := (filter_insertionSort_perm kernel counts).mem_iff.mp hk
    obtain ⟨hcounts, hmatch⟩ := List.mem_filter.mp hmem
    exact ⟨k, hcounts, hmatch, ((mostCommon_perm k.2).map _).mem_iff.mp hop⟩
  · rintro ⟨k, hcounts, hmatch, hop⟩
    have hmem : k ∈ counts.filter (kernel.isMatch ·.1) := List.mem_filter.mpr ⟨hcounts, hmatch⟩
    exact ⟨k, (filter_insertionSort_perm kernel counts).mem_iff.mpr hmem,
      ((mostCommon_perm k.2).map _).mem_iff.mpr hop⟩

end Written

/-! ## The file and the census -/

theorem exists_of_mem_censusEntries {counts : List (Str × Census)} {e : CensusEntry}
    (h : e ∈ censusEntries counts) :
    ∃ k ∈ counts, e.kernel = k.1 ∧ e.op ∈ Assoc.keys k.2.items := by
  obtain ⟨k, hk, he⟩ := List.mem_flatMap.mp h
  obtain ⟨entry, hentry, rfl⟩ := List.mem_map.mp he
  have hitem := (mostCommon_perm k.2).mem_iff.mp hentry
  exact ⟨k, (List.mem_insertionSort _).mp hk, rfl, Assoc.mem_keys_of_mem hitem⟩

theorem needsQuotes_fields {e : CensusEntry} (hkernel : needsQuotes e.kernel = false)
    (hop : needsQuotes e.op = false) : ∀ f ∈ e.fields, needsQuotes f = false := by
  intro f hf
  rw [CensusEntry.fields, List.mem_cons, List.mem_cons, List.mem_cons, List.mem_singleton] at hf
  rcases hf with rfl | rfl | rfl | rfl
  · exact hkernel
  · exact hop
  · exact needsQuotes_of_le fun c hc ↦ le_of_isDigit (isDigit_of_mem_natStr hc)
  · exact needsQuotes_of_le fun c hc ↦ le_of_mem_fixed hc

/-- A census whose names need no quotes is written and read back. -/
theorem fromCensusCsv_censusCsv {counts : List (Str × Census)} (kernel : Pattern)
    (hsum : (counts.map (·.2.total)).sum < 2 ^ 64)
    (hkernels : ∀ k ∈ counts, needsQuotes k.1 = false)
    (hops : ∀ k ∈ counts, ∀ op ∈ Assoc.keys k.2.items, needsQuotes op = false) :
    ∃ csv, censusCsv counts = .ok csv ∧
      fromCensusCsv csv kernel = .ok (addEntries .empty (matched kernel (censusEntries counts))) := by
  have htotal : ∀ k ∈ counts, k.2.total < 2 ^ 64 := by
    intro k hk
    apply lt_of_le_of_lt _ hsum
    exact List.single_le_sum (fun _ _ ↦ Nat.zero_le _) _ (List.mem_map_of_mem hk)
  have hheader : censusHeader.all (!needsQuotes ·) = true := by decide
  have hplain : ∀ row ∈ censusHeader :: (censusEntries counts).map (·.fields),
      ∀ f ∈ row, needsQuotes f = false := by
    intro row hrow
    rcases List.mem_cons.mp hrow with rfl | hrow
    · intro f hf
      simpa using List.all_eq_true.mp hheader f hf
    · obtain ⟨e, he, rfl⟩ := List.mem_map.mp hrow
      obtain ⟨k, hk, hkernel, hop⟩ := exists_of_mem_censusEntries he
      exact needsQuotes_fields (hkernel ▸ hkernels k hk) (hops k hk _ hop)
  have hwidth : ∀ row ∈ (censusEntries counts).map (·.fields),
      row.length = censusHeader.length := by
    intro row hrow
    obtain ⟨e, -, rfl⟩ := List.mem_map.mp hrow
    rfl
  have hfit : Census.empty.total + ((matched kernel (censusEntries counts)).map (·.2)).sum <
      2 ^ 64 := by
    have hzero : Census.empty.total = 0 := rfl
    have hle := sum_matched_le kernel counts
    omega
  refine ⟨_, censusCsv_eq_ok htotal, ?_⟩
  rw [fromCensusCsv, parse_plainLines (by decide) hwidth hplain]
  exact foldlM_readRow hfit

/-- What is read back: the ops of the kernels that match, each with the sum of
its counts. -/
structure CensusSurvives (kernel : Pattern) (counts : List (Str × Census)) (census : Census) :
    Prop where
  distinct : (Assoc.keys census.items).Nodup
  ops : ∀ op, op ∈ Assoc.keys census.items ↔
    ∃ k ∈ counts, kernel.isMatch k.1 = true ∧ op ∈ Assoc.keys k.2.items
  count : ∀ op, census.count op = ((counts.filter (kernel.isMatch ·.1)).map (·.2.count op)).sum

theorem censusSurvives (kernel : Pattern) {counts : List (Str × Census)}
    (h : ∀ k ∈ counts, (Assoc.keys k.2.items).Nodup) :
    CensusSurvives kernel counts (addEntries .empty (matched kernel (censusEntries counts))) := by
  have hempty : (Assoc.keys Census.empty.items).Nodup := List.nodup_nil
  refine ⟨nodup_keys_addEntries hempty _, fun op ↦ ?_, fun op ↦ ?_⟩
  · rw [mem_keys_addEntries, mem_keys_matched]
    exact or_iff_right List.not_mem_nil
  · rw [count_addEntries hempty, tally_matched kernel counts h]
    exact Nat.zero_add _

section Text

variable {sass : Str} {p : Pattern} {full : Bool} {k : Str × Census}
  (h : k ∈ (censusState p full (sections sass)).counts)

include h

theorem needsQuotes_kernel (hnames : ∀ f ∈ functions sass, ',' ∉ f.1 ∧ '"' ∉ f.1) :
    needsQuotes k.1 = false := by
  obtain ⟨s, hs, hname⟩ := Assoc.mem_keys.mp (of_mem_counts h).1
  obtain ⟨line, hline⟩ := exists_header hs
  obtain ⟨hcomma, hquote⟩ := hnames _ (mem_functions hs)
  rw [← hname]
  exact needsQuotes_functionName hline hcomma hquote

theorem needsQuotes_op {op : Str} (hop : op ∈ Assoc.keys k.2.items) : needsQuotes op = false := by
  rw [(of_mem_counts h).2, addAll_eq_addEntries, mem_keys_addEntries] at hop
  obtain ⟨_, hmem, rfl⟩ := Assoc.mem_keys.mp (hop.resolve_left List.not_mem_nil)
  obtain ⟨o, ho, rfl⟩ := List.mem_map.mp hmem
  obtain ⟨x, hx, rfl⟩ := List.mem_map.mp ho
  obtain ⟨s, hs, hxs⟩ := List.mem_flatMap.mp hx
  obtain ⟨line, hline⟩ := exists_scan (List.mem_of_mem_filter hs) hxs
  apply needsQuotes_of_le
  intro c hc
  have hbounds := isMnemonicChar_bounds (isMnemonicChar_of_mem_opOf hline hc)
  omega

end Text

/-- The census of a text reaches the projection through its file. -/
theorem census_survives_file (sass : Str) (p q : Pattern) (full : Bool)
    (counts : List (Str × Census)) (hcounts : censusPerKernel sass p full = .ok counts)
    (hnames : ∀ f ∈ functions sass, ',' ∉ f.1 ∧ '"' ∉ f.1)
    (hsum : (counts.map (·.2.total)).sum < 2 ^ 64) :
    (Assoc.keys counts).Nodup ∧
      (∀ name, name ∈ Assoc.keys counts ↔
        p.isMatch name = true ∧ name ∈ Assoc.keys (functions sass)) ∧
      ∃ csv census, censusCsv counts = .ok csv ∧ fromCensusCsv csv q = .ok census ∧
        CensusSurvives q counts census := by
  obtain rfl := counts_of_ok hcounts
  obtain ⟨csv, hcsv, hread⟩ := fromCensusCsv_censusCsv q hsum
    (fun k hk ↦ needsQuotes_kernel hk hnames) fun k hk op hop ↦ needsQuotes_op hk hop
  have hdistinct : ∀ k ∈ (censusState p full (sections sass)).counts,
      (Assoc.keys k.2.items).Nodup := fun k hk ↦ nodup_keys_of_mem_counts hk
  refine ⟨nodup_keys_counts _, fun name ↦ ?_, csv, _, hcsv, hread, censusSurvives q hdistinct⟩
  rw [mem_keys_counts, functions_eq_sections, keys_instrs]

/-- A kernel in two parts and another one. -/
def censusText : Str :=
  "Function : k1\n/*0000*/ FFMA R0;\nFunction : k0\n/*0000*/ MOV R2;\n/*0010*/ FFMA R0;\n" ++
    "Function : k1\n/*0000*/ @P0 FFMA R1;"

def censusCounts : List (Str × Census) :=
  [("k1", ⟨[("FFMA", 2)]⟩), ("k0", ⟨[("MOV", 1), ("FFMA", 1)]⟩)]

theorem census_survives_file_split :
    (Assoc.keys censusCounts).Nodup ∧
      (∀ name, name ∈ Assoc.keys censusCounts ↔ (Pattern.new "k").isMatch name = true ∧
        name ∈ Assoc.keys (functions censusText)) ∧
      ∃ csv census, censusCsv censusCounts = .ok csv ∧
        fromCensusCsv csv (Pattern.new "k1") = .ok census ∧
        CensusSurvives (Pattern.new "k1") censusCounts census := by
  have hparse : parseFunctions censusText = .ok
      [("k1", [⟨0x0, "FFMA", "FFMA R0"⟩]),
        ("k0", [⟨0x0, "MOV", "MOV R2"⟩, ⟨0x10, "FFMA", "FFMA R0"⟩]),
        ("k1", [⟨0x0, "FFMA", "@P0 FFMA R1"⟩])] := by
    decide +kernel
  apply census_survives_file censusText (Pattern.new "k") (Pattern.new "k1") false censusCounts
  · decide +kernel
  · rw [(of_parseFunctions_eq_ok hparse).2]
    intro f hf
    simp only [List.mem_cons, List.not_mem_nil, or_false] at hf
    rcases hf with rfl | rfl | rfl
    · exact ⟨by decide, by decide⟩
    · exact ⟨by decide, by decide⟩
    · exact ⟨by decide, by decide⟩
  · decide

end CalxMill.Nvidia
