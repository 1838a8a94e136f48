import CalxMill.Rust.Text
import CalxMill.Telemetry
import Mathlib.Data.List.GetD

/-!
# Telemetry files

A telemetry file holds one record a line, in columns between tabs.  The reader
counts the rows that it drops.  It trims the tabs at the ends of a line with
the other white space, and it reads a ninth column that is no number as zero,
so some malformed rows are read and not counted.
-/

namespace CalxMill

open Lib Rust

/-! ## The reader -/

/-- The record of the columns; nothing when a column is missing or no number. -/
def teleRow (f : List Str) : Option TeleRecord := do
  let opIndex ← parseU32 (f.getD 0 [])
  let gs ← parseU64 (f.getD 3 [])
  let ge ← parseU64 (f.getD 4 [])
  let cyc ← parseU64 (f.getD 5 [])
  let bytes ← parseU64 (f.getD 6 [])
  let ops ← parseU64 (f.getD 7 [])
  return {
    opIndex := opIndex
    kind := f.getD 1 []
    lane := if f.getD 2 [] = lit "mem" then .memory else .compute
    gtStartNs := .ofNat gs
    gtEndNs := .ofNat ge
    cycles := .ofNat cyc
    bytes := .ofNat bytes
    ops := .ofNat ops
    -- a ninth column that does not parse counts as absent
    opWallNs := .ofNat ((f[8]?.bind parseU64).getD 0) }

/-- A blank line, a header or a comment. -/
def Noise (line : Str) : Bool :=
  let line := trim line
  line = [] || lit "op_index" <+: line || lit "#" <+: line

def teleLine (out : List TeleRecord × ℕ) (line : Str) : List TeleRecord × ℕ :=
  if Noise line then out else
  let f := (trim line).splitOn '\t'
  if f.length < 8 then (out.1, out.2 + 1) else
  match teleRow f with
  | some r => (out.1 ++ [r], out.2)
  | none => (out.1, out.2 + 1)

def parseTeleCounted (text : Str) : List TeleRecord × ℕ := (lines text).foldl teleLine ([], 0)

/-! ## The rows of a file -/

/-- White space that does not separate columns. -/
def isBlank (c : Char) : Bool := isWhitespace c && c ≠ '\t'

/-- The columns of a line, without the blanks at its ends. -/
def columnsOf (line : Str) : List Str :=
  ((line.dropWhile isBlank).rdropWhile isBlank).splitOn '\t'

/-- The eight columns that every row has: numbers in the first and from the fourth on. -/
def RequiredNumbers (cols : List Str) : Bool :=
  (parseU32 (cols.getD 0 [])).isSome && [3, 4, 5, 6, 7].all fun i ↦ (parseU64 (cols.getD i [])).isSome

/-- All numeric columns are numbers, the ninth one when it is present. -/
def NumericColumns (cols : List Str) : Bool :=
  RequiredNumbers cols && cols[8]?.all fun s ↦ (parseU64 s).isSome

def WellFormedRow (line : Str) : Bool :=
  !Noise line && NumericColumns (columnsOf line) && (columnsOf line).length ≤ 9

def MalformedRow (line : Str) : Bool := !Noise line && !NumericColumns (columnsOf line)

/-- The columns spell the record, field for field. -/
structure Spells (cols : List Str) (r : TeleRecord) : Prop where
  opIndex : parseU32 (cols.getD 0 []) = some r.opIndex
  kind : cols.getD 1 [] = r.kind
  lane : r.lane = .memory ↔ cols.getD 2 [] = lit "mem"
  gtStartNs : parseU64 (cols.getD 3 []) = some r.gtStartNs.toNat
  gtEndNs : parseU64 (cols.getD 4 []) = some r.gtEndNs.toNat
  cycles : parseU64 (cols.getD 5 []) = some r.cycles.toNat
  bytes : parseU64 (cols.getD 6 []) = some r.bytes.toNat
  ops : parseU64 (cols.getD 7 []) = some r.ops.toNat
  opWallNs : ∀ s, cols[8]? = some s → parseU64 s = some r.opWallNs.toNat
  noWall : cols[8]? = none → r.opWallNs = 0

/-- The nine columns of a record. -/
def recordColumns (r : TeleRecord) : List Str :=
  [natStr r.opIndex.toNat, r.kind, if r.lane = .memory then lit "mem" else lit "compute",
    natStr r.gtStartNs.toNat, natStr r.gtEndNs.toNat, natStr r.cycles.toNat, natStr r.bytes.toNat,
    natStr r.ops.toNat, natStr r.opWallNs.toNat]

def writeRow (r : TeleRecord) : Str := join "\t" (recordColumns r)

def writeRows (rs : List TeleRecord) : Str := rs.flatMap fun r ↦ writeRow r ++ ['\n']

/-- The records are those of the well-formed rows, in their order, the count is
that of the malformed rows, and the records written out are read back. -/
structure Faithful (text : Str) : Prop where
  records : List.Forall₂ (fun line r ↦ Spells (columnsOf line) r)
    ((lines text).filter (WellFormedRow ·)) (parseTeleCounted text).1
  skipped : (parseTeleCounted text).2 = (lines text).countP (MalformedRow ·)
  rewrite : parseTeleCounted (writeRows (parseTeleCounted text).1) = ((parseTeleCounted text).1, 0)

/-! ## The columns of a trimmed line -/

/-- The text of an unsigned number: digits, with a plus sign in front or not. -/
def Unsigned (s : Str) : Prop :=
  (if s.head? = some '+' then s.tail else s) ≠ [] ∧
    (if s.head? = some '+' then s.tail else s).all Char.isDigit

theorem unsigned_of_parseU64 {s : Str} {n : ℕ} (h : parseU64 s = some n) :
    Unsigned s ∧ n < 2 ^ 64 := by
  rw [Unsigned]
  rw [parseU64] at h
  generalize (if s.head? = some '+' then s.tail else s) = digits at h ⊢
  split at h
  next hdigits =>
    obtain rfl := Option.some.inj h
    exact ⟨⟨hdigits.1, hdigits.2.1⟩, hdigits.2.2⟩
  next => cases h

theorem unsigned_of_parseU32 {s : Str} {n : UInt32} (h : parseU32 s = some n) : Unsigned s := by
  rw [Unsigned]
  rw [parseU32] at h
  generalize (if s.head? = some '+' then s.tail else s) = digits at h ⊢
  split at h
  next hdigits => exact ⟨hdigits.1, hdigits.2.1⟩
  next => cases h

theorem Unsigned.ne_nil {s : Str} (h : Unsigned s) : s ≠ [] := by
  rintro rfl
  exact h.1 rfl

theorem Unsigned.not_isWhitespace {s : Str} (h : Unsigned s) : ∀ c ∈ s, isWhitespace c = false := by
  obtain ⟨-, hall⟩ := h
  intro c hc
  split at hall
  next hplus =>
    obtain ⟨d, t, rfl⟩ := List.exists_cons_of_ne_nil (List.ne_nil_of_mem hc)
    rcases List.mem_cons.mp hc with rfl | hc
    · obtain rfl := Option.some.inj hplus
      decide
    · exact isWhitespace_of_isDigit (List.all_eq_true.mp hall c hc)
  next => exact isWhitespace_of_isDigit (List.all_eq_true.mp hall c hc)

theorem length_of_required {f : List Str} (h : RequiredNumbers f) : 8 ≤ f.length := by
  by_contra hlt
  have hnil : f.getD 7 [] = [] := by
    rw [List.getD_eq_getElem?_getD, List.getElem?_eq_none (by omega)]
    rfl
  have hlast := List.all_eq_true.mp (Bool.and_eq_true_iff.mp h).2 7 (by decide)
  rw [hnil] at hlast
  exact absurd hlast (by decide)

theorem isSome_teleRow (f : List Str) : (teleRow f).isSome = RequiredNumbers f := by
  simp only [teleRow, RequiredNumbers, List.all_cons, List.all_nil, Bool.and_true]
  cases parseU32 (f.getD 0 []) with
  | none => rfl
  | some i =>
      cases parseU64 (f.getD 3 []) <;> cases parseU64 (f.getD 4 []) <;>
        cases parseU64 (f.getD 5 []) <;> cases parseU64 (f.getD 6 []) <;>
          cases parseU64 (f.getD 7 []) <;> rfl

/-- The record that the reader takes from a line. -/
def recordOf (line : Str) : Option TeleRecord :=
  if Noise line then none else teleRow ((trim line).splitOn '\t')

/-- The line is counted as dropped. -/
def dropped (line : Str) : Bool := !Noise line && !RequiredNumbers ((trim line).splitOn '\t')

theorem teleLine_eq (out : List TeleRecord × ℕ) (line : Str) : teleLine out line =
    (out.1 ++ (recordOf line).toList, out.2 + if dropped line then 1 else 0) := by
  rw [teleLine, recordOf, dropped, ← isSome_teleRow]
  cases Noise line with
  | true => simp
  | false =>
      have hshort : ((trim line).splitOn '\t').length < 8 →
          teleRow ((trim line).splitOn '\t') = none := by
        intro hlt
        rw [← Option.not_isSome_iff_eq_none, isSome_teleRow]
        exact fun h ↦ absurd (length_of_required h) (Nat.not_le_of_lt hlt)
      simp only [Bool.false_eq_true, if_false, Bool.not_false, Bool.true_and]
      split
      next hlt =>
        rw [hshort hlt]
        simp
      next =>
        cases teleRow ((trim line).splitOn '\t') with
        | none => simp
        | some r => simp

theorem parseTeleCounted_eq (text : Str) :
    parseTeleCounted text = ((lines text).filterMap recordOf, (lines text).countP dropped) := by
  have hfold : ∀ (ls : List Str) (out : List TeleRecord × ℕ),
      ls.foldl teleLine out = (out.1 ++ ls.filterMap recordOf, out.2 + ls.countP dropped) := by
    intro ls
    induction ls with
    | nil => simp
    | cons l ls ih =>
        intro out
        rw [List.foldl_cons, ih, teleLine_eq, List.countP_cons, List.filterMap_cons]
        cases recordOf l with
        | none => simp [Nat.add_assoc, Nat.add_comm (ls.countP dropped)]
        | some r => simp [Nat.add_assoc, Nat.add_comm (ls.countP dropped)]
  rw [parseTeleCounted, hfold, List.nil_append, Nat.zero_add]

theorem first_unsigned {f : List Str} (h : RequiredNumbers f) : ∃ p ps, f = p :: ps ∧ Unsigned p := by
  have hlen := length_of_required h
  obtain ⟨p, ps, rfl⟩ := List.exists_cons_of_length_pos (by omega : 0 < f.length)
  obtain ⟨n, hn⟩ := Option.isSome_iff_exists.mp (Bool.and_eq_true_iff.mp h).1
  exact ⟨p, ps, rfl, unsigned_of_parseU32 hn⟩

theorem last_unsigned {f : List Str} (h : NumericColumns f) (hwidth : f.length ≤ 9) :
    ∃ ps p, f = ps ++ [p] ∧ Unsigned p := by
  obtain ⟨hrequired, hninth⟩ := Bool.and_eq_true_iff.mp h
  have hlen := length_of_required hrequired
  have hne : f ≠ [] := by
    rintro rfl
    simp at hlen
  obtain ⟨p, hp⟩ := Option.isSome_iff_exists.mp (List.getLast?_isSome.mpr hne)
  obtain ⟨ps, hps⟩ := List.getLast?_eq_some_iff.mp hp
  refine ⟨ps, p, hps, ?_⟩
  rw [List.getLast?_eq_getElem?] at hp
  by_cases hnine : f.length = 9
  · rw [hnine] at hp
    rw [hp, Option.all_some] at hninth
    obtain ⟨n, hn⟩ := Option.isSome_iff_exists.mp hninth
    exact (unsigned_of_parseU64 hn).1
  · have height : f.length = 8 := by omega
    have hget : f.getD 7 [] = p := by
      rw [height] at hp
      rw [List.getD_eq_getElem?_getD, hp]
      rfl
    have hseven := List.all_eq_true.mp (Bool.and_eq_true_iff.mp hrequired).2 7 (by decide)
    rw [hget] at hseven
    obtain ⟨n, hn⟩ := Option.isSome_iff_exists.mp hseven
    exact (unsigned_of_parseU64 hn).1

theorem Unsigned.head? {s : Str} (h : Unsigned s) : ∀ c ∈ s.head?, isWhitespace c = false :=
  fun c hc ↦ h.not_isWhitespace c (List.mem_of_mem_head? hc)

theorem Unsigned.getLast? {s : Str} (h : Unsigned s) : ∀ c ∈ s.getLast?, isWhitespace c = false :=
  fun c hc ↦ h.not_isWhitespace c (List.mem_of_getLast? hc)

/-- Between columns that start and end with numbers no tab is trimmed away. -/
theorem splitOn_trim {line : Str} (h : NumericColumns (columnsOf line))
    (hwidth : (columnsOf line).length ≤ 9) : (trim line).splitOn '\t' = columnsOf line := by
  have hjoin : join "\t" (columnsOf line) = (line.dropWhile isBlank).rdropWhile isBlank :=
    List.intercalate_splitOn '\t'
  have hline : line.takeWhile isBlank ++ (join "\t" (columnsOf line) ++
      (line.dropWhile isBlank).rtakeWhile isBlank) = line := by
    rw [hjoin, List.rdropWhile_append_rtakeWhile, List.takeWhile_append_dropWhile]
  have hblank : ∀ c, isBlank c → isWhitespace c = true := fun c hc ↦ (Bool.and_eq_true_iff.mp hc).1
  obtain ⟨p, ps, hfirst, hp⟩ := first_unsigned (Bool.and_eq_true_iff.mp h).1
  obtain ⟨qs, q, hlast, hq⟩ := last_unsigned h hwidth
  have hleft : (line.takeWhile isBlank).all isWhitespace :=
    List.all_eq_true.mpr fun c hc ↦ hblank c (List.mem_takeWhile_imp hc)
  have hright : ((line.dropWhile isBlank).rtakeWhile isBlank).all isWhitespace :=
    List.all_eq_true.mpr fun c hc ↦ hblank c (List.mem_rtakeWhile_imp hc)
  have hhead : (join "\t" (columnsOf line)).head? = p.head? := by
    rw [hfirst, head?_join hp.ne_nil]
  have hend : (join "\t" (columnsOf line)).getLast? = q.getLast? := by
    rw [hlast, getLast?_join_append hq.ne_nil]
  have hne : join "\t" (columnsOf line) ≠ [] := by
    intro hnil
    rw [hnil] at hhead
    exact hp.ne_nil (List.head?_eq_none_iff.mp hhead.symm)
  have htrim := trim_append_append hleft hright hne (hhead ▸ hp.head?) (hend ▸ hq.getLast?)
  rw [hline] at htrim
  rw [htrim, hjoin, columnsOf]

theorem toNat_ofNat_of_parseU64 {s : Str} {n : ℕ} (h : parseU64 s = some n) :
    parseU64 s = some (UInt64.ofNat n).toNat := by
  rw [UInt64.toNat_ofNat', Nat.mod_eq_of_lt (unsigned_of_parseU64 h).2, h]

theorem spells_of_teleRow {f : List Str} {r : TeleRecord} (h : teleRow f = some r)
    (hninth : f[8]?.all fun s ↦ (parseU64 s).isSome) : Spells f r := by
  simp only [teleRow, Option.bind_eq_bind, Option.bind_eq_some_iff, Option.pure_def,
    Option.some.injEq] at h
  obtain ⟨i, hi, gs, hgs, ge, hge, cyc, hcyc, bytes, hbytes, ops, hops, rfl⟩ := h
  refine ⟨hi, rfl, ?_, toNat_ofNat_of_parseU64 hgs, toNat_ofNat_of_parseU64 hge,
    toNat_ofNat_of_parseU64 hcyc, toNat_ofNat_of_parseU64 hbytes, toNat_ofNat_of_parseU64 hops, ?_, ?_⟩
  · dsimp only
    split
    next hlane => exact iff_of_true rfl hlane
    next hlane => exact iff_of_false (by simp) hlane
  · intro s hs
    rw [hs, Option.all_some] at hninth
    obtain ⟨n, hn⟩ := Option.isSome_iff_exists.mp hninth
    have hwall : (f[8]?.bind parseU64).getD 0 = n := by
      rw [hs, Option.bind_some, hn]
      rfl
    dsimp only
    rw [hwall]
    exact toNat_ofNat_of_parseU64 hn
  · intro hs
    simp [hs]

theorem recordOf_wellFormed {line : Str} (h : WellFormedRow line) :
    ∃ r, recordOf line = some r ∧ Spells (columnsOf line) r := by
  simp only [WellFormedRow, Bool.and_eq_true, Bool.not_eq_true', decide_eq_true_eq] at h
  obtain ⟨⟨hnoise, hnumeric⟩, hwidth⟩ := h
  obtain ⟨hrequired, hninth⟩ := Bool.and_eq_true_iff.mp hnumeric
  rw [← isSome_teleRow] at hrequired
  obtain ⟨r, hr⟩ := Option.isSome_iff_exists.mp hrequired
  refine ⟨r, ?_, spells_of_teleRow hr hninth⟩
  rw [recordOf, hnoise, splitOn_trim hnumeric hwidth, hr]
  rfl

/-! ## Records written out -/

theorem parseU64_toNat (n : UInt64) : parseU64 (natStr n.toNat) = some n.toNat :=
  parseU64_natStr n.toNat_lt

theorem teleRow_recordColumns (r : TeleRecord) : teleRow (recordColumns r) = some r := by
  obtain ⟨opIndex, kind, lane, gs, ge, cyc, bytes, ops, wall⟩ := r
  have hlane : lit "compute" ≠ lit "mem" := by decide
  cases lane with
  | memory => simp [teleRow, recordColumns, parseU32_natStr, parseU64_toNat]
  | compute => simp [teleRow, recordColumns, parseU32_natStr, parseU64_toNat, hlane]

theorem not_mem_recordColumns {r : TeleRecord} {c : Char} (hdigit : c.isDigit = false)
    (hlane : c ∉ lit "mem" ∧ c ∉ lit "compute") (hkind : c ∉ r.kind) :
    ∀ col ∈ recordColumns r, c ∉ col := by
  have hnat : ∀ n, c ∉ natStr n := fun n ↦ not_mem_natStr hdigit
  simp only [recordColumns, List.forall_mem_cons, List.not_mem_nil, false_imp_iff, implies_true,
    and_true]
  refine ⟨hnat _, hkind, ?_, hnat _, hnat _, hnat _, hnat _, hnat _, hnat _⟩
  split
  · exact hlane.1
  · exact hlane.2

theorem getLast?_natStr (n : ℕ) : ∃ c, (natStr n).getLast? = some c ∧ c.isDigit := by
  have hlast := List.getLast?_eq_some_getLast (natStr_ne_nil n)
  exact ⟨_, hlast, isDigit_of_mem_natStr (List.mem_of_getLast? hlast)⟩

/-- A row ends with its last number. -/
theorem getLast?_writeRow (r : TeleRecord) : ∃ c, (writeRow r).getLast? = some c ∧ c.isDigit := by
  obtain ⟨c, hc, hdigit⟩ := getLast?_natStr r.opWallNs.toNat
  refine ⟨c, ?_, hdigit⟩
  rw [← hc]
  exact getLast?_join_append (natStr_ne_nil _) [_, _, _, _, _, _, _, _]

theorem writeRow_eq (r : TeleRecord) : ∃ s, writeRow r = natStr r.opIndex.toNat ++ s :=
  ⟨_, join_cons_cons _ _ _ _⟩

theorem trim_writeRow (r : TeleRecord) : trim (writeRow r) = writeRow r := by
  obtain ⟨s, hs⟩ := writeRow_eq r
  obtain ⟨c, hc, hdigit⟩ := getLast?_writeRow r
  apply trim_eq_self
  · rw [hs]
    exact fun c hc ↦ isWhitespace_of_isDigit (isDigit_of_mem_head?_natStr_append c hc)
  · intro d hd
    obtain rfl := Option.some.inj (hc.symm.trans hd)
    exact isWhitespace_of_isDigit hdigit

theorem noise_writeRow (r : TeleRecord) : Noise (writeRow r) = false := by
  obtain ⟨s, hs⟩ := writeRow_eq r
  have hne : writeRow r ≠ [] := by
    rw [hs]
    exact List.append_ne_nil_of_left_ne_nil (natStr_ne_nil _) _
  have hheader : ¬ lit "op_index" <+: writeRow r := hs ▸ not_prefix_natStr_append (by decide) _ _
  have hcomment : ¬ lit "#" <+: writeRow r := hs ▸ not_prefix_natStr_append (by decide) _ _
  simp [Noise, trim_writeRow, hne, hheader, hcomment]

theorem recordOf_writeRow {r : TeleRecord} (hkind : '\t' ∉ r.kind) :
    recordOf (writeRow r) = some r ∧ dropped (writeRow r) = false := by
  have hcols : (trim (writeRow r)).splitOn '\t' = recordColumns r := by
    rw [trim_writeRow]
    exact List.splitOn_intercalate '\t'
      (not_mem_recordColumns (by decide) (by decide) hkind) (List.cons_ne_nil _ _)
  have hrow := teleRow_recordColumns r
  constructor
  · rw [recordOf, noise_writeRow, hcols, hrow]
    rfl
  · rw [dropped, noise_writeRow, hcols, ← isSome_teleRow, hrow]
    rfl

theorem lines_writeRows {rs : List TeleRecord} (h : ∀ r ∈ rs, '\n' ∉ r.kind) :
    lines (writeRows rs) = rs.map writeRow := by
  induction rs with
  | nil => rfl
  | cons r rs ih =>
      obtain ⟨hr, hrs⟩ := List.forall_mem_cons.mp h
      have hrow : '\n' ∉ writeRow r := by
        intro hmem
        rcases mem_join hmem with htab | ⟨col, hcol, hlf⟩
        · exact absurd htab (by decide)
        · exact not_mem_recordColumns (by decide) (by decide) hr col hcol hlf
      have hcr : stripCr (writeRow r) = writeRow r := by
        obtain ⟨c, hc, hdigit⟩ := getLast?_writeRow r
        rw [stripCr, hc, if_neg]
        rintro hcr
        obtain rfl := Option.some.inj hcr
        exact absurd hdigit (by decide)
      have hsplit : writeRows (r :: rs) = writeRow r ++ '\n' :: writeRows rs := by
        rw [writeRows, List.flatMap_cons, List.append_assoc]
        rfl
      rw [hsplit, lines_append hrow, hcr, ih hrs, List.map_cons]

/-- Records whose kinds hold no separator are read back as they are. -/
theorem parseTeleCounted_writeRows {rs : List TeleRecord}
    (h : ∀ r ∈ rs, '\t' ∉ r.kind ∧ '\n' ∉ r.kind) :
    parseTeleCounted (writeRows rs) = (rs, 0) := by
  rw [parseTeleCounted_eq, lines_writeRows fun r hr ↦ (h r hr).2]
  congr 1
  · have hread : rs.filterMap (recordOf ∘ writeRow) = rs.filterMap some :=
      List.filterMap_congr fun r hr ↦ (recordOf_writeRow (h r hr).1).1
    rw [List.filterMap_map, hread, List.filterMap_some]
  · rw [List.countP_eq_zero]
    intro l hl
    obtain ⟨r, hr, rfl⟩ := List.mem_map.mp hl
    rw [(recordOf_writeRow (h r hr).1).2]
    exact Bool.false_ne_true

theorem kind_of_recordOf {text line : Str} {r : TeleRecord} (hline : line ∈ lines text)
    (h : recordOf line = some r) : '\t' ∉ r.kind ∧ '\n' ∉ r.kind := by
  rw [recordOf] at h
  split at h
  next => cases h
  next =>
    have hkind : r.kind = ((trim line).splitOn '\t').getD 1 [] := by
      simp only [teleRow, Option.bind_eq_bind, Option.bind_eq_some_iff, Option.pure_def,
        Option.some.injEq] at h
      obtain ⟨_, -, _, -, _, -, _, -, _, -, _, -, rfl⟩ := h
      rfl
    have hcol : ∀ c ∈ r.kind, r.kind ∈ (trim line).splitOn '\t' := by
      intro c hc
      rw [hkind, List.getD_eq_getElem?_getD] at hc ⊢
      cases hget : ((trim line).splitOn '\t')[1]? with
      | none =>
          rw [hget] at hc
          cases hc
      | some col => exact List.mem_of_getElem? hget
    constructor
    · exact fun hc ↦ not_mem_of_mem_splitOn (hcol _ hc) hc
    · intro hc
      have hmem : '\n' ∈ join "\t" ((trim line).splitOn '\t') := mem_join_of_mem (hcol _ hc) hc
      have hjoin : join "\t" ((trim line).splitOn '\t') = trim line := List.intercalate_splitOn '\t'
      rw [hjoin] at hmem
      exact not_mem_of_mem_lines hline (mem_of_mem_trim hmem)

/-! ## The faithful texts -/

theorem forall₂_filter_filterMap {α β : Type} {S : α → β → Prop} {p : α → Bool} {f : α → Option β}
    {l : List α} (h : ∀ a ∈ l, (p a = true ∧ ∃ b, f a = some b ∧ S a b) ∨ (p a = false ∧ f a = none)) :
    List.Forall₂ S (l.filter p) (l.filterMap f) := by
  induction l with
  | nil => exact .nil
  | cons a l ih =>
      obtain ⟨ha, hl⟩ := List.forall_mem_cons.mp h
      rcases ha with ⟨hp, b, hb, hS⟩ | ⟨hp, hb⟩
      · rw [List.filter_cons_of_pos hp, List.filterMap_cons_some hb]
        exact .cons hS (ih hl)
      · rw [List.filter_cons_of_neg (by simp [hp]), List.filterMap_cons_none hb]
        exact ih hl

/-- Counts of nested conditions agree only where the conditions do. -/
theorem imp_of_countP_eq {α : Type} {p q : α → Bool} {l : List α} (h : ∀ a ∈ l, p a → q a)
    (hcount : l.countP p = l.countP q) : ∀ a ∈ l, q a → p a := by
  induction l with
  | nil => exact List.forall_mem_nil _
  | cons a l ih =>
      obtain ⟨ha, hl⟩ := List.forall_mem_cons.mp h
      have hle : l.countP p ≤ l.countP q := List.countP_mono_left hl
      rw [List.countP_cons, List.countP_cons] at hcount
      by_cases hp : p a
      · rw [if_pos hp, if_pos (ha hp)] at hcount
        exact List.forall_mem_cons.mpr ⟨fun _ ↦ hp, ih hl (by omega)⟩
      · have hq : ¬ q a := by
          intro hq
          rw [if_neg hp, if_pos hq] at hcount
          omega
        rw [if_neg hp, if_neg hq] at hcount
        exact List.forall_mem_cons.mpr ⟨fun h ↦ absurd h hq, ih hl (by omega)⟩

/-- What the reader makes of a line: nothing of noise, its record of a
well-formed row, and of a malformed row a record or a count. -/
theorem line_cases {line : Str} (h : Noise line ∨ WellFormedRow line ∨ MalformedRow line) :
    (MalformedRow line = true ∧ WellFormedRow line = false ∧
      ((recordOf line).isSome = !dropped line) ∧
        dropped line = !RequiredNumbers ((trim line).splitOn '\t')) ∨
      (MalformedRow line = false ∧ dropped line = false ∧
        ((WellFormedRow line = true ∧ ∃ r, recordOf line = some r ∧ Spells (columnsOf line) r) ∨
          (WellFormedRow line = false ∧ recordOf line = none))) := by
  by_cases hnoise : Noise line
  · right
    simp [MalformedRow, WellFormedRow, dropped, recordOf, hnoise]
  · rw [Bool.not_eq_true] at hnoise
    rcases h with h | h | h
    · exact absurd (hnoise ▸ h) Bool.false_ne_true
    · right
      have hcols := h
      simp only [WellFormedRow, hnoise, Bool.not_false, Bool.true_and, Bool.and_eq_true,
        decide_eq_true_eq] at hcols
      refine ⟨?_, ?_, Or.inl ⟨h, recordOf_wellFormed h⟩⟩
      · simp [MalformedRow, hcols.1]
      · rw [dropped, splitOn_trim hcols.1 hcols.2, (Bool.and_eq_true_iff.mp hcols.1).1]
        simp
    · left
      have hbad : NumericColumns (columnsOf line) = false := by simpa [MalformedRow, hnoise] using h
      refine ⟨h, by simp [WellFormedRow, hbad], ?_, by simp [dropped, hnoise]⟩
      rw [recordOf, dropped, hnoise, ← isSome_teleRow]
      simp

/-- The reader is faithful exactly on the texts without a malformed row that is
a row once the tabs at its ends are trimmed, whatever its ninth column holds. -/
theorem faithful_iff (text : Str)
    (hlines : ∀ line ∈ lines text, Noise line ∨ WellFormedRow line ∨ MalformedRow line) :
    Faithful text ↔ ∀ line ∈ lines text, MalformedRow line →
      ¬ RequiredNumbers ((trim line).splitOn '\t') := by
  have hcases := fun line hline ↦ line_cases (hlines line hline)
  constructor
  · intro h line hline hbad
    have hskipped := h.skipped
    rw [parseTeleCounted_eq] at hskipped
    have himp : ∀ l ∈ lines text, dropped l → MalformedRow l := by
      intro l hl hd
      rcases hcases l hl with ⟨hm, -⟩ | ⟨-, hd', -⟩
      · exact hm
      · exact absurd (hd' ▸ hd) Bool.false_ne_true
    have hdropped := imp_of_countP_eq himp hskipped line hline hbad
    rw [dropped, Bool.and_eq_true] at hdropped
    simpa using hdropped.2
  · intro hrows
    have hread : ∀ l ∈ lines text, (WellFormedRow l = true ∧
        ∃ r, recordOf l = some r ∧ Spells (columnsOf l) r) ∨
          (WellFormedRow l = false ∧ recordOf l = none) := by
      intro l hl
      rcases hcases l hl with ⟨hm, hwf, hsome, hd⟩ | ⟨-, -, hread⟩
      · rw [hd, Bool.not_not, Bool.eq_false_iff.mpr (hrows l hl hm)] at hsome
        exact Or.inr ⟨hwf, Option.isNone_iff_eq_none.mp (by simpa using hsome)⟩
      · exact hread
    refine ⟨?_, ?_, ?_⟩
    · rw [parseTeleCounted_eq]
      exact forall₂_filter_filterMap hread
    · rw [parseTeleCounted_eq]
      apply List.countP_congr
      intro l hl
      rcases hcases l hl with ⟨hm, -, -, hd⟩ | ⟨hm, hd, -⟩
      · rw [hd, hm, Bool.eq_false_iff.mpr (hrows l hl hm)]
        simp
      · rw [hd, hm]
    · apply parseTeleCounted_writeRows
      rw [parseTeleCounted_eq]
      intro r hr
      obtain ⟨l, hl, hlr⟩ := List.mem_filterMap.mp hr
      exact kind_of_recordOf hl hlr

/-- A header, a row of eight columns and a row that is cut short. -/
theorem faithful_cut_short :
    let text : Str := "op_index\tkind\n6\tX\tmem\t100\t200\t7\t0\t0\n7\tX\tmem\t100\n"
    Faithful text ↔ ∀ line ∈ lines text, MalformedRow line →
      ¬ RequiredNumbers ((trim line).splitOn '\t') :=
  faithful_iff _ (by decide +kernel)

/-- A row whose ninth column is no number is read with that column as zero. -/
theorem not_faithful : ¬ ∀ text : Str,
    (∀ line ∈ lines text, Noise line ∨ WellFormedRow line ∨ MalformedRow line) →
      Faithful text := by
  intro h
  have hskipped := (h "6\tX\tmem\t100\t200\t7\t0\t0\tx\n" (by decide +kernel)).skipped
  exact absurd hskipped (by decide +kernel)

end CalxMill
