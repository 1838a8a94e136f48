import CalxMill.Lib.Records
import CalxMill.Nvidia.Csv

/-!
# The reader beside Python's

Python's reader in its default dialect is a machine of five modes.  The reader
of the tool, freed from its look at the next character, is one of four.  The
two act alike until a quote stands inside an unquoted field or a carriage
return ends a record without a line feed, and from there on their records
differ for good.
-/

namespace CalxMill.Nvidia

open Lib Rust RecordMachine

/-! ## Python's reader -/

inductive PyMode where
  | startRecord
  | startField
  | inField
  | inQuoted
  | quoteInQuoted
  deriving DecidableEq

/-- A character outside quotes.  A line break in front of a record is dropped,
and with it every blank record. -/
def pyOutside (m : PyMode) (c : Char) : PyMode × Action Char :=
  if c = ',' then (.startField, .endField) else
  if c = '\r' ∨ c = '\n' then (.startRecord, if m = .startRecord then .skip else .endRecord) else
  (.inField, .push c)

def python : RecordMachine Char PyMode where
  step m c :=
    match m with
    | .startRecord | .startField => if c = '"' then (.inQuoted, .skip) else pyOutside m c
    | .inField => pyOutside m c
    | .inQuoted => if c = '"' then (.quoteInQuoted, .skip) else (.inQuoted, .push c)
    | .quoteInQuoted => if c = '"' then (.inQuoted, .push c) else pyOutside m c
  pending m := m ≠ .startRecord

def pyRecords (text : Str) : List (List Str) := python.run .startRecord [] [] text

/-! ## The reader without lookahead -/

/-- `quoteSeen` is the state behind a quote inside quotes, which closes them
unless another one follows. -/
inductive Phase where
  | blank
  | plain
  | quoted
  | quoteSeen
  deriving DecidableEq

def outside (p : Phase) (c : Char) : Phase × Action Char :=
  if c = ',' then (.plain, .endField) else
  if c = '\r' then (if p = .blank then .blank else .plain, .skip) else
  if c = '\n' then (.blank, if p = .blank then .skip else .endRecord) else
  (.plain, .push c)

def machine : RecordMachine Char Phase where
  step p c :=
    match p with
    | .blank | .plain => if c = '"' then (.quoted, .skip) else outside p c
    | .quoted => if c = '"' then (.quoteSeen, .skip) else (.quoted, .push c)
    | .quoteSeen => if c = '"' then (.quoted, .push c) else outside p c
  pending p := p ≠ .blank

theorem char_cases (c : Char) :
    c = '"' ∨ c = ',' ∨ c = '\r' ∨ c = '\n' ∨ c ∉ ['"', ',', '\r', '\n'] := by
  simp only [List.mem_cons, List.not_mem_nil, or_false]
  tauto

namespace Reader

def phase (r : Reader) : Phase :=
  if r.inQuotes then .quoted else if r.pending then .plain else .blank

/-- An open quote has announced its field. -/
def Announced (r : Reader) : Prop := r.inQuotes = true → r.fieldStarted = true

/-- Behind a quote inside quotes the machine is closed, unless it opens them again. -/
theorem run_quoteSeen {record : List Str} {field cs : Str} (hcs : cs.head? ≠ some '"') :
    machine.run .quoteSeen record field cs = machine.run .plain record field cs := by
  cases cs with
  | nil => rfl
  | cons c cs =>
      have hc : c ≠ '"' := fun h ↦ hcs (congrArg some h)
      simp [run, machine, hc, outside]

theorem pending_push (r : Reader) (c : Char) : (r.push c).pending = true := by
  simp [pending, push]

theorem phase_of_pending {r : Reader} (hq : r.inQuotes = false) (hr : r.pending = true) :
    r.phase = .plain := by
  simp [phase, hq, hr]

theorem phase_of_not_pending {r : Reader} (hq : r.inQuotes = false) (hr : r.pending = false) :
    r.phase = .blank := by
  simp [phase, hq, hr]

theorem run_lineFeed {r : Reader} (hq : r.inQuotes = false) (cs : Str) :
    r.records ++ machine.run r.phase r.record r.field ('\n' :: cs) =
      r.endRecord.records ++
        machine.run .blank r.endRecord.record r.endRecord.field cs := by
  cases hr : r.pending with
  | true => simp [phase_of_pending hq hr, endRecord_of_pending hr, run, machine, outside]
  | false => simp [phase_of_not_pending hq hr, endRecord_of_not_pending hr, run, machine, outside]

theorem phase_cases {r : Reader} (hq : r.inQuotes = false) :
    r.phase = .plain ∨ r.phase = .blank := by
  cases hr : r.pending with
  | true => exact Or.inl (phase_of_pending hq hr)
  | false => exact Or.inr (phase_of_not_pending hq hr)

theorem phase_lineFeed {r : Reader} (hq : r.inQuotes = false) : (r.plain '\n').phase = .blank := by
  have hend : r.plain '\n' = { r.endRecord with fieldStarted := false } := rfl
  rw [hend]
  cases hr : r.pending with
  | true => simp [phase, endRecord_of_pending hr, hq, pending]
  | false =>
      rw [endRecord_of_not_pending hr]
      simp only [pending, Bool.or_eq_false_iff] at hr
      simp [phase, hq, pending, hr]

theorem plain_other (r : Reader) {c : Char} (hc : c ∉ ['"', ',', '\r', '\n']) :
    r.plain c = r.push c := by
  simp only [List.mem_cons, List.not_mem_nil, or_false, not_or] at hc
  simp [plain, hc]

/-- One character outside quotes. -/
theorem run_plain {r : Reader} (hq : r.inQuotes = false) (c : Char) (cs : Str) :
    r.records ++ machine.run r.phase r.record r.field (c :: cs) =
      (r.plain c).records ++
        machine.run (r.plain c).phase (r.plain c).record (r.plain c).field cs := by
  rcases char_cases c with rfl | rfl | rfl | rfl | hc
  · have hquoted : (r.plain '"').phase = .quoted := rfl
    rw [hquoted]
    rcases phase_cases hq with h | h <;> simp [h, run, machine, plain]
  · have hplain : (r.plain ',').phase = .plain := phase_of_pending hq rfl
    rw [hplain]
    rcases phase_cases hq with h | h <;> simp [h, run, machine, outside, plain]
  · rcases phase_cases hq with h | h <;> simp [h, run, machine, outside, plain]
  · rw [phase_lineFeed hq]
    exact run_lineFeed hq cs
  · have hplain : (r.push c).phase = .plain := phase_of_pending hq (pending_push r c)
    rw [r.plain_other hc, hplain]
    simp only [List.mem_cons, List.not_mem_nil, or_false, not_or] at hc
    rcases phase_cases hq with h | h <;> simp [h, run, machine, outside, hc, push]

theorem announced_of_plain {r : Reader} (hq : r.inQuotes = false) : r.Announced := by
  intro h
  rw [hq] at h
  cases h

theorem endRecord_inQuotes (r : Reader) : r.endRecord.inQuotes = r.inQuotes := by
  rw [endRecord]
  split <;> rfl

/-- Only a quote opens quotes, and it announces its field. -/
theorem announced_plain {r : Reader} (hq : r.inQuotes = false) (c : Char) :
    (r.plain c).Announced := by
  intro h
  by_cases hc : c = '"'
  · simp [plain, hc]
  · have hsame : (r.plain c).inQuotes = r.inQuotes := by
      simp only [plain, if_neg hc]
      split_ifs
      · rfl
      · rfl
      · exact r.endRecord_inQuotes
      · rfl
    simp [hsame, hq] at h

/-- The reader and the machine without lookahead read the same records. -/
theorem records_read {r : Reader} (text : Str) (hr : r.Announced) :
    ((r.read text).endRecord).records =
      r.records ++ machine.run r.phase r.record r.field text := by
  fun_induction Reader.read r text with
  | case1 r =>
      cases hq : r.inQuotes with
      | true =>
          have hpending : r.pending = true := by simp [pending, hr hq]
          have hphase : r.phase = .quoted := if_pos hq
          simp [hphase, endRecord_of_pending hpending, run, machine]
      | false =>
          cases hp : r.pending with
          | true => simp [phase_of_pending hq hp, endRecord_of_pending hp, run, machine]
          | false => simp [phase_of_not_pending hq hp, endRecord_of_not_pending hp, run, machine]
  | case2 r hq cs ih =>
      have hphase : r.phase = .quoted := if_pos hq
      have hpush : (r.push '"').phase = .quoted := if_pos hq
      rw [ih hr, hphase, hpush]
      simp [run, machine, push]
  | case3 r hq cs hcs ih =>
      have hphase : r.phase = .quoted := if_pos hq
      have hclosed : ({ r with inQuotes := false } : Reader).phase = .plain :=
        phase_of_pending rfl (by simp [pending, hr hq])
      have hhead : cs.head? ≠ some '"' := by
        intro h
        obtain ⟨cs', rfl⟩ := List.head?_eq_some_iff.mp h
        exact hcs cs' rfl
      rw [ih (announced_of_plain rfl), hphase, hclosed]
      rw [← run_quoteSeen hhead]
      simp [run, machine]
  | case4 r c cs hq hc ih =>
      have hphase : r.phase = .quoted := if_pos hq
      have hpush : (r.push c).phase = .quoted := if_pos hq
      rw [ih hr, hphase, hpush]
      simp [run, machine, push, hc]
  | case5 r c cs hq ih =>
      rw [Bool.not_eq_true] at hq
      rw [ih (announced_plain hq c), run_plain hq]

end Reader

theorem parseRecords_eq (text : Str) : parseRecords text = machine.run .blank [] [] text :=
  Reader.records_read text (Reader.announced_of_plain rfl)

end CalxMill.Nvidia
