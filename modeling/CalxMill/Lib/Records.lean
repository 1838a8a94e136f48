import Mathlib.Data.List.Basic

/-!
# Machines that read records

A machine reads its input one letter at a time.  Each letter may extend the
field under construction, close it, or close the record around it; what the
machine does is decided by its mode.  Two machines whose modes are related and
that always act alike read the same records, and a machine in the middle of a
record opens its output with what it holds.
-/

namespace CalxMill.Lib

inductive Action (α : Type*) where
  | skip
  | push (a : α)
  | endField
  | endRecord
  deriving DecidableEq

structure RecordMachine (α M : Type*) where
  step : M → α → M × Action α
  /-- The machine is in the middle of a record. -/
  pending : M → Bool

variable {α M N : Type*}

namespace RecordMachine

/-- The records read from here on. -/
def run (d : RecordMachine α M) : M → List (List α) → List α → List α → List (List (List α))
  | m, record, field, [] => if d.pending m then [record ++ [field]] else []
  | m, record, field, a :: text =>
      match d.step m a with
      | (m', .skip) => run d m' record field text
      | (m', .push b) => run d m' record (field ++ [b]) text
      | (m', .endField) => run d m' (record ++ [field]) [] text
      | (m', .endRecord) => (record ++ [field]) :: run d m' [] [] text

variable {d : RecordMachine α M} {e : RecordMachine α N} {m m' : M} {n : N} {a b : α}
  {record : List (List α)} {field text : List α}

theorem run_nil (h : d.pending m = true) : d.run m record field [] = [record ++ [field]] :=
  if_pos h

theorem run_skip (h : d.step m a = (m', .skip)) :
    d.run m record field (a :: text) = d.run m' record field text := by
  simp only [run, h]

theorem run_push (h : d.step m a = (m', .push b)) :
    d.run m record field (a :: text) = d.run m' record (field ++ [b]) text := by
  simp only [run, h]

theorem run_endField (h : d.step m a = (m', .endField)) :
    d.run m record field (a :: text) = d.run m' (record ++ [field]) [] text := by
  simp only [run, h]

theorem run_endRecord (h : d.step m a = (m', .endRecord)) :
    d.run m record field (a :: text) = (record ++ [field]) :: d.run m' [] [] text := by
  simp only [run, h]

/-- Two machines that act alike on a letter read the same from there on exactly
when they do from behind it. -/
theorem run_eq_run_iff {n' : N} {act : Action α} {p : Prop} (hd : d.step m a = (m', act))
    (he : e.step n a = (n', act))
    (h : ∀ record field, d.run m' record field text = e.run n' record field text ↔ p) :
    d.run m record field (a :: text) = e.run n record field (a :: text) ↔ p := by
  cases act with
  | skip => rw [run_skip hd, run_skip he, h]
  | push b => rw [run_push hd, run_push he, h]
  | endField => rw [run_endField hd, run_endField he, h]
  | endRecord =>
      rw [run_endRecord hd, run_endRecord he, ← h [] []]
      exact List.cons_inj_right _

/-! ## What the output opens with -/

/-- The first record starts with `record` and a field that starts with `field`. -/
def Opens (record : List (List α)) (field : List α) (out : List (List (List α))) : Prop :=
  ∃ x ys zs, out = (record ++ (field ++ x) :: ys) :: zs

/-- A record is left only at its end. -/
def Keeps (d : RecordMachine α M) : Prop :=
  ∀ m a, d.pending m = true → (d.step m a).2 ≠ .endRecord → d.pending (d.step m a).1 = true

theorem opens_of_append {x : List α} {out : List (List (List α))}
    (h : Opens record (field ++ x) out) : Opens record field out := by
  obtain ⟨y, ys, zs, rfl⟩ := h
  exact ⟨x ++ y, ys, zs, by rw [List.append_assoc]⟩

theorem opens_run (hd : d.Keeps) (hm : d.pending m = true) :
    Opens record field (d.run m record field text) := by
  induction text generalizing m record field with
  | nil => exact ⟨[], [], [], by rw [run_nil hm, List.append_nil]⟩
  | cons a text ih =>
      have hkeep := hd m a hm
      cases h : d.step m a with
      | mk m' act =>
          rw [h] at hkeep
          cases act with
          | skip =>
              rw [run_skip h]
              exact ih (hkeep nofun)
          | push b =>
              rw [run_push h]
              exact opens_of_append (ih (hkeep nofun))
          | endField =>
              rw [run_endField h]
              have hopens : Opens (record ++ [field]) [] (d.run m' (record ++ [field]) [] text) :=
                ih (hkeep nofun)
              obtain ⟨x, ys, zs, hout⟩ := hopens
              exact ⟨[], x :: ys, zs, by rw [hout]; simp⟩
          | endRecord => exact ⟨[], [], _, by rw [run_endRecord h, List.append_nil]⟩

/-- Outputs that open with different letters in the same field differ. -/
theorem opens_ne_opens {out out' : List (List (List α))} (hab : a ≠ b)
    (h : Opens record (field ++ [a]) out) (h' : Opens record (field ++ [b]) out') : out ≠ out' := by
  rintro rfl
  obtain ⟨x, ys, zs, rfl⟩ := h
  obtain ⟨x', ys', zs', heq⟩ := h'
  simp only [List.cons.injEq, List.append_cancel_left_eq, List.append_assoc,
    List.singleton_append] at heq
  exact hab heq.1.1.1

/-- A field that goes on is not a closed one. -/
theorem opens_ne_cons {out zs : List (List (List α))} {ys : List (List α)}
    (h : Opens record (field ++ [a]) out) : out ≠ (record ++ field :: ys) :: zs := by
  rintro rfl
  obtain ⟨x, ys', zs', heq⟩ := h
  simp at heq

/-- A record that goes on is not a closed one. -/
theorem opens_ne_record {f f' : List α} {out zs : List (List (List α))}
    (h : Opens (record ++ [f]) field out) : out ≠ (record ++ [f']) :: zs := by
  rintro rfl
  obtain ⟨x, ys, zs', heq⟩ := h
  simp at heq

theorem opens_field_ne {out out' : List (List (List α))} {f : List α}
    (h : Opens (record ++ [field]) f out) (h' : Opens record (field ++ [a]) out') : out ≠ out' := by
  obtain ⟨x, ys, zs, rfl⟩ := h
  have hne : out' ≠ (record ++ field :: ((f ++ x) :: ys)) :: zs := opens_ne_cons h'
  rw [List.append_assoc]
  exact hne.symm

end RecordMachine

end CalxMill.Lib
