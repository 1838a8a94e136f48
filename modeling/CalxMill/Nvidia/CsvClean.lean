import CalxMill.Nvidia.CsvPython

/-!
# The texts that both readers read alike

On a clean text the two machines act alike, up to the carriage returns in front
of a line feed.  On any other text the first fault cannot be made good: a field
that lost a quote never gets it back in the record Python has closed, and a
record that a carriage return did not end swallows what follows.
-/

namespace CalxMill.Nvidia

open Lib Rust RecordMachine

/-- Carriage returns up to a line feed or the end of the text. -/
def LineEnds (text : Str) : Prop := (text.dropWhile (· = '\r')).head?.all (· = '\n')

instance (text : Str) : Decidable (LineEnds text) := inferInstanceAs (Decidable (_ = true))

/-- No quote stands inside an unquoted field, and no carriage return ends a
record without a line feed behind it. -/
def Clean : PyMode → Str → Prop
  | _, [] => True
  | m, c :: text =>
      (c = '"' → m ≠ .inField) ∧
      (c = '\r' → m = .startRecord ∨ m = .inQuoted ∨ LineEnds text) ∧
      Clean (python.step m c).1 text

instance decidableClean : (m : PyMode) → (text : Str) → Decidable (Clean m text)
  | _, [] => isTrue trivial
  | m, c :: text =>
      have := decidableClean (python.step m c).1 text
      inferInstanceAs (Decidable (_ ∧ _ ∧ _))

theorem lineEnds_nil : LineEnds [] := rfl

theorem lineEnds_lineFeed (text : Str) : LineEnds ('\n' :: text) := rfl

theorem not_lineEnds_cons {c : Char} {text : Str} (hcr : c ≠ '\r') (hlf : c ≠ '\n') :
    ¬ LineEnds (c :: text) := by
  simp [LineEnds, hcr, hlf]

/-! ## Single steps -/

theorem machine_keeps : machine.Keeps := by
  intro p c hp hact
  simp only [machine, outside] at hp hact ⊢
  cases p <;> split_ifs at hact ⊢ <;> simp_all

theorem python_keeps : python.Keeps := by
  intro m c hm hact
  simp only [python, pyOutside] at hm hact ⊢
  cases m <;> split_ifs at hact ⊢ <;> simp_all

variable {c : Char} {m : PyMode} {p : Phase}

theorem ne_quote (hc : c ∉ ['"', ',', '\r', '\n']) : c ≠ '"' := by
  rintro rfl
  simp at hc

theorem machine_other (hp : p ≠ .quoted) (hc : c ∉ ['"', ',', '\r', '\n']) :
    machine.step p c = (.plain, .push c) := by
  simp only [List.mem_cons, List.not_mem_nil, or_false, not_or] at hc
  cases p <;> simp_all [machine, outside]

theorem machine_open (hp : p ≠ .quoted) (hseen : p ≠ .quoteSeen) :
    machine.step p '"' = (.quoted, .skip) := by
  cases p <;> trivial

theorem machine_comma (hp : p ≠ .quoted) : machine.step p ',' = (.plain, .endField) := by
  cases p <;> trivial

theorem machine_carriageReturn (hp : p ≠ .quoted) (hblank : p ≠ .blank) :
    machine.step p '\r' = (.plain, .skip) := by
  cases p <;> trivial

theorem machine_lineFeed (hp : p ≠ .quoted) (hblank : p ≠ .blank) :
    machine.step p '\n' = (.blank, .endRecord) := by
  cases p <;> trivial

/-- A line break in front of a record. -/
theorem machine_blank (hc : c = '\r' ∨ c = '\n') : machine.step .blank c = (.blank, .skip) := by
  rcases hc with rfl | rfl <;> trivial

theorem python_startRecord (hc : c = '\r' ∨ c = '\n') :
    python.step .startRecord c = (.startRecord, .skip) := by
  rcases hc with rfl | rfl <;> trivial

theorem python_lineBreak (hm : m ≠ .inQuoted) (hstart : m ≠ .startRecord)
    (hc : c = '\r' ∨ c = '\n') : python.step m c = (.startRecord, .endRecord) := by
  rcases hc with rfl | rfl <;> cases m <;> trivial

theorem machine_close : machine.step .quoted '"' = (.quoteSeen, .skip) := rfl

theorem python_close : python.step .inQuoted '"' = (.quoteInQuoted, .skip) := rfl

theorem machine_doubled : machine.step .quoteSeen '"' = (.quoted, .push '"') := rfl

theorem python_doubled : python.step .quoteInQuoted '"' = (.inQuoted, .push '"') := rfl

theorem python_open : python.step .startRecord '"' = (.inQuoted, .skip) := rfl

theorem python_inField_quote : python.step .inField '"' = (.inField, .push '"') := rfl

theorem machine_quoted (hc : c ≠ '"') : machine.step .quoted c = (.quoted, .push c) := by
  simp [machine, hc]

/-! ## Records that differ for good -/

def quotes (k : ℕ) : Str := List.replicate k '"'

theorem quotes_succ (k : ℕ) : quotes (k + 1) = '"' :: quotes k := List.replicate_succ

theorem quotes_append_quote (k : ℕ) : quotes k ++ ['"'] = quotes (k + 1) :=
  List.replicate_succ'.symm

/-- Records of one field of quotes. -/
def QuoteRecords (E : List (List Str)) : Prop := ∀ r ∈ E, ∃ n, r = [quotes n]

variable {record : List Str} {F text : Str} {E out Z : List (List Str)} {k : ℕ}

theorem opens_ne_quotes (hc : c ≠ '"') (h : Opens record (F ++ [c]) out) :
    out ≠ (record ++ [F ++ quotes k]) :: Z := by
  cases k with
  | zero =>
      have hne : out ≠ (record ++ F :: []) :: Z := opens_ne_cons h
      simpa [quotes] using hne
  | succ k =>
      have hquote : Opens record (F ++ ['"']) ((record ++ [F ++ quotes (k + 1)]) :: Z) :=
        ⟨quotes k, [], Z, by simp [quotes_succ]⟩
      exact opens_ne_opens hc h hquote

theorem opens_machine (hp : p ≠ .blank) : Opens record F (machine.run p record F text) :=
  opens_run machine_keeps (by simp [machine, hp])

theorem opens_python (hm : m ≠ .startRecord) : Opens record F (python.run m record F text) :=
  opens_run python_keeps (by simp [python, hm])

/-- The machine, in the middle of a record whose first fields are `record`, has
`F` in hand, and Python has closed that record behind `F` and `k` more quotes
and has since read the records `E`: the two never come together again. -/
structure Diverge (text : Str) : Prop where
  quoted : ∀ record F k n E, QuoteRecords E → machine.run .quoted record F text ≠
    (record ++ [F ++ quotes k]) :: (E ++ python.run .inQuoted [] (quotes n) text)
  quoteSeen : ∀ record F k n E, QuoteRecords E → machine.run .quoteSeen record F text ≠
    (record ++ [F ++ quotes k]) :: (E ++ python.run .quoteInQuoted [] (quotes n) text)
  plain : ∀ record F k E, QuoteRecords E → k ≠ 0 ∨ E ≠ [] ∨ ¬ LineEnds text →
    machine.run .plain record F text ≠
      (record ++ [F ++ quotes k]) :: (E ++ python.run .startRecord [] [] text)
  blank : ∀ E, QuoteRecords E → E ≠ [] →
    machine.run .blank [] [] text ≠ E ++ python.run .startRecord [] [] text

theorem quoteRecords_append {n : ℕ} (hE : QuoteRecords E) : QuoteRecords (E ++ [[quotes n]]) := by
  intro r hr
  rcases List.mem_append.mp hr with hr | hr
  · exact hE r hr
  · exact ⟨n, List.mem_singleton.mp hr⟩

theorem diverge_nil : Diverge [] := by
  constructor
  · intro record F k n E hE
    simp [run, machine, python]
  · intro record F k n E hE
    simp [run, machine, python]
  · intro record F k E hE hstrict
    rcases hstrict with hk | hE | hends
    · simp [run, machine, python, quotes, hk]
    · simp [run, machine, python, hE.symm]
    · exact absurd lineEnds_nil hends
  · intro E hE hne
    simp [run, machine, python, hne.symm]

namespace Diverge

variable {n : ℕ}

theorem quoted_cons (h : Diverge text) (hE : QuoteRecords E) :
    machine.run .quoted record F (c :: text) ≠
      (record ++ [F ++ quotes k]) :: (E ++ python.run .inQuoted [] (quotes n) (c :: text)) := by
  by_cases hc : c = '"'
  · subst hc
    rw [run_skip machine_close, run_skip python_close]
    exact h.quoteSeen record F k n E hE
  · rw [run_push (machine_quoted hc)]
    exact opens_ne_quotes hc (opens_machine nofun)

theorem quoteSeen_cons (h : Diverge text) (hE : QuoteRecords E) :
    machine.run .quoteSeen record F (c :: text) ≠
      (record ++ [F ++ quotes k]) :: (E ++ python.run .quoteInQuoted [] (quotes n) (c :: text)) := by
  rcases char_cases c with rfl | rfl | rfl | rfl | hc
  · rw [run_push machine_doubled, run_push python_doubled, quotes_append_quote]
    cases k with
    | zero =>
        have hopens : Opens record (F ++ ['"'])
            (machine.run .quoted record (F ++ ['"']) text) := opens_machine nofun
        have hne : _ ≠ (record ++ F :: []) ::
            (E ++ python.run .inQuoted [] (quotes (n + 1)) text) := opens_ne_cons hopens
        simpa [quotes] using hne
    | succ k =>
        have hne := h.quoted record (F ++ ['"']) k (n + 1) E hE
        simpa [quotes_succ] using hne
  · rw [run_endField (machine_comma (p := .quoteSeen) nofun)]
    exact opens_ne_record (opens_machine nofun)
  · rw [run_skip (machine_carriageReturn (p := .quoteSeen) nofun nofun),
      run_endRecord (python_lineBreak (m := .quoteInQuoted) nofun nofun (Or.inl rfl))]
    have hne := h.plain record F k (E ++ [[quotes n]]) (quoteRecords_append hE)
      (Or.inr (Or.inl (by simp)))
    simpa using hne
  · rw [run_endRecord (machine_lineFeed (p := .quoteSeen) nofun nofun),
      run_endRecord (python_lineBreak (m := .quoteInQuoted) nofun nofun (Or.inr rfl))]
    intro heq
    have htail := (List.cons.inj heq).2
    apply h.blank (E ++ [[quotes n]]) (quoteRecords_append hE) (by simp)
    simpa using htail
  · rw [run_push (machine_other (p := .quoteSeen) nofun hc)]
    exact opens_ne_quotes (ne_quote hc) (opens_machine nofun)

theorem plain_cons (h : Diverge text) (hE : QuoteRecords E)
    (hstrict : k ≠ 0 ∨ E ≠ [] ∨ ¬ LineEnds (c :: text)) :
    machine.run .plain record F (c :: text) ≠
      (record ++ [F ++ quotes k]) :: (E ++ python.run .startRecord [] [] (c :: text)) := by
  rcases char_cases c with rfl | rfl | rfl | rfl | hc
  · rw [run_skip (machine_open (p := .plain) nofun nofun), run_skip python_open]
    exact h.quoted record F k 0 E hE
  · rw [run_endField (machine_comma (p := .plain) nofun)]
    exact opens_ne_record (opens_machine nofun)
  · rw [run_skip (machine_carriageReturn (p := .plain) nofun nofun),
      run_skip (python_startRecord (Or.inl rfl))]
    exact h.plain record F k E hE hstrict
  · rw [run_endRecord (machine_lineFeed (p := .plain) nofun nofun),
      run_skip (python_startRecord (Or.inr rfl))]
    intro heq
    obtain ⟨hhead, htail⟩ := List.cons.inj heq
    have hk : k = 0 := by simpa [quotes] using hhead
    have hne : E ≠ [] := by
      rcases hstrict with hk' | hne | hends
      · exact absurd hk hk'
      · exact hne
      · exact absurd (lineEnds_lineFeed text) hends
    exact h.blank E hE hne htail
  · rw [run_push (machine_other (p := .plain) nofun hc)]
    exact opens_ne_quotes (ne_quote hc) (opens_machine nofun)

theorem blank_cons (h : Diverge text) (hE : QuoteRecords E) (hne : E ≠ []) :
    machine.run .blank [] [] (c :: text) ≠ E ++ python.run .startRecord [] [] (c :: text) := by
  obtain ⟨r, E, rfl⟩ := List.exists_cons_of_ne_nil hne
  obtain ⟨⟨n, rfl⟩, hE'⟩ := List.forall_mem_cons.mp hE
  rcases char_cases c with rfl | rfl | rfl | rfl | hc
  · rw [run_skip (machine_open (p := .blank) nofun nofun), run_skip python_open]
    exact h.quoted [] [] n 0 E hE'
  · rw [run_endField (machine_comma (p := .blank) nofun)]
    have hopens : Opens ([] ++ [[]]) [] (machine.run .plain ([] ++ [[]]) [] text) :=
      opens_machine nofun
    exact opens_ne_record hopens
  · rw [run_skip (machine_blank (Or.inl rfl)), run_skip (python_startRecord (Or.inl rfl))]
    exact h.blank _ hE hne
  · rw [run_skip (machine_blank (Or.inr rfl)), run_skip (python_startRecord (Or.inr rfl))]
    exact h.blank _ hE hne
  · rw [run_push (machine_other (p := .blank) nofun hc)]
    have hopens : Opens [] ([] ++ [c]) (machine.run .plain [] ([] ++ [c]) text) :=
      opens_machine nofun
    exact opens_ne_quotes (ne_quote hc) hopens

end Diverge

theorem diverge (text : Str) : Diverge text := by
  induction text with
  | nil => exact diverge_nil
  | cons c text ih =>
      constructor
      · intro record F k n E hE
        exact ih.quoted_cons hE
      · intro record F k n E hE
        exact ih.quoteSeen_cons hE
      · intro record F k E hE hstrict
        exact ih.plain_cons hE hstrict
      · intro E hE hne
        exact ih.blank_cons hE hne

/-! ## A quote inside an unquoted field -/

/-- Python's field is ahead by some quotes, while the machine is inside quotes
or behind their end. -/
structure Behind (text : Str) : Prop where
  quoted : ∀ record F k, k ≠ 0 → machine.run .quoted record F text ≠
    python.run .inField record (F ++ quotes k) text
  quoteSeen : ∀ record F k, k ≠ 0 → machine.run .quoteSeen record F text ≠
    python.run .inField record (F ++ quotes k) text

theorem opens_quotes (hk : k ≠ 0) :
    Opens record (F ++ ['"']) (python.run .inField record (F ++ quotes k) text) := by
  obtain ⟨k, rfl⟩ := Nat.exists_eq_succ_of_ne_zero hk
  have hfield : F ++ quotes (k + 1) = (F ++ ['"']) ++ quotes k := by simp [quotes_succ]
  rw [hfield]
  exact opens_of_append (opens_python nofun)

theorem behind_nil : Behind [] := by
  constructor
  · intro record F k hk
    simp [run, machine, python, quotes, hk]
  · intro record F k hk
    simp [run, machine, python, quotes, hk]

namespace Behind

theorem quoted_cons (h : Behind text) (hk : k ≠ 0) : machine.run .quoted record F (c :: text) ≠
    python.run .inField record (F ++ quotes k) (c :: text) := by
  by_cases hc : c = '"'
  · subst hc
    rw [run_skip machine_close, run_push python_inField_quote, List.append_assoc,
      quotes_append_quote]
    exact h.quoteSeen record F (k + 1) k.succ_ne_zero
  · rw [run_push (machine_quoted hc)]
    exact opens_ne_opens hc (opens_machine nofun) (opens_quotes hk)

theorem quoteSeen_cons (h : Behind text) (hk : k ≠ 0) :
    machine.run .quoteSeen record F (c :: text) ≠
      python.run .inField record (F ++ quotes k) (c :: text) := by
  rcases char_cases c with rfl | rfl | rfl | rfl | hc
  · have hfield : F ++ quotes k ++ ['"'] = (F ++ ['"']) ++ quotes k := by
      rw [List.append_assoc, quotes_append_quote, quotes_succ]
      simp
    rw [run_push machine_doubled, run_push python_inField_quote, hfield]
    exact h.quoted record (F ++ ['"']) k hk
  · rw [run_endField (machine_comma (p := .quoteSeen) nofun)]
    exact opens_field_ne (opens_machine nofun) (opens_quotes hk)
  · rw [run_skip (machine_carriageReturn (p := .quoteSeen) nofun nofun),
      run_endRecord (python_lineBreak (m := .inField) nofun nofun (Or.inl rfl))]
    exact (diverge text).plain record F k [] (List.forall_mem_nil _) (Or.inl hk)
  · rw [run_endRecord (machine_lineFeed (p := .quoteSeen) nofun nofun)]
    exact (opens_ne_cons (opens_quotes hk)).symm
  · rw [run_push (machine_other (p := .quoteSeen) nofun hc)]
    exact opens_ne_opens (ne_quote hc) (opens_machine nofun) (opens_quotes hk)

end Behind

theorem behind (text : Str) : Behind text := by
  induction text with
  | nil => exact behind_nil
  | cons c text ih =>
      constructor
      · intro record F k hk
        exact ih.quoted_cons hk
      · intro record F k hk
        exact ih.quoteSeen_cons hk

/-! ## A carriage return at the end of a record -/

theorem run_plain_of_lineEnds (h : LineEnds text) : machine.run .plain record F text =
    (record ++ [F]) :: machine.run .blank [] [] text := by
  induction text with
  | nil => rfl
  | cons c text ih =>
      by_cases hcr : c = '\r'
      · subst hcr
        rw [run_skip (machine_carriageReturn (p := .plain) nofun nofun),
          run_skip (machine_blank (Or.inl rfl))]
        exact ih h
      · by_cases hlf : c = '\n'
        · subst hlf
          rw [run_endRecord (machine_lineFeed (p := .plain) nofun nofun),
            run_skip (machine_blank (Or.inr rfl))]
        · exact absurd h (not_lineEnds_cons hcr hlf)

theorem run_plain_ne_of_not_lineEnds (h : ¬ LineEnds text) : machine.run .plain record F text ≠
    (record ++ [F]) :: python.run .startRecord [] [] text := by
  have hne := (diverge text).plain record F 0 [] (List.forall_mem_nil _) (Or.inr (Or.inr h))
  simpa [quotes] using hne

/-! ## The two readers -/

def PyMode.phase : PyMode → Phase
  | .startRecord => .blank
  | .startField => .plain
  | .inField => .plain
  | .inQuoted => .quoted
  | .quoteInQuoted => .quoteSeen

/-- Away from the two faults the machine does what Python does. -/
theorem machine_step_phase (hquote : c = '"' → m ≠ .inField)
    (hcr : c = '\r' → m = .startRecord ∨ m = .inQuoted) :
    machine.step m.phase c = ((python.step m c).1.phase, (python.step m c).2) := by
  cases m <;> simp only [machine, python, outside, pyOutside, PyMode.phase] <;> split_ifs <;>
    simp_all

theorem run_inField_quote : machine.run .plain record F ('"' :: text) ≠
    python.run .inField record F ('"' :: text) := by
  rw [run_skip (machine_open (p := .plain) nofun nofun), run_push python_inField_quote]
  exact (behind text).quoted record F 1 Nat.one_ne_zero

/-- A carriage return ends the record for Python alone. -/
theorem run_carriageReturn_iff (hm : m ≠ .startRecord) (hq : m ≠ .inQuoted) {q : Prop}
    (h : machine.run .blank [] [] text = python.run .startRecord [] [] text ↔ q) :
    machine.run m.phase record F ('\r' :: text) = python.run m record F ('\r' :: text) ↔
      LineEnds text ∧ q := by
  have hmachine : machine.step m.phase '\r' = (.plain, .skip) := by cases m <;> trivial
  rw [run_skip hmachine, run_endRecord (python_lineBreak hq hm (Or.inl rfl))]
  by_cases hends : LineEnds text
  · rw [run_plain_of_lineEnds hends, and_iff_right hends, ← h]
    exact List.cons_inj_right _
  · exact iff_of_false (run_plain_ne_of_not_lineEnds hends) fun h ↦ hends h.1

theorem clean_cons : Clean m (c :: text) ↔ (c = '"' → m ≠ .inField) ∧
    (c = '\r' → m = .startRecord ∨ m = .inQuoted ∨ LineEnds text) ∧
    Clean (python.step m c).1 text := Iff.rfl

theorem run_phase_eq_iff : machine.run m.phase record F text = python.run m record F text ↔
    Clean m text := by
  induction text generalizing m record F with
  | nil => exact iff_of_true (by cases m <;> rfl) trivial
  | cons c text ih =>
      rw [clean_cons]
      by_cases hquote : c = '"' → m ≠ .inField
      · by_cases hcr : c = '\r' → m = .startRecord ∨ m = .inQuoted
        · have hclean : c = '\r' → m = .startRecord ∨ m = .inQuoted ∨ LineEnds text := by
            intro h
            exact (hcr h).imp_right Or.inl
          rw [and_iff_right hquote, and_iff_right hclean]
          apply run_eq_run_iff (machine_step_phase hquote hcr) rfl
          intro record F
          exact ih
        · obtain ⟨rfl, hm⟩ := Classical.not_imp.mp hcr
          obtain ⟨hstart, hquoted⟩ := not_or.mp hm
          rw [run_carriageReturn_iff hstart hquoted (ih (m := .startRecord)),
            python_lineBreak hquoted hstart (Or.inl rfl)]
          simp [hstart, hquoted]
      · obtain ⟨rfl, hm⟩ := Classical.not_imp.mp hquote
        rw [not_not] at hm
        subst hm
        exact iff_of_false run_inField_quote fun h ↦ hquote h.1

/-- The reader has Python's semantics exactly on the clean texts. -/
theorem parseRecords_eq_pyRecords_iff (text : Str) :
    parseRecords text = pyRecords text ↔ Clean .startRecord text := by
  rw [parseRecords_eq]
  exact run_phase_eq_iff (m := .startRecord)

/-- A quote inside an unquoted field swallows the delimiters behind it, and a
lone carriage return joins two records. -/
theorem not_parseRecords_eq_pyRecords :
    (parseRecords "a\"b,c\nd,e" = [[lit "ab,c\nd,e"]] ∧
      parseRecords "a\"b,c\nd,e" ≠ pyRecords "a\"b,c\nd,e") ∧
    (parseRecords "a\rb" = [[lit "ab"]] ∧ parseRecords "a\rb" ≠ pyRecords "a\rb") := by
  decide +kernel

end CalxMill.Nvidia
