import CalxMill.Lib.Tally
import CalxMill.Nvidia.HotLoop
import CalxMill.Rust.Text

/-!
# Two readers of one disassembly

The census cuts a mnemonic at the scanner's span and merges functions of one
name; the function reader cuts the text into words and keeps every function.
Both are read off the sections of the text, a section being a function name
with the instruction lines behind it, and so they count the same.
-/

namespace CalxMill.Nvidia

open Lib Rust

/-! ## Sections -/

def pushScan (sections : List (Str × List Scan)) (x : Scan) : List (Str × List Scan) :=
  sections.dropLast ++ (sections.getLast?.map fun s ↦ (s.1, s.2 ++ [x])).toList

def feedScan (sections : List (Str × List Scan)) (line : Str) : List (Str × List Scan) :=
  match functionName line with
  | some name => sections ++ [(name, [])]
  | none => if sections = [] then sections else (scan line).elim sections (pushScan sections)

/-- The functions of a disassembly with their scanned lines. -/
def sections (sass : Str) : List (Str × List Scan) := (bodyLines sass).foldl feedScan []

theorem pushScan_append (secs : List (Str × List Scan)) (s : Str × List Scan) (x : Scan) :
    pushScan (secs ++ [s]) x = secs ++ [(s.1, s.2 ++ [x])] := by
  rw [pushScan, List.dropLast_concat, List.getLast?_concat]
  rfl

/-- The functions of sections: each line is read as an instruction. -/
def instrs (secs : List (Str × List Scan)) : List (Str × List Instr) :=
  secs.map fun s ↦ (s.1, s.2.map instrOf)

theorem feed_instrs (secs : List (Str × List Scan)) (line : Str) :
    feed (instrs secs) line = instrs (feedScan secs line) := by
  rw [feed, feedScan]
  cases functionName line with
  | some name => simp [instrs]
  | none =>
      rcases List.eq_nil_or_concat secs with rfl | ⟨secs, s, rfl⟩
      · rfl
      · cases scan line with
        | none => simp [instrs]
        | some x => simp [instrs, pushInstr, pushScan_append]

theorem functions_eq_sections (sass : Str) : functions sass = instrs (sections sass) := by
  have h : (bodyLines sass).foldl feed (instrs []) =
      instrs ((bodyLines sass).foldl feedScan []) := List.foldl_hom instrs feed_instrs
  rw [functions_eq]
  exact h

theorem mem_functions {sass : Str} {s : Str × List Scan} (h : s ∈ sections sass) :
    (s.1, s.2.map instrOf) ∈ functions sass := by
  rw [functions_eq_sections]
  exact List.mem_map_of_mem (f := fun s : Str × List Scan ↦ (s.1, s.2.map instrOf)) h

/-- What a header opens with and every scanned line keeps holds of the sections. -/
theorem forall_sections {P : Str × List Scan → Prop}
    (hopen : ∀ line name, functionName line = some name → P (name, []))
    (hpush : ∀ s line x, P s → scan line = some x → P (s.1, s.2 ++ [x])) (sass : Str) :
    ∀ s ∈ sections sass, P s := by
  rw [sections]
  induction bodyLines sass using List.reverseRecOn with
  | nil => simp
  | append_singleton ls line ih =>
      rw [List.foldl_append, List.foldl_cons, List.foldl_nil, feedScan]
      generalize ls.foldl feedScan [] = secs at ih ⊢
      cases hname : functionName line with
      | some name =>
          intro s hs
          rcases List.mem_append.mp hs with hs | hs
          · exact ih s hs
          · exact List.mem_singleton.mp hs ▸ hopen line name hname
      | none =>
          rcases List.eq_nil_or_concat secs with rfl | ⟨secs, s, rfl⟩
          · exact ih
          · rw [List.concat_eq_append] at ih ⊢
            cases hscan : scan line with
            | none => simpa using ih
            | some x =>
                simp only [List.append_eq_nil_iff, List.cons_ne_nil, and_false, if_false,
                  Option.elim_some, pushScan_append]
                intro s' hs'
                rcases List.mem_append.mp hs' with hs' | hs'
                · exact ih s' (List.mem_append_left _ hs')
                · have hs := ih s (List.mem_append_right _ List.mem_cons_self)
                  exact List.mem_singleton.mp hs' ▸ hpush s line x hs hscan

theorem exists_scan {sass : Str} {s : Str × List Scan} (hs : s ∈ sections sass) {x : Scan}
    (hx : x ∈ s.2) : ∃ line, scan line = some x := by
  refine forall_sections (P := fun s ↦ ∀ x ∈ s.2, ∃ line, scan line = some x) ?_ ?_ sass s hs x hx
  · simp
  · intro s line x hs hscan y hy
    rcases List.mem_append.mp hy with hy | hy
    · exact hs y hy
    · exact ⟨line, List.mem_singleton.mp hy ▸ hscan⟩

theorem exists_header {sass : Str} {s : Str × List Scan} (hs : s ∈ sections sass) :
    ∃ line, functionName line = some s.1 :=
  forall_sections (P := fun s ↦ ∃ line, functionName line = some s.1)
    (fun line _ h ↦ ⟨line, h⟩) (fun _ _ _ h _ ↦ h) sass s hs

/-! ## The census of the sections -/

/-- Count one scanned line. -/
def tick (full : Bool) (st : CensusState) (x : Scan) : CensusState :=
  match st.current with
  | none => st
  | some idx => { st with counts := st.counts.modify idx fun k ↦ (k.1, k.2.add (opOf full x) 1) }

def countScan (kernel : Pattern) (full : Bool) (st : CensusState) (line : Str) : CensusState :=
  match functionName line with
  | some name => openKernel kernel name st
  | none => (scan line).elim st (tick full st)

/-- The census state behind the sections. -/
def censusState (kernel : Pattern) (full : Bool) (secs : List (Str × List Scan)) : CensusState :=
  secs.foldl (fun st s ↦ s.2.foldl (tick full) (openKernel kernel s.1 st)) ⟨[], none⟩

section Census

variable {kernel : Pattern} {full : Bool}

theorem eq_countScan {line : Str} {st st' : CensusState}
    (h : countLine kernel full st line = .ok st') : st' = countScan kernel full st line := by
  rw [countLine] at h
  rw [countScan]
  cases hname : functionName line with
  | some name =>
      rw [hname] at h
      exact (Exec.pure_eq_ok.mp h).symm
  | none =>
      obtain ⟨counts, current⟩ := st
      rw [hname] at h
      cases current with
      | none =>
          obtain rfl := Exec.pure_eq_ok.mp h
          cases scan line <;> rfl
      | some idx =>
          obtain ⟨x, hx, rfl⟩ := Exec.map_eq_ok.mp h
          have hfits : ¬ OverlongAddress line :=
            mt (scanInstr_spec line).1.mpr (Exec.not_fails.mpr ⟨x, hx⟩)
          rw [(scanInstr_spec line).2 hfits] at hx
          obtain rfl := Except.ok.inj hx
          cases scan line <;> rfl

theorem censusState_append (secs : List (Str × List Scan)) (s : Str × List Scan) :
    censusState kernel full (secs ++ [s]) =
      s.2.foldl (tick full) (openKernel kernel s.1 (censusState kernel full secs)) := by
  rw [censusState, List.foldl_append, ← censusState]
  rfl

/-- The census follows the sections line by line. -/
theorem countScan_censusState (secs : List (Str × List Scan)) (line : Str) :
    countScan kernel full (censusState kernel full secs) line =
      censusState kernel full (feedScan secs line) := by
  rw [countScan, feedScan]
  cases functionName line with
  | some name => rw [censusState_append]; rfl
  | none =>
      rcases List.eq_nil_or_concat secs with rfl | ⟨secs, s, rfl⟩
      · cases scan line <;> rfl
      · cases scan line with
        | none => simp
        | some x => simp [pushScan_append, censusState_append]

/-- A census that returns is the one of the sections. -/
theorem counts_of_ok {sass : Str} {counts : List (Str × Census)}
    (h : censusPerKernel sass kernel full = .ok counts) :
    counts = (censusState kernel full (sections sass)).counts := by
  have hskip : ∀ line, functionName line = none →
      countLine kernel full ⟨[], none⟩ line = .ok ⟨[], none⟩ := by
    intro line hname
    simp [countLine, hname, pure, Except.pure]
  have hfold : ∀ (ls : List Str) (st st' : CensusState),
      ls.foldlM (countLine kernel full) st = .ok st' →
        st' = ls.foldl (countScan kernel full) st := by
    intro ls
    induction ls with
    | nil => exact fun st st' h ↦ (Exec.pure_eq_ok.mp h).symm
    | cons line ls ih =>
        intro st st' h
        rw [List.foldlM_cons] at h
        obtain ⟨st₁, hline, hrest⟩ := Exec.bind_eq_ok.mp h
        obtain rfl := eq_countScan hline
        exact ih _ _ hrest
  have hsections : (bodyLines sass).foldl (countScan kernel full) (censusState kernel full []) =
      censusState kernel full ((bodyLines sass).foldl feedScan []) :=
    List.foldl_hom (censusState kernel full) countScan_censusState
  rw [censusPerKernel, foldlM_bodyLines hskip] at h
  obtain ⟨st, hst, rfl⟩ := Exec.map_eq_ok.mp h
  exact congrArg CensusState.counts ((hfold _ _ _ hst).trans hsections)

theorem censusPerKernel_eq_ok {sass : Str} (h : AddressesFit sass) :
    censusPerKernel sass kernel full = .ok (censusState kernel full (sections sass)).counts := by
  obtain ⟨counts, hcounts⟩ := Exec.not_fails.mp (censusPerKernel_not_fails h kernel full)
  rw [hcounts, counts_of_ok hcounts]

/-- A census with one more of each op. -/
def addAll (c : Census) (ops : List Str) : Census := ops.foldl (fun c op ↦ c.add op 1) c

theorem tick_some {st : CensusState} {idx : ℕ} (h : st.current = some idx) (xs : List Scan) :
    xs.foldl (tick full) st = { st with
      counts := st.counts.modify idx fun k ↦ (k.1, addAll k.2 (xs.map (opOf full))) } := by
  induction xs generalizing st with
  | nil =>
      have hid : (fun k : Str × Census ↦ (k.1, addAll k.2 [])) = id := rfl
      rw [List.foldl_nil, List.map_nil, hid, List.modify_id]
  | cons x xs ih =>
      have htick : tick full st x =
          { st with counts := st.counts.modify idx fun k ↦ (k.1, k.2.add (opOf full x) 1) } := by
        rw [tick, h]
      have hrest := @ih
        { st with counts := st.counts.modify idx fun k ↦ (k.1, k.2.add (opOf full x) 1) } h
      rw [List.foldl_cons, htick, hrest]
      simp only [List.modify_modify_eq]
      rfl

theorem tick_none {st : CensusState} (h : st.current = none) (xs : List Scan) :
    xs.foldl (tick full) st = st := by
  induction xs with
  | nil => rfl
  | cons x xs ih =>
      have htick : tick full st x = st := by rw [tick, h]
      rw [List.foldl_cons, htick, ih]

/-- A section adds its ops to the entry of its name. -/
theorem counts_section (st : CensusState) (s : Str × List Scan) :
    (s.2.foldl (tick full) (openKernel kernel s.1 st)).counts =
      if kernel.isMatch s.1 = true then
        Assoc.alter (fun c ↦ addAll (c.getD .empty) (s.2.map (opOf full))) s.1 st.counts
      else st.counts := by
  rw [openKernel]
  by_cases hmatch : kernel.isMatch s.1 = true
  · simp only [hmatch, Bool.not_true, Bool.false_eq_true, if_false, if_true]
    cases hidx : st.counts.findIdx? (·.1 = s.1) with
    | some idx =>
        rw [tick_some rfl]
        exact Assoc.modify_eq_alter (addAll · (s.2.map (opOf full))) .empty hidx
    | none =>
        rw [tick_some rfl]
        exact Assoc.modify_append_eq_alter (addAll · (s.2.map (opOf full))) .empty hidx
  · simp only [hmatch, Bool.not_false, if_true, Bool.false_eq_true, if_false]
    rw [tick_none rfl]

theorem counts_append (secs : List (Str × List Scan)) (s : Str × List Scan) :
    (censusState kernel full (secs ++ [s])).counts =
      if kernel.isMatch s.1 = true then
        Assoc.alter (fun c ↦ addAll (c.getD .empty) (s.2.map (opOf full))) s.1
          (censusState kernel full secs).counts
      else (censusState kernel full secs).counts := by
  rw [censusState_append, counts_section]

theorem nodup_keys_counts (secs : List (Str × List Scan)) :
    (Assoc.keys (censusState kernel full secs).counts).Nodup := by
  induction secs using List.reverseRecOn with
  | nil => exact List.nodup_nil
  | append_singleton secs s ih =>
      rw [counts_append]
      split
      · exact Assoc.nodup_keys_alter _ _ ih
      · exact ih

/-- The ops of the sections of one name. -/
def opsOf (full : Bool) (secs : List (Str × List Scan)) (name : Str) : List Str :=
  ((secs.filter (·.1 = name)).flatMap (·.2)).map (opOf full)

theorem opsOf_append (secs : List (Str × List Scan)) (s : Str × List Scan) (name : Str) :
    opsOf full (secs ++ [s]) name =
      opsOf full secs name ++ if s.1 = name then s.2.map (opOf full) else [] := by
  rw [opsOf, List.filter_append, List.flatMap_append, List.map_append, ← opsOf]
  by_cases hname : s.1 = name
  · simp [hname]
  · simp [hname]

theorem opsOf_eq_nil {secs : List (Str × List Scan)} {name : Str} (h : name ∉ Assoc.keys secs) :
    opsOf full secs name = [] := by
  have hfilter : secs.filter (·.1 = name) = [] := by
    rw [List.filter_eq_nil_iff]
    intro s hs hname
    exact h (of_decide_eq_true hname ▸ Assoc.mem_keys_of_mem hs)
  rw [opsOf, hfilter]
  rfl

/-- The entry of a name in the census. -/
theorem lookup_counts (secs : List (Str × List Scan)) (name : Str) :
    (censusState kernel full secs).counts.lookup name =
      if kernel.isMatch name = true ∧ name ∈ Assoc.keys secs then
        some (addAll .empty (opsOf full secs name))
      else none := by
  induction secs using List.reverseRecOn with
  | nil => simp [censusState]
  | append_singleton secs s ih =>
      have hkeys : name ∈ Assoc.keys (secs ++ [s]) ↔ name ∈ Assoc.keys secs ∨ s.1 = name := by
        rw [Assoc.keys_append, List.mem_append]
        exact or_congr_right (List.mem_singleton.trans eq_comm)
      rw [counts_append, opsOf_append]
      simp only [hkeys]
      by_cases hname : s.1 = name
      · subst hname
        by_cases hmatch : kernel.isMatch s.1 = true
        · have hold : ((censusState kernel full secs).counts.lookup s.1).getD .empty =
              addAll .empty (opsOf full secs s.1) := by
            rw [ih]
            by_cases hmem : s.1 ∈ Assoc.keys secs
            · rw [if_pos ⟨hmatch, hmem⟩, Option.getD_some]
            · rw [if_neg (fun h ↦ hmem h.2), opsOf_eq_nil hmem]
              rfl
          rw [if_pos hmatch, Assoc.lookup_alter_self, hold, if_pos ⟨hmatch, Or.inr rfl⟩, if_pos rfl]
          exact congrArg some (List.foldl_append ..).symm
        · rw [if_neg hmatch, ih, if_neg (fun h ↦ hmatch h.1), if_neg (fun h ↦ hmatch h.1)]
      · have hskip : (if kernel.isMatch s.1 = true then
            Assoc.alter (fun c ↦ addAll (c.getD .empty) (s.2.map (opOf full))) s.1
              (censusState kernel full secs).counts
            else (censusState kernel full secs).counts).lookup name =
            (censusState kernel full secs).counts.lookup name := by
          split
          · exact Assoc.lookup_alter_of_ne _ (Ne.symm hname) _
          · rfl
        rw [hskip, ih, if_neg hname, List.append_nil]
        simp only [hname, or_false]

theorem of_mem_counts {secs : List (Str × List Scan)} {k : Str × Census}
    (h : k ∈ (censusState kernel full secs).counts) :
    k.1 ∈ Assoc.keys secs ∧ k.2 = addAll .empty (opsOf full secs k.1) := by
  have hlookup := Assoc.lookup_of_mem (nodup_keys_counts secs) h
  rw [lookup_counts] at hlookup
  split at hlookup
  · next hand => exact ⟨hand.2, (Option.some.inj hlookup).symm⟩
  · cases hlookup

theorem mem_keys_counts {secs : List (Str × List Scan)} {name : Str} :
    name ∈ Assoc.keys (censusState kernel full secs).counts ↔
      kernel.isMatch name = true ∧ name ∈ Assoc.keys secs := by
  rw [← Assoc.lookup_isSome, lookup_counts]
  split
  · next hand => exact iff_of_true rfl hand
  · next hand => exact iff_of_false (by simp) hand

end Census

/-! ## Counts -/

namespace Census

def count (c : Census) (op : Str) : ℕ := (c.items.lookup op).getD 0

/-- The counts of the mnemonics of a base, summed over their suffixes. -/
def baseCount (c : Census) (base : Str) : ℕ :=
  tally (c.items.map fun e ↦ (baseOf e.1, e.2)) base

theorem count_add (c : Census) (op op' : Str) (n : ℕ) :
    (c.add op n).count op' = c.count op' + if op = op' then n else 0 := by
  by_cases h : op = op'
  · subst h
    rw [count, add, Assoc.lookup_alter_self, if_pos rfl]
    rfl
  · rw [count, add, Assoc.lookup_alter_of_ne _ (Ne.symm h), if_neg h]
    rfl

end Census

theorem count_addAll (c : Census) (ops : List Str) (op : Str) :
    (addAll c ops).count op = c.count op + ops.count op := by
  induction ops generalizing c with
  | nil => rfl
  | cons o ops ih =>
      have hcons : addAll c (o :: ops) = addAll (c.add o 1) ops := rfl
      rw [hcons, ih, Census.count_add, List.count_cons]
      simp only [beq_iff_eq]
      omega

theorem baseCount_addAll (c : Census) (ops : List Str) (base : Str) :
    (addAll c ops).baseCount base = c.baseCount base + (ops.map baseOf).count base := by
  induction ops generalizing c with
  | nil => rfl
  | cons o ops ih =>
      have hcons : addAll c (o :: ops) = addAll (c.add o 1) ops := rfl
      have hadd : (c.add o 1).baseCount base = c.baseCount base + if baseOf o = base then 1 else 0 :=
        tally_map_alter_add baseOf o 1 c.items base
      rw [hcons, ih, hadd, List.map_cons, List.count_cons]
      simp only [beq_iff_eq]
      omega

/-! ## One line in both readers -/

theorem isWhitespace_of_isBlank {c : Char} (h : isBlank c = true) : isWhitespace c = true := by
  simp only [isBlank, Bool.or_eq_true, Bool.and_eq_true, decide_eq_true_eq] at h
  simp only [isWhitespace, Bool.or_eq_true, Bool.and_eq_true, decide_eq_true_eq]
  rcases h with rfl | h
  · decide
  · simp [h]

theorem isMnemonicChar_bounds {c : Char} (h : isMnemonicChar c = true) :
    46 ≤ c.toNat ∧ c.toNat ≤ 90 ∧ c.toNat ≠ 64 := by
  simp only [isMnemonicChar, Bool.or_eq_true, decide_eq_true_eq] at h
  rcases h with (h | h) | rfl
  · have hupper := isUpper_bounds h
    omega
  · simp only [Char.isDigit, Bool.and_eq_true, decide_eq_true_eq] at h
    have hlow : 48 ≤ c.toNat := h.1
    have hhigh : c.toNat ≤ 57 := h.2
    omega
  · decide

theorem not_isWhitespace_of_isMnemonicChar {c : Char} (h : isMnemonicChar c = true) :
    isWhitespace c = false := by
  have hbounds := isMnemonicChar_bounds h
  simp only [isWhitespace]
  grind

theorem IsMnemonic.all {mnemonic : Str} (h : IsMnemonic mnemonic) :
    ∀ c ∈ mnemonic, isMnemonicChar c = true := by
  obtain ⟨hc, hall⟩ := h
  intro d hd
  rcases List.mem_cons.mp hd with rfl | hd
  · simp [isMnemonicChar, hc]
  · exact hall d hd

theorem baseOf_eq (mnemonic : Str) : baseOf mnemonic = mnemonic.takeWhile (· ≠ '.') := by
  rw [baseOf]
  by_cases hdot : '.' ∈ mnemonic
  · obtain ⟨s, t, rfl, hs⟩ := List.eq_append_cons_of_mem hdot
    have hall : ∀ c ∈ s, decide (c ≠ '.') = true :=
      fun c hc ↦ decide_eq_true fun heq ↦ hs (heq ▸ hc)
    rw [List.splitOn_append_cons_self_of_not_mem hs, List.takeWhile_append_of_pos hall]
    simp
  · have hall : ∀ c ∈ mnemonic, decide (c ≠ '.') = true :=
      fun c hc ↦ decide_eq_true fun heq ↦ hdot (heq ▸ hc)
    rw [List.splitOn_eq_singleton hdot, List.takeWhile_eq_self_iff.mpr hall]
    rfl

/-- What follows a mnemonic is in no base. -/
theorem baseOf_append {mnemonic t : Str} (hstop : Stops isMnemonicChar t)
    (hbase : ∀ c ∈ baseOf (mnemonic ++ t), c.isUpper = true ∨ c.isDigit = true) :
    baseOf (mnemonic ++ t) = baseOf mnemonic := by
  by_cases hdot : ∀ c ∈ mnemonic, decide (c ≠ '.') = true
  · cases t with
    | nil => rw [List.append_nil]
    | cons d t =>
        have hd : isMnemonicChar d = false := hstop d rfl
        have hne : d ≠ '.' := by
          rintro rfl
          cases hd
        have hmem : d ∈ baseOf (mnemonic ++ d :: t) := by
          rw [baseOf_eq, List.takeWhile_append_of_pos hdot]
          simp [hne]
        rcases hbase d hmem with h | h
        · simp [isMnemonicChar, h] at hd
        · simp [isMnemonicChar, h] at hd
  · obtain ⟨s, u, rfl, hs⟩ : ∃ s u, mnemonic = s ++ '.' :: u ∧ '.' ∉ s := by
      apply List.eq_append_cons_of_mem
      simpa using hdot
    rw [List.append_assoc, List.cons_append, baseOf, baseOf,
      List.splitOn_append_cons_self_of_not_mem hs, List.splitOn_append_cons_self_of_not_mem hs]
    rfl

/-- The words of an instruction text behind its predicate. -/
theorem splitWhitespace_mnemonic {mnemonic : Str} (h : IsMnemonic mnemonic) (rest : Str) :
    splitWhitespace (mnemonic ++ rest) = (mnemonic ++ rest.takeWhile (!isWhitespace ·)) ::
      splitWhitespace (rest.dropWhile (!isWhitespace ·)) := by
  have hall := h.all
  obtain @⟨c, s, -, -⟩ := h
  have hc := not_isWhitespace_of_isMnemonicChar (hall c List.mem_cons_self)
  have hs : ∀ d ∈ s, (!isWhitespace d) = true := fun d hd ↦ by
    rw [not_isWhitespace_of_isMnemonicChar (hall d (List.mem_cons_of_mem c hd))]
    rfl
  rw [List.cons_append, splitWhitespace_cons hc, List.takeWhile_append_of_pos hs,
    List.dropWhile_append_of_pos hs]
  rfl

/-- A predicate is one word and the white space behind it. -/
theorem IsPredicate.eq_nil_or_word {predicate : Str} (h : IsPredicate predicate) :
    predicate = [] ∨ ∃ w gap, predicate = '@' :: (w ++ gap) ∧ Run isBlank gap ∧
      (∀ c ∈ w, isWhitespace c = false) ∧ ';' ∉ w := by
  cases h with
  | absent => exact Or.inl rfl
  | @present negation digits gap hneg hdigits hgap =>
      refine Or.inr ⟨negation ++ 'P' :: digits, gap, by simp, hgap, ?_, ?_⟩
      · intro c hc
        rcases List.mem_append.mp hc with hc | hc
        · rcases hneg with rfl | rfl
          · cases hc
          · rw [List.mem_singleton.mp hc]
            decide
        · rcases List.mem_cons.mp hc with rfl | hc
          · decide
          · exact isWhitespace_of_isDigit (hdigits.all c hc)
      · intro hc
        rcases List.mem_append.mp hc with hc | hc
        · rcases hneg with rfl | rfl
          · cases hc
          · exact absurd (List.mem_singleton.mp hc) (by decide)
        · rcases List.mem_cons.mp hc with hc | hc
          · exact absurd hc (by decide)
          · exact absurd (hdigits.all _ hc) (by decide)

section Line

variable {predicate mnemonic : Str} (hp : IsPredicate predicate) (hm : IsMnemonic mnemonic)

include hp hm

/-- The word that a reader takes: behind the predicate, if there is one. -/
theorem words_instruction (rest : Str) :
    ∃ words, splitWhitespace (mnemonic ++ rest) =
      (mnemonic ++ rest.takeWhile (!isWhitespace ·)) :: words ∧
      ((predicate = [] ∧ (predicate ++ (mnemonic ++ rest)).head? ≠ some '@') ∨
        ((predicate ++ (mnemonic ++ rest)).head? = some '@' ∧
          ∃ w, splitWhitespace (predicate ++ (mnemonic ++ rest)) =
            w :: splitWhitespace (mnemonic ++ rest))) := by
  refine ⟨_, splitWhitespace_mnemonic hm rest, ?_⟩
  rcases hp.eq_nil_or_word with rfl | ⟨w, gap, rfl, hgap, hw, -⟩
  · refine Or.inl ⟨rfl, ?_⟩
    obtain ⟨hc, -⟩ := hm
    rintro ⟨⟩
    cases hc
  · refine Or.inr ⟨rfl, '@' :: w, ?_⟩
    have hword : splitWhitespace ('@' :: w) = ['@' :: w] := by
      apply splitWhitespace_word (List.cons_ne_nil _ _)
      intro c hc
      rcases List.mem_cons.mp hc with rfl | hc
      · decide
      · exact hw c hc
    have hsplit : '@' :: (w ++ gap) ++ (mnemonic ++ rest) =
        ('@' :: w) ++ (gap ++ (mnemonic ++ rest)) := by
      simp
    rw [hsplit, splitWhitespace_append_gap hgap.ne_nil fun c hc ↦
      isWhitespace_of_isBlank (hgap.all c hc), hword]
    rfl

/-- The scanner's span gives the mnemonic. -/
theorem opOf_eq (full : Bool) (addr : ℕ) (after : Str) :
    opOf full ⟨addr, predicate ++ (mnemonic ++ after), predicate ++ mnemonic⟩ =
      if full = true then mnemonic else baseOf mnemonic := by
  obtain ⟨words, hwords, hcase⟩ := words_instruction hp hm []
  have hone : splitWhitespace mnemonic = [mnemonic] := by
    have hall := hm.all
    obtain @⟨c, s, -, -⟩ := hm
    exact splitWhitespace_word (List.cons_ne_nil _ _) fun d hd ↦
      not_isWhitespace_of_isMnemonicChar (hall d hd)
  rw [List.append_nil] at hcase
  simp only [opOf]
  rcases hcase with ⟨rfl, hhead⟩ | ⟨hhead, w, hsplit⟩
  · rw [if_neg hhead, List.nil_append]
  · rw [if_pos hhead, hsplit, hone]
    rfl

theorem semicolon_not_mem : ∀ c ∈ predicate ++ mnemonic, decide (c ≠ ';') = true := by
  intro c hc
  apply decide_eq_true
  rintro rfl
  rcases List.mem_append.mp hc with hc | hc
  · rcases hp.eq_nil_or_word with rfl | ⟨w, gap, rfl, hgap, -, hw⟩
    · cases hc
    · rcases List.mem_cons.mp hc with hc | hc
      · exact absurd hc (by decide)
      · rcases List.mem_append.mp hc with hc | hc
        · exact hw hc
        · exact absurd (hgap.all _ hc) (by decide)
  · exact absurd (hm.all _ hc) (by decide)

/-- The words of the text give the mnemonic and what clings to it. -/
theorem base_instrOf (addr : ℕ) (after span : Str) :
    (instrOf ⟨addr, predicate ++ (mnemonic ++ after), span⟩).base =
      baseOf (mnemonic ++ (after.takeWhile (· ≠ ';')).takeWhile (!isWhitespace ·)) := by
  obtain ⟨words, hwords, hcase⟩ := words_instruction hp hm (after.takeWhile (· ≠ ';'))
  have htext : (predicate ++ (mnemonic ++ after)).takeWhile (· ≠ ';') =
      predicate ++ (mnemonic ++ after.takeWhile (· ≠ ';')) := by
    rw [← List.append_assoc, List.takeWhile_append_of_pos (semicolon_not_mem hp hm),
      List.append_assoc]
  have hblank : ∀ c ∈ (predicate ++ (mnemonic ++ after.takeWhile (· ≠ ';'))).head?,
      isWhitespace c = false := by
    intro c hc
    rcases hcase with ⟨rfl, -⟩ | ⟨hhead, -⟩
    · have hall := hm.all
      obtain @⟨d, s, -, -⟩ := hm
      obtain rfl : d = c := Option.some.inj hc
      exact not_isWhitespace_of_isMnemonicChar (hall d List.mem_cons_self)
    · rw [hhead] at hc
      obtain rfl : '@' = c := Option.some.inj hc
      decide
  simp only [instrOf]
  rw [htext, head?_trim hblank, splitWhitespace_trim hblank]
  rcases hcase with ⟨rfl, hhead⟩ | ⟨hhead, w, hsplit⟩
  · rw [if_neg hhead, List.nil_append, hwords]
    rfl
  · rw [if_pos hhead, hsplit, hwords]
    rfl

end Line

/-- A base of upper-case letters and digits is the same in both readers. -/
theorem opOf_false_eq_base {line : Str} {x : Scan} (h : scan line = some x)
    (hbase : ∀ c ∈ (instrOf x).base, c.isUpper = true ∨ c.isDigit = true) :
    opOf false x = (instrOf x).base := by
  obtain ⟨-, s, -, hs, -⟩ := scan_eq_some_iff.mp h
  obtain ⟨hex, gap, predicate, mnemonic, after, -, -, hp, hm, hstop, -, rfl⟩ :=
    scanHere_eq_some_iff.mp hs
  rw [base_instrOf hp hm] at hbase ⊢
  rw [opOf_eq hp hm]
  exact (baseOf_append ((hstop.takeWhile _).takeWhile _) hbase).symm

/-! ## The agreement -/

/-- The instructions of a base over all functions of a kind of name. -/
def total (fs : List (Str × List Instr)) (p : Str → Bool) (base : Str) : ℕ :=
  ((fs.filter fun f ↦ p f.1).flatMap (·.2)).countP (·.base = base)

theorem total_cons (f : Str × List Instr) (fs : List (Str × List Instr)) (p : Str → Bool)
    (base : Str) : total (f :: fs) p base =
      (if p f.1 = true then f.2.countP (·.base = base) else 0) + total fs p base := by
  rw [total, total, List.filter_cons]
  split
  · rw [List.flatMap_cons, List.countP_append]
  · rw [Nat.zero_add]

section Agreement

variable {kernel : Pattern} {secs : List (Str × List Scan)}

/-- Both readers take the same base of every line. -/
def SameBases (secs : List (Str × List Scan)) : Prop :=
  ∀ s ∈ secs, ∀ x ∈ s.2, opOf false x = (instrOf x).base

theorem count_opsOf (h : SameBases secs) (name base : Str) :
    (opsOf false secs name).count base = total (instrs secs) (· = name) base := by
  induction secs with
  | nil => rfl
  | cons s secs ih =>
      have hsec : (s.2.map (opOf false)).count base =
          (s.2.map instrOf).countP (·.base = base) := by
        rw [List.count_eq_countP, List.countP_map, List.countP_map]
        apply List.countP_congr
        intro x hx
        simp [h s List.mem_cons_self x hx]
      have hcons : opsOf false (s :: secs) name =
          (if s.1 = name then s.2.map (opOf false) else []) ++ opsOf false secs name := by
        rw [opsOf, List.filter_cons]
        by_cases hname : s.1 = name
        · simp [hname, opsOf]
        · simp [hname, opsOf]
      have hinstrs : instrs (s :: secs) = (s.1, s.2.map instrOf) :: instrs secs := rfl
      have hrest := ih fun s hs ↦ h s (List.mem_cons_of_mem _ hs)
      rw [hcons, hinstrs, total_cons, List.count_append, hrest]
      by_cases hname : s.1 = name
      · simp [hname, hsec]
      · simp [hname]

theorem opsOf_true_map_baseOf (name : Str) :
    (opsOf true secs name).map baseOf = opsOf false secs name := by
  rw [opsOf, opsOf, List.map_map]
  rfl

theorem nodup_keys_addAll {c : Census} (h : (Assoc.keys c.items).Nodup) (ops : List Str) :
    (Assoc.keys (addAll c ops).items).Nodup := by
  induction ops generalizing c with
  | nil => exact h
  | cons op ops ih => exact ih (c := c.add op 1) (Assoc.nodup_keys_alter _ _ h)

theorem nodup_keys_of_mem_counts {full : Bool} {k : Str × Census}
    (h : k ∈ (censusState kernel full secs).counts) : (Assoc.keys k.2.items).Nodup := by
  rw [(of_mem_counts h).2]
  exact nodup_keys_addAll (c := .empty) List.nodup_nil _

/-- What the census of a text, by base and whole, has in common with its
functions. -/
structure CountsAgree (kernel : Pattern) (fs : List (Str × List Instr))
    (counts fullCounts : List (Str × Census)) : Prop where
  kernels : ∀ name, (counts.lookup name).isSome = true ↔
    kernel.isMatch name = true ∧ name ∈ Assoc.keys fs
  distinct : (Assoc.keys counts).Nodup ∧ ∀ k ∈ counts, (Assoc.keys k.2.items).Nodup
  base : ∀ name, kernel.isMatch name = true →
    ∀ op, ((counts.lookup name).getD .empty).count op = total fs (· = name) op
  full : ∀ name, kernel.isMatch name = true →
    ∀ op, ((fullCounts.lookup name).getD .empty).baseCount op = total fs (· = name) op

theorem getD_lookup_counts {full : Bool} {name : Str} (h : kernel.isMatch name = true) :
    ((censusState kernel full secs).counts.lookup name).getD .empty =
      addAll .empty (opsOf full secs name) := by
  rw [lookup_counts]
  by_cases hmem : name ∈ Assoc.keys secs
  · rw [if_pos ⟨h, hmem⟩, Option.getD_some]
  · rw [if_neg fun hand ↦ hmem hand.2, opsOf_eq_nil hmem]
    rfl

theorem keys_instrs (secs : List (Str × List Scan)) :
    Assoc.keys (instrs secs) = Assoc.keys secs := by
  rw [Assoc.keys, instrs, List.map_map]
  rfl

theorem countsAgree (h : SameBases secs) :
    CountsAgree kernel (instrs secs) (censusState kernel false secs).counts
      (censusState kernel true secs).counts := by
  refine ⟨fun name ↦ ?_, ⟨nodup_keys_counts secs, fun k ↦ nodup_keys_of_mem_counts⟩,
    fun name hmatch op ↦ ?_, fun name hmatch op ↦ ?_⟩
  · rw [Assoc.lookup_isSome, mem_keys_counts, keys_instrs]
  · rw [getD_lookup_counts hmatch, count_addAll, count_opsOf h]
    exact Nat.zero_add _
  · rw [getD_lookup_counts hmatch, baseCount_addAll, opsOf_true_map_baseOf, count_opsOf h]
    exact Nat.zero_add _

end Agreement

/-! ## The hot loops -/

theorem slice_sublist {xs body : List Instr} {lo hi : ℕ} (h : slice xs lo hi = .ok body) :
    body.Sublist xs := by
  rw [slice] at h
  split at h
  · obtain rfl := Exec.pure_eq_ok.mp h
    exact (List.take_sublist _ _).trans (List.drop_sublist _ _)
  · exact absurd h Exec.panic_ne_ok

theorem mixFunction_count {kernel : Pattern} {mix mix' : Census × ℕ} {f : Str × List Instr}
    (h : mixFunction kernel mix f = .ok mix') (op : Str) :
    mix'.1.count op ≤ mix.1.count op +
      if kernel.isMatch f.1 = true then f.2.countP (·.base = op) else 0 := by
  rw [mixFunction] at h
  by_cases hmatch : kernel.isMatch f.1 = true
  · rw [hmatch, Bool.not_true, if_neg Bool.false_ne_true] at h
    obtain ⟨best, -, h⟩ := Exec.bind_eq_ok.mp h
    cases best with
    | none =>
        obtain rfl := Exec.pure_eq_ok.mp h
        exact Nat.le_add_right _ _
    | some c =>
        obtain ⟨body, hbody, h⟩ := Exec.bind_eq_ok.mp h
        obtain rfl := Exec.pure_eq_ok.mp h
        have hadd : body.foldl (fun c x ↦ c.add x.base 1) mix.1 =
            addAll mix.1 (body.map (·.base)) := by
          rw [addAll, List.foldl_map]
        have hcount : (body.map (·.base)).count op = body.countP (·.base = op) := by
          rw [List.count_eq_countP, List.countP_map]
          apply List.countP_congr
          simp
        rw [hadd, count_addAll, hcount, if_pos hmatch]
        exact Nat.add_le_add_left ((slice_sublist hbody).countP_le) _
  · rw [if_pos (by simp [hmatch])] at h
    obtain rfl := Exec.pure_eq_ok.mp h
    exact Nat.le_add_right _ _

theorem foldlM_mixFunction_count {kernel : Pattern} {fs : List (Str × List Instr)} (op : Str) :
    ∀ {mix mix' : Census × ℕ}, fs.foldlM (mixFunction kernel) mix = .ok mix' →
      mix'.1.count op ≤ mix.1.count op + total fs kernel.isMatch op := by
  induction fs with
  | nil =>
      intro mix mix' h
      obtain rfl := Exec.pure_eq_ok.mp h
      exact Nat.le_add_right _ _
  | cons f fs ih =>
      intro mix mix' h
      rw [List.foldlM_cons] at h
      obtain ⟨mix₁, hf, hfs⟩ := Exec.bind_eq_ok.mp h
      have hstep := mixFunction_count hf op
      have hrest := ih hfs
      rw [total_cons]
      omega

/-- The two readers of a text count the same instructions, and the loops hold
no more of them. -/
theorem readers_agree (sass : Str) (kernel : Pattern) (haddr : AddressesFit sass)
    (hsorted : ∀ f ∈ functions sass, f.2.Pairwise (·.addr < ·.addr))
    (hbase : ∀ f ∈ functions sass, ∀ x ∈ f.2, ∀ c ∈ x.base,
      c.isUpper = true ∨ c.isDigit = true) :
    ∃ fs counts fullCounts, parseFunctions sass = .ok fs ∧
      censusPerKernel sass kernel false = .ok counts ∧
      censusPerKernel sass kernel true = .ok fullCounts ∧
      CountsAgree kernel fs counts fullCounts ∧
      (∀ mix, loopMix sass kernel = .ok mix →
        ∀ op, mix.1.count op ≤ total fs kernel.isMatch op) ∧
      ((∀ f ∈ fs, ∀ x ∈ f.2, x.base = "BRA" → ShortTargets x.text) →
        ∃ mix, loopMix sass kernel = .ok mix) := by
  have hparse := parseFunctions_eq_ok haddr
  have hsame : SameBases (sections sass) := by
    intro s hs x hx
    obtain ⟨line, hline⟩ := exists_scan hs hx
    exact opOf_false_eq_base hline (hbase _ (mem_functions hs) _ (List.mem_map_of_mem hx))
  refine ⟨functions sass, _, _, hparse, censusPerKernel_eq_ok haddr, censusPerKernel_eq_ok haddr,
    ?_, fun mix hmix op ↦ ?_, fun htargets ↦ ?_⟩
  · rw [functions_eq_sections]
    exact countsAgree hsame
  · rw [loopMix, hparse] at hmix
    have hle := foldlM_mixFunction_count op hmix
    have hzero : Census.empty.count op = 0 := rfl
    rwa [hzero, Nat.zero_add] at hle
  · apply Exec.not_fails.mp
    apply loopMix_not_fails haddr
    intro f hf
    have ht : TargetsFit f.2 := fun x hx hbra _ ht ↦ (htargets f hf x hx hbra).target_lt ht
    exact ⟨ht, fun c hc ↦ ((mem_loops_iff (hsorted f hf) ht).mp hc).1.le⟩

/-- A predicated loop and a suffixed mnemonic. -/
def loopText : Str :=
  "Function : k\n/*0000*/ FFMA.FTZ R0, R0;\n/*0010*/ @!P0 FFMA R1;\n/*0020*/ @P0 BRA 0x0;"

def loopInstrs : List Instr :=
  [⟨0x0, "FFMA", "FFMA.FTZ R0, R0"⟩, ⟨0x10, "FFMA", "@!P0 FFMA R1"⟩,
    ⟨0x20, "BRA", "@P0 BRA 0x0"⟩]

theorem parseFunctions_loopText : parseFunctions loopText = .ok [("k", loopInstrs)] := by
  decide +kernel

theorem readers_agree_loop :
    ∃ fs counts fullCounts, parseFunctions loopText = .ok fs ∧
      censusPerKernel loopText (Pattern.new "k") false = .ok counts ∧
      censusPerKernel loopText (Pattern.new "k") true = .ok fullCounts ∧
      CountsAgree (Pattern.new "k") fs counts fullCounts ∧
      (∀ mix, loopMix loopText (Pattern.new "k") = .ok mix →
        ∀ op, mix.1.count op ≤ total fs (Pattern.new "k").isMatch op) ∧
      ((∀ f ∈ fs, ∀ x ∈ f.2, x.base = "BRA" → ShortTargets x.text) →
        ∃ mix, loopMix loopText (Pattern.new "k") = .ok mix) := by
  obtain ⟨haddr, hfunctions⟩ := of_parseFunctions_eq_ok parseFunctions_loopText
  apply readers_agree loopText (Pattern.new "k") haddr
  · rw [hfunctions]
    intro f hf
    obtain rfl := List.mem_singleton.mp hf
    decide
  · rw [hfunctions]
    intro f hf
    obtain rfl := List.mem_singleton.mp hf
    have hbases : (loopInstrs.all fun x ↦ x.base.all fun c ↦ c.isUpper || c.isDigit) = true := by
      decide
    simpa using hbases

end CalxMill.Nvidia
