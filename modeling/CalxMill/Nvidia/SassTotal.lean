import CalxMill.Nvidia.Check

/-!
# When the SASS pipeline returns

A reading of the same text without machine words, and the exact conditions
under which the pipeline follows it to the end: the addresses and branch
targets that it reads fit in `u64`, no backward branch finds its target
address on a later instruction first, and the judged bodies have a size.
-/

namespace CalxMill.Nvidia

open Lib Rust

/-! ## Addresses -/

/-- The instruction of a line, whatever the size of its address. -/
def scan : Str → Option Scan
  | '/' :: '*' :: s =>
      match comment s with
      | none => scan s
      | some (hex, body) =>
          match scanOp body with
          | some (tail, span) => some ⟨hexValue hex, tail, span⟩
          | none => scan s
  | _ :: s => scan s
  | [] => none

/-- A comment opens in the line, with `s` behind the opening. -/
def Opens (s line : Str) : Prop := '/' :: '*' :: s <:+ line

/-- An address of more than 64 bits, with no instruction in front of it. -/
def OverlongAddress (line : Str) : Prop :=
  ∃ s hex body, Opens s line ∧ comment s = some (hex, body) ∧ 2 ^ 64 ≤ hexValue hex ∧
    ∀ s' hex' body', Opens s' line → s.length < s'.length → comment s' = some (hex', body') →
      scanOp body' = none

theorem opens_comment {s t : Str} : Opens s ('/' :: '*' :: t) ↔ s = t ∨ Opens s t := by
  unfold Opens
  rw [List.suffix_cons_iff, List.suffix_cons_iff]
  simp

theorem opens_cons {c : Char} {s line : Str} (h : ∀ t, c :: line ≠ '/' :: '*' :: t) :
    Opens s (c :: line) ↔ Opens s line := by
  rw [Opens]
  rw [List.suffix_cons_iff]
  exact or_iff_right fun heq ↦ h s heq.symm

theorem Opens.length_lt {s line : Str} (h : Opens s line) : s.length < line.length := by
  have hle := h.length_le
  simp only [List.length_cons] at hle
  omega

theorem fromHex_fails {hex : Str} : (fromHex hex).Fails ↔ 2 ^ 64 ≤ hexValue hex := by
  rw [fromHex]
  split
  · next h => exact iff_of_false (Exec.fails_ok _) (Nat.not_le_of_lt h)
  · next h => exact iff_of_true ⟨_, rfl⟩ (Nat.le_of_not_lt h)

theorem fromHex_eq_ok {hex : Str} (h : hexValue hex < 2 ^ 64) :
    fromHex hex = .ok (hexValue hex) := if_pos h

theorem hexDigitValue_lt {c : Char} (h : isHexDigit c = true) : hexDigitValue c < 16 := by
  simp only [isHexDigit, Bool.or_eq_true, Bool.and_eq_true, decide_eq_true_eq] at h
  rw [hexDigitValue]
  split
  · next hdigit =>
      obtain ⟨-, hle⟩ := by simpa [Char.isDigit, Bool.and_eq_true] using hdigit
      have hle : c.toNat ≤ 57 := hle
      omega
  · next hdigit =>
      obtain ⟨-, hle⟩ := h.resolve_left hdigit
      have hle : c.toNat ≤ 102 := hle
      omega

/-- Sixteen hexadecimal digits fit in a word. -/
theorem hexValue_lt {hex : Str} (h : ∀ c ∈ hex, isHexDigit c = true) :
    hexValue hex < 16 ^ hex.length := by
  induction hex using List.reverseRecOn with
  | nil => exact Nat.one_pos
  | append_singleton hex c ih =>
      have hdigit := hexDigitValue_lt (h c (by simp))
      have hlt := ih fun d hd ↦ h d (by simp [hd])
      have happend : hexValue (hex ++ [c]) = 16 * hexValue hex + hexDigitValue c :=
        List.foldl_append ..
      rw [happend, List.length_append, List.length_singleton, Nat.pow_succ]
      omega

theorem hexValue_lt_word {hex : Str} (h : ∀ c ∈ hex, isHexDigit c = true)
    (hlen : hex.length ≤ 16) : hexValue hex < 2 ^ 64 :=
  (hexValue_lt h).trans_le ((Nat.pow_le_pow_right (by decide) hlen).trans (by decide))

theorem not_overlongAddress_nil : ¬ OverlongAddress [] := by
  rintro ⟨s, -, -, h, -⟩
  have := h.length_lt
  simp at this

theorem overlongAddress_cons {c : Char} {line : Str} (h : ∀ t, c :: line ≠ '/' :: '*' :: t) :
    OverlongAddress (c :: line) ↔ OverlongAddress line := by
  simp only [OverlongAddress, opens_cons h]

theorem overlongAddress_comment {t : Str} :
    OverlongAddress ('/' :: '*' :: t) ↔
      (∃ hex body, comment t = some (hex, body) ∧ 2 ^ 64 ≤ hexValue hex) ∨
      ((∀ hex body, comment t = some (hex, body) → scanOp body = none) ∧ OverlongAddress t) := by
  constructor
  · rintro ⟨s, hex, body, hs, hc, hlong, hfirst⟩
    rcases opens_comment.mp hs with rfl | hs
    · exact Or.inl ⟨hex, body, hc, hlong⟩
    · refine Or.inr ⟨fun hex' body' ↦ ?_, s, hex, body, hs, hc, hlong, fun s' hex' body' hs' ↦ ?_⟩
      · exact hfirst t hex' body' (opens_comment.mpr (Or.inl rfl)) hs.length_lt
      · exact hfirst s' hex' body' (opens_comment.mpr (Or.inr hs'))
  · rintro (⟨hex, body, hc, hlong⟩ | ⟨hnone, s, hex, body, hs, hc, hlong, hfirst⟩)
    · refine ⟨t, hex, body, opens_comment.mpr (Or.inl rfl), hc, hlong, ?_⟩
      intro s' hex' body' hs' hlt
      rcases opens_comment.mp hs' with rfl | hs'
      · omega
      · have := hs'.length_lt
        omega
    · refine ⟨s, hex, body, opens_comment.mpr (Or.inr hs), hc, hlong, ?_⟩
      intro s' hex' body' hs' hlt hc'
      rcases opens_comment.mp hs' with rfl | hs'
      · exact hnone hex' body' hc'
      · exact hfirst s' hex' body' hs' hlt hc'

/-- The scanner follows the reading up to an overlong address. -/
theorem scanInstr_spec (line : Str) :
    ((scanInstr line).Fails ↔ OverlongAddress line) ∧
      (¬ OverlongAddress line → scanInstr line = .ok (scan line)) := by
  fun_induction scan line with
  | case1 s hc ih =>
      have hlong : OverlongAddress ('/' :: '*' :: s) ↔ OverlongAddress s := by
        simp [overlongAddress_comment, hc]
      rw [scanInstr, hc, hlong]
      exact ih
  | case2 s hex body hc tail span hop =>
      have hlong : OverlongAddress ('/' :: '*' :: s) ↔ 2 ^ 64 ≤ hexValue hex := by
        simp [overlongAddress_comment, hc, hop]
      rw [scanInstr, hc, hlong]
      simp only [Exec.fails_bind, fromHex_fails, hop]
      refine ⟨by simp, fun h ↦ ?_⟩
      rw [fromHex_eq_ok (by omega)]
      rfl
  | case3 s hex body hc hop ih =>
      have hlong : OverlongAddress ('/' :: '*' :: s) ↔
          2 ^ 64 ≤ hexValue hex ∨ OverlongAddress s := by
        simp [overlongAddress_comment, hc, hop]
      rw [scanInstr, hc, hlong]
      simp only [hop, Exec.fails_bind, fromHex_fails, ih.1, exists_and_right]
      constructor
      · by_cases h : 2 ^ 64 ≤ hexValue hex
        · exact iff_of_true (Or.inl h) (Or.inl h)
        · have hok := fromHex_eq_ok (Nat.lt_of_not_le h)
          simp only [h, hok, false_or, Except.ok.injEq, exists_eq', true_and]
      · intro h
        rw [fromHex_eq_ok (by omega)]
        exact ih.2 (fun h' ↦ h (Or.inr h'))
  | case4 c s h ih =>
      have hne : ∀ t, c :: s ≠ '/' :: '*' :: t := by
        intro t heq
        obtain ⟨hc, hs⟩ := List.cons.inj heq
        exact h t hc hs
      rw [scanInstr.eq_2 _ _ h, overlongAddress_cons hne]
      exact ih
  | case5 => exact ⟨by simp [scanInstr, not_overlongAddress_nil], fun _ ↦ rfl⟩

/-! ## Functions -/

/-- What a line adds to the functions read so far. -/
def feed (out : List (Str × List Instr)) (line : Str) : List (Str × List Instr) :=
  match functionName line with
  | some name => out ++ [(name, [])]
  | none => if out = [] then out else (scan line).elim out fun s ↦ pushInstr out (instrOf s)

/-- The functions of a disassembly, whatever the size of its addresses. -/
def functions (sass : Str) : List (Str × List Instr) := (lines sass).foldl feed []

/-- The text from the first function header on. -/
def bodyLines (sass : Str) : List Str := (lines sass).dropWhile fun l ↦ (functionName l).isNone

/-- No instruction line has an overlong address. -/
def AddressesFit (sass : Str) : Prop :=
  ∀ line ∈ bodyLines sass, functionName line = none → ¬ OverlongAddress line

/-- Lines in front of the first header leave a reader's first state alone. -/
theorem foldlM_bodyLines {α : Type} {step : α → Str → Exec Str α} {init : α}
    (h : ∀ line, functionName line = none → step init line = .ok init) (sass : Str) :
    (lines sass).foldlM step init = (bodyLines sass).foldlM step init := by
  rw [bodyLines]
  induction lines sass with
  | nil => rfl
  | cons line ls ih =>
      cases hname : functionName line with
      | none => simpa [hname, h line hname, bind, Except.bind] using ih
      | some name => simp [hname]

theorem bodyLines_cases (sass : Str) :
    bodyLines sass = [] ∨
      ∃ header name rest, bodyLines sass = header :: rest ∧ functionName header = some name := by
  have hhead := List.head?_dropWhile_not (fun l ↦ (functionName l).isNone) (lines sass)
  cases h : bodyLines sass with
  | nil => exact Or.inl rfl
  | cons header rest =>
      rw [bodyLines] at h
      rw [h] at hhead
      obtain ⟨name, hname⟩ := Option.isSome_iff_exists.mp (Option.isNone_eq_false_iff.mp hhead)
      exact Or.inr ⟨header, name, rest, rfl, hname⟩

theorem pushInstr_ne_nil {out : List (Str × List Instr)} (h : out ≠ []) (x : Instr) :
    pushInstr out x ≠ [] := by
  simp [pushInstr, List.getLast?_eq_some_getLast h]

theorem feed_ne_nil {out : List (Str × List Instr)} (h : out ≠ []) (line : Str) :
    feed out line ≠ [] := by
  rw [feed]
  cases functionName line with
  | some name => simp
  | none =>
      cases scan line with
      | none => simp [h]
      | some s => simpa [h] using pushInstr_ne_nil h (instrOf s)

theorem parseLine_fails {out : List (Str × List Instr)} (hout : out ≠ []) {line : Str} :
    (parseLine out line).Fails ↔ functionName line = none ∧ OverlongAddress line := by
  rw [parseLine]
  cases functionName line with
  | some name => simp
  | none => simp [hout, (scanInstr_spec line).1]

theorem parseLine_eq_ok {out : List (Str × List Instr)} {line : Str}
    (h : functionName line = none → ¬ OverlongAddress line) :
    parseLine out line = .ok (feed out line) := by
  rw [parseLine, feed]
  cases hname : functionName line with
  | some name => rfl
  | none =>
      by_cases hout : out = []
      · simp [hout, pure, Except.pure]
      · simp only [hout, if_false]
        rw [(scanInstr_spec line).2 (h hname)]
        rfl

theorem functions_eq (sass : Str) : functions sass = (bodyLines sass).foldl feed [] := by
  rw [functions, bodyLines]
  induction lines sass with
  | nil => rfl
  | cons line ls ih =>
      cases hname : functionName line with
      | none =>
          have hfeed : feed [] line = [] := by simp [feed, hname]
          simpa [hname, hfeed] using ih
      | some name => simp [hname]

theorem parseFunctions_eq_ok {sass : Str} (h : AddressesFit sass) :
    parseFunctions sass = .ok (functions sass) := by
  have hskip : ∀ line, functionName line = none → parseLine [] line = .ok [] := by
    intro line hname
    simp [parseLine, hname, pure, Except.pure]
  rw [parseFunctions, foldlM_bodyLines hskip, functions_eq]
  exact Exec.foldlM_eq_foldl (fun _ ↦ True)
    (fun out line hline _ ↦ ⟨parseLine_eq_ok (h line hline), trivial⟩) [] trivial

theorem parseFunctions_fails {sass : Str} :
    (parseFunctions sass).Fails ↔ ¬ AddressesFit sass := by
  have hskip : ∀ line, functionName line = none → parseLine [] line = .ok [] := by
    intro line hname
    simp [parseLine, hname, pure, Except.pure]
  have hnot : ¬ AddressesFit sass ↔
      ∃ line ∈ bodyLines sass, functionName line = none ∧ OverlongAddress line := by
    simp [AddressesFit]
  rw [hnot, parseFunctions, foldlM_bodyLines hskip]
  rcases bodyLines_cases sass with h | ⟨header, name, rest, h, hname⟩
  · simp [h]
  · rw [h, List.foldlM_cons]
    have hheader : parseLine [] header = .ok [(name, [])] := by
      simp [parseLine, hname, pure, Except.pure]
    have hkeep : ∀ out, ∀ line ∈ rest, ∀ out', out ≠ [] → parseLine out line = .ok out' →
        out' ≠ [] := by
      intro out line _ out' hout hok
      have hfit : functionName line = none → ¬ OverlongAddress line := by
        intro hnone hlong
        have hfails := (parseLine_fails hout).mpr ⟨hnone, hlong⟩
        rw [hok] at hfails
        exact Exec.fails_ok _ hfails
      rw [parseLine_eq_ok hfit, Except.ok.injEq] at hok
      exact hok ▸ feed_ne_nil hout line
    have hstep : ∀ out, ∀ line ∈ rest, out ≠ [] →
        ((parseLine out line).Fails ↔ functionName line = none ∧ OverlongAddress line) :=
      fun out line _ hout ↦ parseLine_fails hout
    have hrest := Exec.foldlM_fails (· ≠ []) hstep hkeep [(name, [])] (by simp)
    rw [hheader]
    simpa [hname, bind, Except.bind] using hrest

theorem of_parseFunctions_eq_ok {sass : Str} {fs : List (Str × List Instr)}
    (h : parseFunctions sass = .ok fs) : AddressesFit sass ∧ functions sass = fs := by
  have hfit : AddressesFit sass := by
    by_contra hfit
    exact Exec.fails_ok fs (h ▸ parseFunctions_fails.mpr hfit)
  exact ⟨hfit, Except.ok.inj ((parseFunctions_eq_ok hfit).symm.trans h)⟩

/-! ## Counting over the lines -/

theorem countLine_not_fails {kernel : Pattern} {full : Bool} {line : Str}
    (h : functionName line = none → ¬ OverlongAddress line) (st : CensusState) :
    ¬ (countLine kernel full st line).Fails := by
  rw [countLine]
  cases hname : functionName line with
  | some name => simp
  | none =>
      cases st.current with
      | none => simp
      | some idx => simpa using mt (scanInstr_spec line).1.mp (h hname)

theorem censusPerKernel_not_fails {sass : Str} (h : AddressesFit sass) (kernel : Pattern)
    (full : Bool) : ¬ (censusPerKernel sass kernel full).Fails := by
  have hskip : ∀ line, functionName line = none →
      countLine kernel full ⟨[], none⟩ line = .ok ⟨[], none⟩ := by
    intro line hname
    simp [countLine, hname, pure, Except.pure]
  rw [censusPerKernel, foldlM_bodyLines hskip, Exec.fails_map]
  have hstep : ∀ st, ∀ line ∈ bodyLines sass, True →
      ((countLine kernel full st line).Fails ↔ False) := by
    intro st line hline _
    exact iff_false_intro (countLine_not_fails (h line hline) st)
  rw [Exec.foldlM_fails (fun _ ↦ True) hstep (fun _ _ _ _ _ _ ↦ trivial) _ trivial]
  simp

/-! ## The hot loop -/

/-- The branch target in an instruction text, whatever its size. -/
def target : Str → Option ℕ
  | 'B' :: 'R' :: 'A' :: s =>
      match targetDigits s with
      | some hex => some (hexValue hex)
      | none => target s
  | _ :: s => target s
  | [] => none

theorem braTarget_spec (text : Str) :
    ((braTarget text).Fails ↔ ∃ t, target text = some t ∧ 2 ^ 64 ≤ t) ∧
      ((∀ t, target text = some t → t < 2 ^ 64) → braTarget text = .ok (target text)) := by
  fun_induction target text with
  | case1 s hex hd =>
      rw [braTarget, hd]
      simp only [Exec.fails_map, fromHex_fails, Option.some.injEq, exists_eq_left', forall_eq',
        true_and]
      intro h
      rw [fromHex_eq_ok h]
      rfl
  | case2 s hd ih =>
      rw [braTarget, hd]
      exact ih
  | case3 c s h ih =>
      rw [braTarget.eq_2 _ _ h]
      exact ih
  | case4 => exact ⟨by simp [braTarget], fun _ ↦ rfl⟩

/-- Every branch target fits in a word. -/
def TargetsFit (instrs : List Instr) : Prop :=
  ∀ x ∈ instrs, x.base = "BRA" → ∀ t, target x.text = some t → t < 2 ^ 64

/-- The first instruction at the target of a branch to a smaller address. -/
def backwardIndex (instrs : List Instr) (x : Instr) : Option ℕ :=
  if x.base ≠ "BRA" then none else
  (target x.text).bind fun t ↦ if x.addr ≤ t then none else instrs.findIdx? (·.addr = t)

/-- The loops of a function, each from its target's index to its branch's. -/
def loops (instrs : List Instr) : List (ℕ × ℕ) :=
  instrs.zipIdx.filterMap fun x ↦ (backwardIndex instrs x.1).map (·, x.2)

def width (c : ℕ × ℕ) : ℕ := c.2 - c.1

theorem mem_loops_iff_backwardIndex {instrs : List Instr} {j i : ℕ} :
    (j, i) ∈ loops instrs ↔ ∃ x, instrs[i]? = some x ∧ backwardIndex instrs x = some j := by
  rw [loops, List.mem_filterMap]
  constructor
  · rintro ⟨⟨x, i'⟩, hx, hmap⟩
    obtain ⟨j', hj, heq⟩ := Option.map_eq_some_iff.mp hmap
    obtain ⟨rfl, rfl⟩ := Prod.mk.inj heq
    exact ⟨x, List.mk_mem_zipIdx_iff_getElem?.mp hx, hj⟩
  · rintro ⟨x, hx, hj⟩
    exact ⟨(x, i), List.mk_mem_zipIdx_iff_getElem?.mpr hx, Option.map_eq_some_iff.mpr ⟨j, hj, rfl⟩⟩

theorem backwardIndex_eq_some_iff {instrs : List Instr} {x : Instr} {j : ℕ} :
    backwardIndex instrs x = some j ↔ x.base = "BRA" ∧ ∃ t, target x.text = some t ∧
      t < x.addr ∧ instrs.findIdx? (·.addr = t) = some j := by
  simp only [backwardIndex, Option.ite_none_left_eq_some, Option.bind_eq_some_iff, not_not,
    Nat.not_le]

/-- No loop starts behind its branch. -/
def NoForwardLoop (instrs : List Instr) : Prop := ∀ c ∈ loops instrs, c.1 ≤ c.2

theorem backward_eq_ok {instrs : List Instr} {x : Instr}
    (h : x.base = "BRA" → ∀ t, target x.text = some t → t < 2 ^ 64) :
    backward instrs x = .ok (backwardIndex instrs x) := by
  rw [backward, backwardIndex]
  by_cases hbase : x.base = "BRA"
  · simp only [hbase, ne_eq, not_true, if_false]
    rw [(braTarget_spec x.text).2 (h hbase)]
    rfl
  · simp only [hbase, ne_eq, not_false_iff, if_true]
    rfl

theorem backward_fails {instrs : List Instr} {x : Instr} {t : ℕ} (hbase : x.base = "BRA")
    (ht : target x.text = some t) (hlong : 2 ^ 64 ≤ t) : (backward instrs x).Fails := by
  simpa [backward, hbase, (braTarget_spec x.text).1] using ⟨t, ht, hlong⟩

/-- With fitting targets the locator runs over the loops alone. -/
theorem hotLoop_eq {instrs : List Instr} (h : TargetsFit instrs) :
    hotLoop instrs = (loops instrs).foldlM (fun best c ↦ widen best c.1 c.2) none := by
  have hmem : ∀ x ∈ instrs.zipIdx, x.1 ∈ instrs := fun x hx ↦ List.fst_mem_of_mem_zipIdx hx
  rw [hotLoop, loops]
  generalize (none : Option (ℕ × ℕ)) = best
  revert hmem best
  induction instrs.zipIdx with
  | nil => exact fun _ _ ↦ rfl
  | cons x xs ih =>
      intro hmem best
      have ih' := ih fun y hy ↦ hmem y (List.mem_cons_of_mem _ hy)
      have hback : backward instrs x.1 = .ok (backwardIndex instrs x.1) :=
        backward_eq_ok (h x.1 (hmem x List.mem_cons_self))
      rw [List.foldlM_cons, hback, List.filterMap_cons]
      cases backwardIndex instrs x.1 with
      | none => exact ih' best
      | some j =>
          simp only [Option.map_some, List.foldlM_cons]
          apply congrArg (widen best j x.2 >>= ·)
          funext best'
          exact ih' best'

theorem widen_eq_ok {b c : ℕ × ℕ} {best : Option (ℕ × ℕ)} :
    widen (some b) c.1 c.2 = .ok best ↔
      b.1 ≤ b.2 ∧ c.1 ≤ c.2 ∧ (if width b < width c then some c else some b) = best := by
  unfold widen checkedSub width
  by_cases hc : c.1 ≤ c.2
  · by_cases hb : b.1 ≤ b.2
    · simp [hc, hb, bind, Except.bind, pure, Except.pure]
    · simp [hc, hb, bind, Except.bind, pure, Except.pure, Exec.panic]
  · simp [hc, bind, Except.bind, Exec.panic]

/-- Loops that all start in front of their branch are compared by width. -/
theorem foldlM_widen_eq_ok {cs : List (ℕ × ℕ)} (h : ∀ c ∈ cs, c.1 ≤ c.2) :
    cs.foldlM (fun best c ↦ widen best c.1 c.2) none = .ok (cs.argmax width) := by
  refine Exec.foldlM_eq_foldl (fun best ↦ ∀ b, best = some b → b.1 ≤ b.2) ?_ none (by simp)
  intro best c hc hbest
  cases best with
  | none => exact ⟨rfl, fun b hb ↦ Option.some.inj hb ▸ h c hc⟩
  | some b =>
      refine ⟨widen_eq_ok.mpr ⟨hbest b rfl, h c hc, rfl⟩, fun b' hb' ↦ ?_⟩
      simp only [List.argAux] at hb'
      split at hb'
      · exact Option.some.inj hb' ▸ h c hc
      · exact Option.some.inj hb' ▸ hbest b rfl

/-- A comparison of two loops returns only when both have a width. -/
theorem forall_le_of_foldlM_widen {cs : List (ℕ × ℕ)} (hne : cs ≠ []) :
    ∀ {b : ℕ × ℕ} {best : Option (ℕ × ℕ)},
      cs.foldlM (fun best c ↦ widen best c.1 c.2) (some b) = .ok best →
        b.1 ≤ b.2 ∧ ∀ c ∈ cs, c.1 ≤ c.2 := by
  induction cs with
  | nil => exact absurd rfl hne
  | cons c cs ih =>
      intro b best h
      rw [List.foldlM_cons] at h
      obtain ⟨best', hbest', hrest⟩ := Exec.bind_eq_ok.mp h
      obtain ⟨hb, hc, heq⟩ := widen_eq_ok.mp hbest'
      refine ⟨hb, fun c' hc' ↦ ?_⟩
      rcases List.mem_cons.mp hc' with rfl | hc'
      · exact hc
      · obtain ⟨b', rfl⟩ : ∃ b', best' = some b' := by
          rw [← heq]
          split
          · exact ⟨c, rfl⟩
          · exact ⟨b, rfl⟩
        exact (ih (List.ne_nil_of_mem hc') hrest).2 c' hc'

theorem hotLoop_eq_ok {instrs : List Instr} (ht : TargetsFit instrs) (hl : NoForwardLoop instrs) :
    hotLoop instrs = .ok ((loops instrs).argmax width) := by
  rw [hotLoop_eq ht]
  exact foldlM_widen_eq_ok hl

/-- The locator returns a body, or none, exactly when the targets fit and no
loop starts behind its branch. -/
theorem hotLoop_returns_iff {instrs : List Instr} :
    (∃ best, hotLoop instrs = .ok best ∧ ∀ c, best = some c → c.1 ≤ c.2) ↔
      TargetsFit instrs ∧ NoForwardLoop instrs := by
  constructor
  · rintro ⟨best, hbest, hle⟩
    have ht : TargetsFit instrs := by
      intro x hx hbase t ht
      by_contra hlong
      obtain ⟨i, hi⟩ := List.mem_iff_getElem?.mp hx
      have hfails : (hotLoop instrs).Fails := by
        refine Exec.foldlM_fails_of_mem (List.mk_mem_zipIdx_iff_getElem?.mpr hi) (fun b ↦ ?_) none
        rw [Exec.fails_bind]
        exact Or.inl (backward_fails hbase ht (by omega))
      exact Exec.not_fails.mpr ⟨best, hbest⟩ hfails
    refine ⟨ht, ?_⟩
    rw [hotLoop_eq ht] at hbest
    rw [NoForwardLoop]
    cases hcs : loops instrs with
    | nil => simp
    | cons c cs =>
        rw [hcs, List.foldlM_cons] at hbest
        by_cases hnil : cs = []
        · rw [hnil] at hbest
          have hc : best = some c := (Except.ok.inj hbest).symm
          simpa [hnil] using hle c hc
        · obtain ⟨hc, hrest⟩ := forall_le_of_foldlM_widen hnil hbest
          simpa using ⟨hc, fun a b h ↦ hrest (a, b) h⟩
  · rintro ⟨ht, hl⟩
    refine ⟨_, hotLoop_eq_ok ht hl, fun c hc ↦ hl c ?_⟩
    exact List.argmax_mem hc

/-- What a loop is: a branch, and its target at a smaller address. -/
theorem mem_loops {instrs : List Instr} {j i : ℕ} (h : (j, i) ∈ loops instrs) :
    ∃ x y, instrs[j]? = some x ∧ instrs[i]? = some y ∧ x.addr < y.addr := by
  obtain ⟨y, hy, hback⟩ := mem_loops_iff_backwardIndex.mp h
  obtain ⟨-, t, -, hlt, hfind⟩ := backwardIndex_eq_some_iff.mp hback
  obtain ⟨hlen, haddr, -⟩ := List.findIdx?_eq_some_iff_getElem.mp hfind
  obtain rfl := of_decide_eq_true haddr
  exact ⟨instrs[j], y, List.getElem?_eq_getElem hlen, hy, hlt⟩

/-! ## Bodies and their sizes -/

theorem slice_eq_ok {instrs : List Instr} {lo hi : ℕ} {x y : Instr} (hle : lo ≤ hi)
    (hx : instrs[lo]? = some x) (hy : instrs[hi]? = some y) :
    ∃ body, slice instrs lo hi = .ok body ∧ body.head? = some x ∧ body.getLast? = some y := by
  obtain ⟨hlt, -⟩ := List.getElem?_eq_some_iff.mp hy
  refine ⟨(instrs.drop lo).take (hi + 1 - lo), if_pos ⟨by omega, hlt⟩, ?_, ?_⟩
  · have hpos : hi + 1 - lo ≠ 0 := by omega
    rw [List.head?_take, if_neg hpos, List.head?_drop, hx]
  · have hpos : hi + 1 - lo ≠ 0 := by omega
    have hidx : lo + (hi + 1 - lo - 1) = hi := by omega
    rw [List.getLast?_take, if_neg hpos, List.getElem?_drop, hidx, hy]
    rfl

/-- The widest loop body has a size that fits in a word. -/
def SpanFits (instrs : List Instr) : Prop :=
  ∀ c ∈ (loops instrs).argmax width, ∀ x y, instrs[c.1]? = some x → instrs[c.2]? = some y →
    y.addr - x.addr + 16 < 2 ^ 64

theorem bodySize_fails {body : List Instr} {x y : Instr} (hx : body.head? = some x)
    (hy : body.getLast? = some y) (hlt : x.addr < y.addr) :
    (bodySize body).Fails ↔ 2 ^ 64 ≤ y.addr - x.addr + 16 := by
  have hsub : checkedSub y.addr x.addr = .ok (y.addr - x.addr) := if_pos hlt.le
  simp only [bodySize, hx, hy, Exec.expect_some, hsub, bind, Except.bind]
  split
  · next h => exact iff_of_false (Exec.fails_pure _) (Nat.not_le_of_lt h)
  · next h => exact iff_of_true ⟨_, rfl⟩ (Nat.le_of_not_lt h)

theorem spanFits_iff {instrs : List Instr} {lo hi : ℕ} {x y : Instr}
    (hbest : (loops instrs).argmax width = some (lo, hi)) (hx : instrs[lo]? = some x)
    (hy : instrs[hi]? = some y) : SpanFits instrs ↔ y.addr - x.addr + 16 < 2 ^ 64 := by
  constructor
  · exact fun h ↦ h (lo, hi) hbest x y hx hy
  · intro h c hc x' y' hx' hy'
    obtain rfl : (lo, hi) = c := Option.some.inj (hbest.symm.trans hc)
    obtain rfl : x = x' := Option.some.inj (hx.symm.trans hx')
    obtain rfl : y = y' := Option.some.inj (hy.symm.trans hy')
    exact h

theorem judge_fails {opts : GateOpts} {case : GateCase} {instrs : List Instr}
    (ht : TargetsFit instrs) (hl : NoForwardLoop instrs) :
    (judge opts case instrs).Fails ↔ ¬ SpanFits instrs := by
  rw [judge]
  rw [hotLoop_eq_ok ht hl]
  cases hbest : (loops instrs).argmax width with
  | none => simp [bind, Except.bind, SpanFits, hbest]
  | some c =>
      obtain ⟨lo, hi⟩ := c
      have hmem : (lo, hi) ∈ loops instrs := List.argmax_mem hbest
      obtain ⟨x, y, hx, hy, hlt⟩ := mem_loops hmem
      obtain ⟨body, hbody, hhead, hlast⟩ := slice_eq_ok (hl _ hmem) hx hy
      have hsize := bodySize_fails hhead hlast hlt
      rw [spanFits_iff hbest hx hy, Nat.not_lt, ← hsize]
      simp [hbody]

theorem mixFunction_not_fails {f : Str × List Instr} (ht : TargetsFit f.2)
    (hl : NoForwardLoop f.2) (kernel : Pattern) (mix : Census × ℕ) :
    ¬ (mixFunction kernel mix f).Fails := by
  rw [mixFunction]
  split
  · simp
  · rw [hotLoop_eq_ok ht hl]
    cases hbest : (loops f.2).argmax width with
    | none => simp [bind, Except.bind]
    | some c =>
        obtain ⟨lo, hi⟩ := c
        have hmem : (lo, hi) ∈ loops f.2 := List.argmax_mem hbest
        obtain ⟨x, y, hx, hy, -⟩ := mem_loops hmem
        obtain ⟨body, hbody, -, -⟩ := slice_eq_ok (hl _ hmem) hx hy
        simp [bind, Except.bind, hbody]

theorem loopMix_not_fails {sass : Str} (h : AddressesFit sass)
    (hloop : ∀ f ∈ functions sass, TargetsFit f.2 ∧ NoForwardLoop f.2) (kernel : Pattern) :
    ¬ (loopMix sass kernel).Fails := by
  have hstep : ∀ mix, ∀ f ∈ functions sass, True →
      ((mixFunction kernel mix f).Fails ↔ False) := by
    intro mix f hf _
    exact iff_false_intro (mixFunction_not_fails (hloop f hf).1 (hloop f hf).2 kernel mix)
  have hfold := Exec.foldlM_fails (fun _ ↦ True) hstep (fun _ _ _ _ _ _ ↦ trivial)
    (Census.empty, 0) trivial
  rw [loopMix, parseFunctions_eq_ok h]
  simpa [bind, Except.bind] using hfold

/-! ## The purity gate -/

def selected (opts : GateOpts) (f : Str × List Instr) : Bool := (gateCase opts f.1).isSome

section Step

variable {opts : GateOpts} {st st' : GateState} {f : Str × List Instr} {case : GateCase}

/-- One for a judged function. -/
def weight (opts : GateOpts) (f : Str × List Instr) : ℕ := if selected opts f then 1 else 0

theorem sum_weight (opts : GateOpts) (fs : List (Str × List Instr)) :
    (fs.map (weight opts)).sum = (fs.filter (selected opts)).length := by
  induction fs with
  | nil => rfl
  | cons f fs ih =>
      rw [List.map_cons, List.sum_cons, ih, List.filter_cons, weight]
      split
      · rw [List.length_cons, Nat.add_comm]
      · rw [Nat.zero_add]

/-- A judged function is counted once, as checked and at most once as failed. -/
theorem checkFunction_eq_ok (h : checkFunction opts st f = .ok st')
    (hle : st.failures ≤ st.checked) :
    st'.failures ≤ st'.checked ∧ st'.checked = st.checked + weight opts f := by
  rw [weight, selected]
  cases hcase : gateCase opts f.1 with
  | none =>
      simp only [checkFunction, hcase] at h
      obtain rfl := Exec.pure_eq_ok.mp h
      exact ⟨hle, rfl⟩
  | some case =>
      simp only [checkFunction, hcase] at h
      obtain ⟨checked, hchecked, h⟩ := Exec.bind_eq_ok.mp h
      obtain ⟨⟨failed, line⟩, -, h⟩ := Exec.bind_eq_ok.mp h
      obtain ⟨failures, hfailures, h⟩ := Exec.bind_eq_ok.mp h
      obtain rfl := Exec.pure_eq_ok.mp h
      obtain ⟨-, rfl⟩ := checked_eq_ok.mp hchecked
      obtain ⟨-, rfl⟩ := checked_eq_ok.mp hfailures
      refine ⟨?_, rfl⟩
      cases failed <;> simp <;> omega

theorem checkFunction_fails (ht : TargetsFit f.2) (hl : NoForwardLoop f.2)
    (hle : st.failures ≤ st.checked) (hlt : st.checked < 2 ^ 32) :
    (checkFunction opts st f).Fails ↔
      (selected opts f = true ∧ ¬ SpanFits f.2) ∨ 2 ^ 32 ≤ st.checked + weight opts f := by
  rw [weight, selected]
  cases hcase : gateCase opts f.1 with
  | none =>
      simp only [checkFunction, hcase, Exec.fails_pure, false_iff]
      rintro (⟨h, -⟩ | h)
      · cases h
      · exact Nat.not_le_of_lt hlt h
  | some case =>
      have hjudge : (judge opts case f.2).Fails ↔ ¬ SpanFits f.2 := judge_fails ht hl
      simp only [checkFunction, hcase, addU32, Option.isSome_some, true_and, if_true]
      by_cases hcount : 2 ^ 32 ≤ st.checked + 1
      · exact iff_of_true (Exec.fails_bind.mpr (Or.inl (checked_fails.mpr hcount))) (Or.inr hcount)
      · have hchecked : checked 32 "add" (st.checked + 1) = .ok (st.checked + 1) :=
          checked_eq_ok.mpr ⟨Nat.lt_of_not_le hcount, rfl⟩
        -- the failures are fewer than the functions checked, so they do not overflow
        have hfailures (failed : Bool) :
            ¬ 2 ^ 32 ≤ st.failures + if failed then 1 else 0 := by
          cases failed <;> simp <;> omega
        simp only [hchecked, Exec.fails_bind, Exec.fails_ok, Except.ok.injEq, hjudge,
          checked_fails, Exec.fails_pure, hfailures, hcount, and_false, exists_false, or_false,
          false_or, exists_eq_left']

end Step

/-- The gate over the functions fails on a judged body without a size, or when
it has judged more functions than its counter holds. -/
theorem checkFunctions_fails {opts : GateOpts} {fs : List (Str × List Instr)}
    (hloop : ∀ f ∈ fs, TargetsFit f.2 ∧ NoForwardLoop f.2) :
    (fs.foldlM (checkFunction opts) ⟨[], 0, 0⟩).Fails ↔
      (∃ f ∈ fs, selected opts f = true ∧ ¬ SpanFits f.2) ∨
        2 ^ 32 ≤ (fs.filter (selected opts)).length := by
  have h : (fs.foldlM (checkFunction opts) ⟨[], 0, 0⟩).Fails ↔
      (∃ f ∈ fs, selected opts f = true ∧ ¬ SpanFits f.2) ∨
        2 ^ 32 ≤ 0 + (fs.map (weight opts)).sum :=
    Exec.foldlM_fails_counted (fun st ↦ st.failures ≤ st.checked) GateState.checked (weight opts)
      (fun st f hf hle hlt ↦ checkFunction_fails (hloop f hf).1 (hloop f hf).2 hle hlt)
      (fun st f _ st' hle h ↦ checkFunction_eq_ok h hle) ⟨[], 0, 0⟩ le_rfl (Nat.two_pow_pos 32)
  rwa [Nat.zero_add, sum_weight] at h

/-! ## The pipeline -/

/-- The four readers return on this text, and every hot loop of its functions
is a pair of indices in order. -/
structure Returns (basename sass : Str) (kernel : Pattern) (opts : GateOpts) : Prop where
  parsed : ∃ fs, parseFunctions sass = .ok fs ∧ ∀ f ∈ fs, ∃ best, hotLoop f.2 = .ok best ∧
    ∀ lo hi, best = some (lo, hi) → lo ≤ hi ∧ hi < f.2.length
  census : ∀ full, ∃ counts, censusPerKernel sass kernel full = .ok counts
  mix : ∃ mix, loopMix sass kernel = .ok mix
  checked : ∃ report, check basename sass opts = .ok report

/-- The condition on the text; the last two items are about the kernels that
the gate judges. -/
structure WellAddressed (basename sass : Str) (opts : GateOpts) : Prop where
  addresses : AddressesFit sass
  targets : ∀ f ∈ functions sass, TargetsFit f.2
  loops : ∀ f ∈ functions sass, NoForwardLoop f.2
  spans : basename ∉ exemptBinaries.map (·.1) →
    ∀ f ∈ functions sass, selected opts f = true → SpanFits f.2
  count : basename ∉ exemptBinaries.map (·.1) →
    ((functions sass).filter (selected opts)).length < 2 ^ 32

theorem check_fails {basename sass : Str} {opts : GateOpts} (h : AddressesFit sass)
    (hloop : ∀ f ∈ functions sass, TargetsFit f.2 ∧ NoForwardLoop f.2) :
    (check basename sass opts).Fails ↔
      basename ∉ exemptBinaries.map (·.1) ∧
        ((∃ f ∈ functions sass, selected opts f = true ∧ ¬ SpanFits f.2) ∨
          2 ^ 32 ≤ ((functions sass).filter (selected opts)).length) := by
  rw [check]
  cases hexempt : exemptBinaries.find? (·.1 = basename) with
  | some e =>
      obtain ⟨b, reason⟩ := e
      obtain ⟨hmem, hname⟩ := Assoc.find?_key_eq_some hexempt
      have hin : basename ∈ exemptBinaries.map (·.1) := hname ▸ List.mem_map_of_mem hmem
      simp [hin]
  | none =>
      have hout : basename ∉ exemptBinaries.map (·.1) := by
        intro hin
        obtain ⟨e, he, hname⟩ := List.mem_map.mp hin
        simpa [hname] using List.find?_eq_none.mp hexempt e he
      have hfold : (List.foldlM (checkFunction opts) ⟨[], 0, 0⟩ (functions sass)).Fails ↔ _ :=
        checkFunctions_fails hloop
      simp only [hout, not_false_iff, true_and]
      rw [parseFunctions_eq_ok h, Exec.fails_bind]
      constructor
      · rintro (hbad | ⟨fs, hfs, hbad⟩)
        · exact absurd hbad (Exec.fails_ok _)
        · obtain rfl := Except.ok.inj hfs
          rcases Exec.fails_bind.mp hbad with hbad | ⟨st, -, hbad⟩
          · exact hfold.mp hbad
          · split at hbad <;> exact absurd hbad (Exec.fails_pure _)
      · intro hbad
        exact Or.inr ⟨_, rfl, Exec.fails_bind.mpr (Or.inl (hfold.mpr hbad))⟩

/-- The pipeline returns on a text exactly when its addresses and branch
targets fit, no loop starts behind its branch, and the judged bodies have a
size and a number. -/
theorem returns_iff (basename sass : Str) (kernel : Pattern) (opts : GateOpts) :
    Returns basename sass kernel opts ↔ WellAddressed basename sass opts := by
  constructor
  · intro h
    obtain ⟨fs, hfs, hloops⟩ := h.parsed
    have ha : AddressesFit sass := by
      by_contra hbad
      exact Exec.not_fails.mpr ⟨fs, hfs⟩ (parseFunctions_fails.mpr hbad)
    obtain rfl : functions sass = fs := Except.ok.inj ((parseFunctions_eq_ok ha).symm.trans hfs)
    have hloop : ∀ f ∈ functions sass, TargetsFit f.2 ∧ NoForwardLoop f.2 := by
      intro f hf
      obtain ⟨best, hbest, hle⟩ := hloops f hf
      exact hotLoop_returns_iff.mp ⟨best, hbest, fun c hc ↦ (hle c.1 c.2 hc).1⟩
    have hcheck := Exec.not_fails.mpr h.checked
    rw [check_fails ha hloop] at hcheck
    simp only [not_and, not_or, not_exists, not_not, Nat.not_le] at hcheck
    refine ⟨ha, fun f hf ↦ (hloop f hf).1, fun f hf ↦ (hloop f hf).2, ?_, ?_⟩
    · exact fun hout f hf hsel ↦ (hcheck hout).1 f hf hsel
    · exact fun hout ↦ (hcheck hout).2
  · intro h
    have hloop : ∀ f ∈ functions sass, TargetsFit f.2 ∧ NoForwardLoop f.2 :=
      fun f hf ↦ ⟨h.targets f hf, h.loops f hf⟩
    refine ⟨⟨_, parseFunctions_eq_ok h.addresses, fun f hf ↦ ?_⟩, fun full ↦ ?_, ?_, ?_⟩
    · refine ⟨_, hotLoop_eq_ok (h.targets f hf) (h.loops f hf), fun lo hi hbest ↦ ?_⟩
      have hmem : (lo, hi) ∈ Nvidia.loops f.2 := List.argmax_mem hbest
      obtain ⟨-, y, -, hy, -⟩ := mem_loops hmem
      exact ⟨h.loops f hf _ hmem, (List.getElem?_eq_some_iff.mp hy).1⟩
    · exact Exec.not_fails.mp (censusPerKernel_not_fails h.addresses kernel full)
    · exact Exec.not_fails.mp (loopMix_not_fails h.addresses hloop kernel)
    · apply Exec.not_fails.mp
      intro hbad
      obtain ⟨hout, ⟨f, hf, hsel, hspan⟩ | hcount⟩ := (check_fails h.addresses hloop).mp hbad
      · exact hspan (h.spans hout f hf hsel)
      · exact Nat.not_le_of_lt (h.count hout) hcount

/-- A line with an address of 17 hexadecimal digits. -/
def longAddress : Str := "Function : k\n/*10000000000000000*/ NOP;"

/-- A branch that comes before the instruction it goes back to. -/
def forwardLoop : Str := "Function : k\n/*20*/ BRA 0x10;\n/*10*/ NOP;"

theorem not_returns :
    ¬ Returns [] longAddress (Pattern.new "k") ⟨64, 8192, 6⟩ ∧
      ¬ Returns [] forwardLoop (Pattern.new "k") ⟨64, 8192, 6⟩ := by
  constructor
  · intro h
    obtain ⟨fs, hfs, -⟩ := h.parsed
    have hpanic : parseFunctions longAddress = .error (.panic "hex digits parse") := by
      decide +kernel
    rw [hpanic] at hfs
    cases hfs
  · intro h
    obtain ⟨fs, hfs, hloops⟩ := h.parsed
    have hparse : parseFunctions forwardLoop =
        .ok [("k", [⟨0x20, "BRA", "BRA 0x10"⟩, ⟨0x10, "NOP", "NOP"⟩])] := by
      decide +kernel
    obtain rfl := Except.ok.inj (hparse.symm.trans hfs)
    obtain ⟨best, hbest, hle⟩ := hloops _ List.mem_cons_self
    have hloop : hotLoop [⟨0x20, "BRA", "BRA 0x10"⟩, ⟨0x10, "NOP", "NOP"⟩] =
        .ok (some (1, 0)) := by
      decide +kernel
    obtain rfl := Except.ok.inj (hloop.symm.trans hbest)
    exact absurd (hle 1 0 rfl).1 (by decide)

end CalxMill.Nvidia
