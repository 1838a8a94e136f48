import CalxMill.Nvidia.SassTotal

/-!
# Mix kernels at the gate

A mix kernel is judged by one count over the union of its ops' primary lists.
A kernel that passes holds enough instructions of that union; each op that is
not in its loop is made up for by the others.
-/

namespace CalxMill.Nvidia

open Lib Rust

/-! ## The report of a run -/

/-- The gate's line for a function. -/
def Verdict (opts : GateOpts) (f : Str × List Instr) (line : Str) : Prop :=
  ∃ case failed, gateCase opts f.1 = some case ∧ judge opts case f.2 = .ok (failed, line)

/-- The body that the gate judges. -/
def HotBody (instrs body : List Instr) : Prop :=
  ∃ lo hi, hotLoop instrs = .ok (some (lo, hi)) ∧ slice instrs lo hi = .ok body

theorem checkFunctions_report {opts : GateOpts} {fs : List (Str × List Instr)} :
    ∀ {st st' : GateState}, fs.foldlM (checkFunction opts) st = .ok st' →
      ∃ report, List.Forall₂ (Verdict opts) (fs.filter (selected opts)) report ∧
        st'.out = st.out ++ report.flatten := by
  induction fs with
  | nil =>
      intro st st' h
      obtain rfl := Exec.pure_eq_ok.mp h
      exact ⟨[], .nil, (List.append_nil _).symm⟩
  | cons f fs ih =>
      intro st st' h
      rw [List.foldlM_cons] at h
      obtain ⟨st₁, hf, hfs⟩ := Exec.bind_eq_ok.mp h
      obtain ⟨report, hreport, hout⟩ := ih hfs
      rw [List.filter_cons, selected]
      cases hcase : gateCase opts f.1 with
      | none =>
          simp only [checkFunction, hcase] at hf
          obtain rfl := Exec.pure_eq_ok.mp hf
          exact ⟨report, hreport, hout⟩
      | some case =>
          simp only [checkFunction, hcase] at hf
          obtain ⟨checked, -, hf⟩ := Exec.bind_eq_ok.mp hf
          obtain ⟨⟨failed, line⟩, hline, hf⟩ := Exec.bind_eq_ok.mp hf
          obtain ⟨failures, -, hf⟩ := Exec.bind_eq_ok.mp hf
          obtain rfl := Exec.pure_eq_ok.mp hf
          refine ⟨line :: report, .cons ⟨case, failed, hcase, hline⟩ hreport, ?_⟩
          rw [hout, List.flatten_cons, List.append_assoc]

theorem find?_exempt {basename : Str} (h : basename ∉ exemptBinaries.map (·.1)) :
    exemptBinaries.find? (·.1 = basename) = none := by
  rw [List.find?_eq_none]
  intro e he hname
  exact h (of_decide_eq_true hname ▸ List.mem_map_of_mem he)

/-- The report of a binary that is not exempt starts with a line for each
function that the gate knows. -/
theorem check_report {basename sass report : Str} {opts : GateOpts} {code : ℕ}
    (h : check basename sass opts = .ok (report, code))
    (hgate : basename ∉ exemptBinaries.map (·.1)) :
    ∃ fs lines, parseFunctions sass = .ok fs ∧
      List.Forall₂ (Verdict opts) (fs.filter (selected opts)) lines ∧
        lines.flatten <+: report := by
  rw [check, find?_exempt hgate] at h
  obtain ⟨fs, hfs, h⟩ := Exec.bind_eq_ok.mp h
  obtain ⟨st, hst, h⟩ := Exec.bind_eq_ok.mp h
  obtain ⟨lines, hlines, hout⟩ := checkFunctions_report hst
  rw [List.nil_append] at hout
  split at h
  · obtain ⟨rfl, -⟩ := Prod.mk.inj (Exec.pure_eq_ok.mp h)
    exact ⟨fs, lines, hfs, hlines, hout ▸ List.prefix_append _ _⟩
  · obtain ⟨rfl, -⟩ := Prod.mk.inj (Exec.pure_eq_ok.mp h)
    refine ⟨fs, lines, hfs, hlines, ?_⟩
    simp only [List.append_assoc]
    exact hout ▸ List.prefix_append _ _

/-- The report on one function that passes. -/
theorem check_one {basename sass line : Str} {opts : GateOpts} {f : Str × List Instr}
    {case : GateCase} (hgate : basename ∉ exemptBinaries.map (·.1))
    (hparse : parseFunctions sass = .ok [f]) (hcase : gateCase opts f.1 = some case)
    (hjudge : judge opts case f.2 = .ok (false, line)) :
    check basename sass opts = .ok (line ++ lit "1 kernels checked, 0 failures\n", 0) := by
  have hone : checkFunction opts ⟨[], 0, 0⟩ f = .ok ⟨line, 0, 1⟩ := by
    rw [checkFunction, hcase]
    simp only [hjudge]
    rfl
  have hrun : [f].foldlM (checkFunction opts) ⟨[], 0, 0⟩ = .ok ⟨line, 0, 1⟩ := by
    rw [List.foldlM_cons, hone]
    rfl
  have hcounts : natStr 1 ++ lit " kernels checked, " ++ natStr 0 ++ lit " failures\n" =
      lit "1 kernels checked, 0 failures\n" := by
    decide +kernel
  rw [check, find?_exempt hgate, hparse, ← hcounts]
  simp only [hrun, bind, Except.bind, ← List.append_assoc]
  rfl

/-! ## A passing line -/

theorem not_pass_prefix_fail (s t : Str) : ¬ lit "PASS " ++ s <+: lit "FAIL " ++ t := by
  rintro ⟨u, hu⟩
  exact absurd (List.cons.inj hu).1 (by decide)

section Purity

variable {opts : GateOpts} {label line s : Str} {primary companions : List Str} {fnMin : Option ℕ}
  {body : List Instr} {size : ℕ} {failed : Bool}

/-- A passing line holds its label, and the primary count is large enough. -/
theorem purityLine_pass
    (h : purityLine opts label primary companions fnMin body size = (failed, line))
    (hpass : lit "PASS " ++ s <+: line) :
    fnMin.getD opts.minPrimary ≤ body.countP (·.base ∈ primary) ∧
      lit "PASS " ++ label ++ lit ": " <+: line := by
  simp only [purityLine] at h
  split at h
  · obtain ⟨-, rfl⟩ := Prod.mk.inj h
    simp only [List.append_assoc] at hpass
    exact absurd hpass (not_pass_prefix_fail _ _)
  · split at h
    · obtain ⟨-, rfl⟩ := Prod.mk.inj h
      simp only [List.append_assoc] at hpass
      exact absurd hpass (not_pass_prefix_fail _ _)
    · next hcount =>
        split at h
        · obtain ⟨-, rfl⟩ := Prod.mk.inj h
          simp only [List.append_assoc] at hpass
          exact absurd hpass (not_pass_prefix_fail _ _)
        · obtain ⟨-, rfl⟩ := Prod.mk.inj h
          refine ⟨(Nat.le_of_not_lt hcount).trans (Nat.mod_le _ _), ?_⟩
          simp only [List.append_assoc, List.prefix_append_right_inj]
          exact List.prefix_append _ _

end Purity

theorem sequenceLine_pass {opts : GateOpts} {label line s : Str} {body : List Instr} {size : ℕ}
    {failed : Bool} (h : sequenceLine opts label body size = (failed, line))
    (hpass : lit "PASS " ++ s <+: line) : lit "PASS " ++ label ++ lit ": " <+: line := by
  simp only [sequenceLine] at h
  split at h
  · obtain ⟨-, rfl⟩ := Prod.mk.inj h
    simp only [List.append_assoc] at hpass
    exact absurd hpass (not_pass_prefix_fail _ _)
  · obtain ⟨-, rfl⟩ := Prod.mk.inj h
    simp only [List.append_assoc, List.prefix_append_right_inj]
    exact ⟨_, rfl⟩

/-! ## Mix kernels -/

def primaryOf (o : Str × Option Expect) : List Str := (o.2.map (·.primary)).getD []

def companionsOf (o : Str × Option Expect) : List Str := (o.2.map (·.companions)).getD []

/-- The ops of a mix kernel's label. -/
def opNames (ops : List (Str × Option Expect)) : Str :=
  join "+" ((ops.map (·.1)).insertionSort (· ≤ ·))

deriving instance DecidableEq for Expect, GateCase

/-- Each op is in the body, or the others alone are enough. -/
def Mixes (opts : GateOpts) (ops : List (Str × Option Expect)) (body : List Instr) : Prop :=
  ∀ o ∈ ops, (∃ x ∈ body, x.base ∈ primaryOf o) ∨
    opts.minPrimary ≤
      body.countP fun x ↦ x.base ∈ ops.flatMap primaryOf && x.base ∉ primaryOf o

theorem mixCase_eq_some {kind : Str} {ops : List (Str × Option Expect)} {case : GateCase}
    (h : mixCase kind ops = some case) :
    case = ⟨kind ++ lit "<" ++ opNames ops ++ lit ">", none, none,
      some (ops.flatMap primaryOf, ops.flatMap companionsOf)⟩ := by
  simp only [mixCase, Option.ite_none_left_eq_some] at h
  exact (Option.some.inj h.2).symm

/-- Only a mix kernel's label starts with an `m`. -/
theorem gateCase_mix {opts : GateOpts} {name : Str} {case : GateCase}
    (h : gateCase opts name = some case) (hhead : case.label.head? = some 'm') :
    mixCase "mix_kernel" (opMatches name) = some case := by
  rw [gateCase] at h
  split at h
  · next key e _ =>
      obtain ⟨e, -, rfl⟩ := Option.map_eq_some_iff.mp h
      cases hhead
  · obtain ⟨kind, hkind, h⟩ := Option.bind_eq_some_iff.mp h
    split at h
    · next hmix => rwa [hmix] at h
    · next hmix =>
        obtain ⟨o, -, rfl⟩ := Option.map_eq_some_iff.mp h
        have hmem := List.mem_of_find?_eq_some hkind
        simp only [kinds, List.mem_cons, List.not_mem_nil, or_false] at hmem
        rcases hmem with rfl | rfl | rfl | rfl
        · cases hhead
        · cases hhead
        · cases hhead
        · exact absurd rfl hmix

section Pass

variable {opts : GateOpts} {case : GateCase} {f : Str × List Instr} {body : List Instr}
  {line s : Str} {size : ℕ} {failed : Bool}

theorem judgeBody_pass (h : judgeBody opts case body size = (failed, line))
    (hpass : lit "PASS " ++ s <+: line) : lit "PASS " ++ case.label ++ lit ": " <+: line := by
  rw [judgeBody] at h
  split at h
  · exact (purityLine_pass h hpass).2
  · exact (purityLine_pass h hpass).2
  · exact sequenceLine_pass h hpass

theorem label_head? (hlabel : lit "PASS " ++ case.label ++ lit ": " <+: line)
    (hpass : lit "PASS mix_kernel<" <+: line) : case.label.head? = some 'm' := by
  obtain ⟨t, rfl⟩ := hpass
  have hsplit : lit "PASS mix_kernel<" ++ t = lit "PASS " ++ (lit "mix_kernel<" ++ t) := rfl
  rw [hsplit, List.append_assoc, List.prefix_append_right_inj] at hlabel
  cases hcase : case.label with
  | nil =>
      rw [hcase] at hlabel
      obtain ⟨u, hu⟩ := hlabel
      exact absurd (List.cons.inj hu).1 (by decide)
  | cons c l =>
      rw [hcase] at hlabel
      obtain ⟨u, hu⟩ := hlabel
      exact congrArg some (List.cons.inj hu).1

theorem judge_pass (h : judge opts case f.2 = .ok (failed, line))
    (hpass : lit "PASS " ++ s <+: line) :
    ∃ body size, HotBody f.2 body ∧ judgeBody opts case body size = (failed, line) := by
  obtain ⟨best, hbest, h⟩ := Exec.bind_eq_ok.mp h
  cases best with
  | none =>
      obtain ⟨-, rfl⟩ := Prod.mk.inj (Exec.pure_eq_ok.mp h)
      simp only [List.append_assoc] at hpass
      exact absurd hpass (not_pass_prefix_fail _ _)
  | some c =>
      obtain ⟨body, hbody, h⟩ := Exec.bind_eq_ok.mp h
      obtain ⟨size, -, h⟩ := Exec.bind_eq_ok.mp h
      exact ⟨body, size, ⟨c.1, c.2, hbest, hbody⟩, Exec.pure_eq_ok.mp h⟩

/-- What a passing line says of a mix kernel. -/
structure MixPass (opts : GateOpts) (f : Str × List Instr) (line : Str) : Prop where
  named : lit "PASS mix_kernel<" ++ opNames (opMatches f.1) ++ lit ">: " <+: line
  mixes : ∃ body, HotBody f.2 body ∧ Mixes opts (opMatches f.1) body

/-- The union's count is the others' when an op is not in the body. -/
theorem mixes_of_le {ops : List (Str × Option Expect)}
    (h : opts.minPrimary ≤ body.countP (·.base ∈ ops.flatMap primaryOf)) :
    Mixes opts ops body := by
  intro o _
  by_cases hex : ∃ x ∈ body, x.base ∈ primaryOf o
  · exact Or.inl hex
  · apply Or.inr
    apply h.trans_eq
    apply List.countP_congr
    intro x hx
    have hnot : x.base ∉ primaryOf o := fun hmem ↦ hex ⟨x, hx, hmem⟩
    simp [hnot]

theorem mixPass_of_verdict (h : Verdict opts f line) (hpass : lit "PASS mix_kernel<" <+: line) :
    MixPass opts f line := by
  obtain ⟨case, failed, hcase, hjudge⟩ := h
  obtain ⟨body, size, hbody, hline⟩ := judge_pass (s := lit "mix_kernel<") hjudge hpass
  have hlabel := judgeBody_pass (s := lit "mix_kernel<") hline hpass
  obtain rfl := mixCase_eq_some (gateCase_mix hcase (label_head? hlabel hpass))
  have hcount := (purityLine_pass (s := lit "mix_kernel<") hline hpass).1
  refine ⟨?_, body, hbody, mixes_of_le hcount⟩
  simp only [List.append_assoc] at hlabel ⊢
  exact hlabel

end Pass

/-- A mix kernel that the gate reports as passing holds each op of its label,
unless the other ops of the label are enough. -/
theorem mix_kernel_pass {basename sass report : Str} {opts : GateOpts} {code : ℕ}
    (h : check basename sass opts = .ok (report, code))
    (hgate : basename ∉ exemptBinaries.map (·.1)) :
    ∃ fs lines, parseFunctions sass = .ok fs ∧
      List.Forall₂ (Verdict opts) (fs.filter (selected opts)) lines ∧ lines.flatten <+: report ∧
        ∀ f ∈ fs, ∀ line, Verdict opts f line → lit "PASS mix_kernel<" <+: line →
          MixPass opts f line := by
  obtain ⟨fs, lines, hfs, hlines, hreport⟩ := check_report h hgate
  exact ⟨fs, lines, hfs, hlines, hreport, fun f _ line ↦ mixPass_of_verdict⟩

/-- The name of a mix kernel of `FFMA` and `LOP3`. -/
def mixName : Str := "mix_kernelINS_6OpFFMAENS_6OpLOP3E"

def mixGate : GateCase :=
  ⟨"mix_kernel<OpFFMA+OpLOP3>", none, none, some (["FFMA", "LOP3"], [])⟩

theorem gateCase_mixName (opts : GateOpts) : gateCase opts mixName = some mixGate := by
  have hforeign : (expectFn.all fun e ↦ e.1.any fun c ↦ decide (c ∉ mixName)) = true := by
    decide +kernel
  have hbespoke : expectFn.find? (fun e ↦ contains mixName e.1) = none := by
    rw [List.find?_eq_none]
    intro e he hcontains
    obtain ⟨c, hc, hforeign⟩ := List.any_eq_true.mp (List.all_eq_true.mp hforeign e he)
    exact of_decide_eq_true hforeign ((of_decide_eq_true hcontains).subset hc)
  have hkind : kinds.find? (contains mixName ·) = some (lit "mix_kernel") := by decide +kernel
  have hmix : mixCase "mix_kernel" (opMatches mixName) = some mixGate := by decide +kernel
  rw [gateCase, hbespoke, hkind]
  exact hmix

def mixed : List Instr :=
  [⟨0x0, "FFMA", "FFMA R0"⟩, ⟨0x10, "LOP3", "LOP3 R1"⟩, ⟨0x20, "BRA", "BRA 0x0"⟩]

def mixedText : Str := "Function : " ++ mixName ++
  "\n/*0000*/ FFMA R0;\n/*0010*/ LOP3 R1;\n/*0020*/ BRA 0x0;"

theorem mix_kernel_pass_mixed :
    ∃ fs lines, parseFunctions mixedText = .ok fs ∧
      List.Forall₂ (Verdict ⟨2, 8192, 6⟩) (fs.filter (selected ⟨2, 8192, 6⟩)) lines ∧
        lines.flatten <+: lit "PASS mix_kernel<OpFFMA+OpLOP3>: 2 primary, 3 instrs, 48 B\n" ++
          lit "1 kernels checked, 0 failures\n" ∧
        ∀ f ∈ fs, ∀ line, Verdict ⟨2, 8192, 6⟩ f line → lit "PASS mix_kernel<" <+: line →
          MixPass ⟨2, 8192, 6⟩ f line := by
  have hgate : lit "pipes.bin" ∉ exemptBinaries.map (·.1) := by decide +kernel
  have hparse : parseFunctions mixedText = .ok [(mixName, mixed)] := by decide +kernel
  have hjudge : judge ⟨2, 8192, 6⟩ mixGate mixed =
      .ok (false, lit "PASS mix_kernel<OpFFMA+OpLOP3>: 2 primary, 3 instrs, 48 B\n") := by
    decide +kernel
  exact mix_kernel_pass (check_one hgate hparse (gateCase_mixName _) hjudge) hgate

/-- The loop lost its `LOP3`. -/
def alone : List Instr := [⟨0x0, "FFMA", "FFMA R0"⟩, ⟨0x10, "BRA", "BRA 0x0"⟩]

def aloneText : Str := "Function : " ++ mixName ++ "\n/*0000*/ FFMA R0;\n/*0010*/ BRA 0x0;"

/-- It passes all the same. -/
theorem not_mix_kernel_pass :
    ¬ ∀ (basename sass report : Str) (opts : GateOpts) (code : ℕ), 1 ≤ opts.minPrimary →
      check basename sass opts = .ok (report, code) → basename ∉ exemptBinaries.map (·.1) →
        ∀ fs, parseFunctions sass = .ok fs → ∀ f ∈ fs, ∀ line, Verdict opts f line →
          lit "PASS mix_kernel<" <+: line → ∀ body, HotBody f.2 body →
            ∀ o ∈ opMatches f.1, ∃ x ∈ body, x.base ∈ primaryOf o := by
  intro h
  have hgate : lit "pipes.bin" ∉ exemptBinaries.map (·.1) := by decide +kernel
  have hparse : parseFunctions aloneText = .ok [(mixName, alone)] := by decide +kernel
  have hjudge : judge ⟨1, 8192, 6⟩ mixGate alone =
      .ok (false, lit "PASS mix_kernel<OpFFMA+OpLOP3>: 1 primary, 2 instrs, 32 B\n") := by
    decide +kernel
  have hcase := gateCase_mixName ⟨1, 8192, 6⟩
  have hbody : HotBody alone alone := ⟨0, 1, by decide +kernel, by decide +kernel⟩
  have hall := h _ _ _ _ _ le_rfl (check_one hgate hparse hcase hjudge) hgate _ hparse _
    List.mem_cons_self _ ⟨mixGate, false, hcase, hjudge⟩ (by decide +kernel) alone hbody
  have hmissing : ((opMatches mixName).all fun o ↦
      alone.any fun x ↦ decide (x.base ∈ primaryOf o)) = false := by
    decide +kernel
  refine absurd ?_ (Bool.eq_false_iff.mp hmissing)
  simpa only [List.all_eq_true, List.any_eq_true, decide_eq_true_eq] using hall

end CalxMill.Nvidia
