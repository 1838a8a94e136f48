import CalxMill.Nvidia.MixKernel
import CalxMill.Rust.Text

/-!
# The report of the purity gate

A run of the gate rules on each bench kernel of the text in file order.  The
rulings decide the report, its closing counts and the exit code; a text put
together from two parts has the rulings of both, and looser options turn no
passing run into a failing one.
-/

namespace CalxMill.Nvidia

open Lib Rust

/-- The bench kernels among the functions, under their cases. -/
def benchCases (opts : GateOpts) (fs : List (Str × List Instr)) : List (GateCase × List Instr) :=
  fs.filterMap fun f ↦ (gateCase opts f.1).map fun case ↦ (case, f.2)

/-- The rulings on them, in file order. -/
def rulings (opts : GateOpts) (fs : List (Str × List Instr)) : Exec Str (List (Bool × Str)) :=
  (benchCases opts fs).mapM fun c ↦ judge opts c.1 c.2

/-- The last line of a report. -/
def closing (rs : List (Bool × Str)) : Str :=
  if rs = [] then "FAIL: no bench kernels found in binary\n" else
    natStr rs.length ++ " kernels checked, " ++ natStr (rs.countP (·.1)) ++ " failures\n"

/-- Some kernel was judged, and none fails. -/
def AllPass (rs : List (Bool × Str)) : Prop := rs ≠ [] ∧ ∀ r ∈ rs, r.1 = false

instance (rs : List (Bool × Str)) : Decidable (AllPass rs) := inferInstanceAs (Decidable (_ ∧ _))

variable {opts : GateOpts} {fs : List (Str × List Instr)}

/-- The loop of the gate is its rulings, as long as the counter holds them. -/
theorem foldlM_checkFunction_iff : ∀ {st st' : GateState}, st.failures ≤ st.checked →
    st.checked < 2 ^ 32 → (fs.foldlM (checkFunction opts) st = .ok st' ↔
      ∃ rs, rulings opts fs = .ok rs ∧ st.checked + rs.length < 2 ^ 32 ∧
        st' = ⟨st.out ++ rs.flatMap (·.2), st.failures + rs.countP (·.1),
          st.checked + rs.length⟩) := by
  induction fs with
  | nil =>
      intro st st' _ hlt
      constructor
      · intro h
        obtain rfl := Exec.pure_eq_ok.mp h
        exact ⟨[], rfl, hlt, by simp⟩
      · rintro ⟨rs, hrs, -, rfl⟩
        obtain rfl := Exec.pure_eq_ok.mp hrs
        simp [pure, Except.pure]
  | cons f fs ih =>
      intro st st' hle hlt
      rw [List.foldlM_cons, rulings, benchCases, List.filterMap_cons]
      cases hcase : gateCase opts f.1 with
      | none =>
          have hskip : checkFunction opts st f = .ok st := by
            simp [checkFunction, hcase, pure, Except.pure]
          rw [hskip]
          exact ih hle hlt
      | some case =>
          simp only [Option.map_some, List.mapM_cons]
          constructor
          · intro h
            obtain ⟨st₁, hstep, h⟩ := Exec.bind_eq_ok.mp h
            simp only [checkFunction, hcase] at hstep
            obtain ⟨checked, hchecked, hstep⟩ := Exec.bind_eq_ok.mp hstep
            obtain ⟨⟨failed, line⟩, hjudge, hstep⟩ := Exec.bind_eq_ok.mp hstep
            obtain ⟨failures, hfailures, hstep⟩ := Exec.bind_eq_ok.mp hstep
            obtain rfl := Exec.pure_eq_ok.mp hstep
            obtain ⟨hlt', rfl⟩ := checked_eq_ok.mp hchecked
            obtain ⟨-, rfl⟩ := checked_eq_ok.mp hfailures
            have hle' : st.failures + (if failed = true then 1 else 0) ≤ st.checked + 1 := by
              split <;> omega
            obtain ⟨rs, hrs, hlen, rfl⟩ := (ih hle' hlt').mp h
            refine ⟨(failed, line) :: rs, ?_, ?_, ?_⟩
            · rw [hjudge]
              exact Exec.bind_eq_ok.mpr ⟨_, rfl, Exec.bind_eq_ok.mpr ⟨rs, hrs, rfl⟩⟩
            · rw [List.length_cons]
              dsimp only at hlen
              omega
            · simp only [GateState.mk.injEq, List.flatMap_cons, List.append_assoc,
                List.countP_cons, List.length_cons, true_and]
              omega
          · rintro ⟨rs', hrs', hlen, rfl⟩
            obtain ⟨⟨failed, line⟩, hjudge, hrs'⟩ := Exec.bind_eq_ok.mp hrs'
            obtain ⟨rs, hrs, hrs'⟩ := Exec.bind_eq_ok.mp hrs'
            obtain rfl := Exec.pure_eq_ok.mp hrs'
            rw [List.length_cons] at hlen
            have hle' : st.failures + (if failed = true then 1 else 0) ≤ st.checked + 1 := by
              split <;> omega
            have hchecked : addU32 st.checked 1 = .ok (st.checked + 1) :=
              checked_eq_ok.mpr ⟨by omega, rfl⟩
            have hfailures : addU32 st.failures (if failed = true then 1 else 0) =
                .ok (st.failures + if failed = true then 1 else 0) :=
              checked_eq_ok.mpr ⟨by omega, rfl⟩
            have hstep : checkFunction opts st f = .ok ⟨st.out ++ line,
                st.failures + (if failed = true then 1 else 0), st.checked + 1⟩ := by
              simp only [checkFunction, hcase, hchecked, hjudge, hfailures, bind, Except.bind]
              rfl
            rw [hstep]
            refine (ih hle' (by dsimp only; omega)).mpr ⟨rs, hrs, by dsimp only; omega, ?_⟩
            simp only [GateState.mk.injEq, List.flatMap_cons, List.append_assoc,
              List.countP_cons, List.length_cons, true_and]
            omega

/-- What a run returns, in terms of the rulings. -/
theorem check_eq_ok_iff {basename sass report : Str} {code : ℕ}
    (hgate : basename ∉ exemptBinaries.map (·.1)) :
    check basename sass opts = .ok (report, code) ↔
      ∃ fs rs, parseFunctions sass = .ok fs ∧ rulings opts fs = .ok rs ∧ rs.length < 2 ^ 32 ∧
        report = rs.flatMap (·.2) ++ closing rs ∧ code = if AllPass rs then 0 else 1 := by
  have hend : ∀ rs : List (Bool × Str),
      (if rs.length = 0 then
        (pure (rs.flatMap (·.2) ++ lit "FAIL: no bench kernels found in binary\n", 1) :
          Exec Str (Str × ℕ))
      else pure (rs.flatMap (·.2) ++ natStr rs.length ++ lit " kernels checked, " ++
        natStr (rs.countP (·.1)) ++ lit " failures\n",
          if 0 < rs.countP (·.1) then 1 else 0)) =
        .ok (rs.flatMap (·.2) ++ closing rs, if AllPass rs then 0 else 1) := by
    intro rs
    rw [closing]
    by_cases hnil : rs = []
    · subst hnil
      rfl
    · have hlength : rs.length ≠ 0 := fun h ↦ hnil (List.length_eq_zero_iff.mp h)
      have hclean : AllPass rs ↔ ¬ 0 < rs.countP (·.1) := by
        rw [List.countP_pos_iff, AllPass]
        simp [hnil]
      rw [if_neg hlength, if_neg hnil]
      simp only [hclean, ite_not, List.append_assoc]
      rfl
  rw [check, find?_exempt hgate]
  constructor
  · intro h
    obtain ⟨fs, hfs, h⟩ := Exec.bind_eq_ok.mp h
    obtain ⟨st, hst, h⟩ := Exec.bind_eq_ok.mp h
    obtain ⟨rs, hrs, hlen, rfl⟩ :=
      (foldlM_checkFunction_iff (Nat.le_refl 0) (by decide)).mp hst
    simp only [Nat.zero_add, List.nil_append] at h hlen
    rw [hend] at h
    obtain ⟨rfl, rfl⟩ := Prod.mk.inj (Except.ok.inj h)
    exact ⟨fs, rs, hfs, hrs, hlen, rfl, rfl⟩
  · rintro ⟨fs, rs, hfs, hrs, hlen, rfl, rfl⟩
    have hst : fs.foldlM (checkFunction opts) ⟨[], 0, 0⟩ =
        .ok ⟨rs.flatMap (·.2), rs.countP (·.1), rs.length⟩ := by
      refine (foldlM_checkFunction_iff (Nat.le_refl 0) (by decide)).mpr ⟨rs, hrs, ?_, ?_⟩
      · simpa using hlen
      · simp
    refine Exec.bind_eq_ok.mpr ⟨fs, hfs, Exec.bind_eq_ok.mpr ⟨_, hst, ?_⟩⟩
    exact hend rs

/-! ## The lines of the report -/

/-- A ruling's line opens with its word and the kernel's label. -/
def Opened (label : Str) (r : Bool × Str) : Prop :=
  (if r.1 = true then lit "FAIL " else lit "PASS ") ++ label ++ lit ": " <+: r.2

theorem judgeBody_opened (opts : GateOpts) (case : GateCase) (body : List Instr) (size : ℕ) :
    Opened case.label (judgeBody opts case body size) := by
  have hpurity : ∀ primary companions fnMin,
      Opened case.label (purityLine opts case.label primary companions fnMin body size) := by
    intro primary companions fnMin
    rw [purityLine]
    simp only [List.append_assoc]
    split
    · exact ⟨_, by simp only [List.append_assoc]; rfl⟩
    · split
      · exact ⟨_, by simp only [List.append_assoc]; rfl⟩
      · split
        · exact ⟨_, by simp only [List.append_assoc]; rfl⟩
        · exact ⟨_, by simp only [List.append_assoc]; rfl⟩
  have hsequence : Opened case.label (sequenceLine opts case.label body size) := by
    rw [sequenceLine]
    simp only [List.append_assoc]
    split
    · exact ⟨_, by simp only [List.append_assoc]; rfl⟩
    · exact ⟨_, by simp only [List.append_assoc]; rfl⟩
  rw [judgeBody]
  split
  · exact hpurity _ _ _
  · exact hpurity _ _ _
  · exact hsequence

theorem judge_opened {case : GateCase} {instrs : List Instr} {r : Bool × Str}
    (h : judge opts case instrs = .ok r) : Opened case.label r := by
  rw [judge] at h
  obtain ⟨best, -, h⟩ := Exec.bind_eq_ok.mp h
  cases best with
  | none =>
      obtain rfl := Exec.pure_eq_ok.mp h
      exact ⟨_, by simp only [List.append_assoc]; rfl⟩
  | some b =>
      obtain ⟨body, -, h⟩ := Exec.bind_eq_ok.mp h
      obtain ⟨size, -, h⟩ := Exec.bind_eq_ok.mp h
      obtain rfl := Exec.pure_eq_ok.mp h
      exact judgeBody_opened opts case body size

/-- A run reports on every bench kernel once and in file order, with a line that
opens with its verdict, closes with the two counts, and succeeds exactly when
there was a kernel to judge and none fails. -/
theorem check_accounts {basename sass report : Str} {code : ℕ}
    (hgate : basename ∉ exemptBinaries.map (·.1))
    (h : check basename sass opts = .ok (report, code)) :
    ∃ fs rs, parseFunctions sass = .ok fs ∧
      List.Forall₂ (fun c r ↦ judge opts c.1 c.2 = .ok r ∧ Opened c.1.label r)
        (benchCases opts fs) rs ∧
      report = rs.flatMap (·.2) ++ closing rs ∧
      (code = 0 ↔ AllPass rs) ∧ (code = 1 ↔ ¬ AllPass rs) := by
  obtain ⟨fs, rs, hfs, hrs, -, rfl, rfl⟩ := (check_eq_ok_iff hgate).mp h
  refine ⟨fs, rs, hfs, ?_, rfl, by simp, by simp⟩
  exact (Exec.mapM_eq_ok.mp hrs).imp fun _ _ hjudge ↦ ⟨hjudge, judge_opened hjudge⟩

theorem check_mixed : check "pipes.bin" mixedText ⟨2, 8192, 6⟩ =
    .ok (lit "PASS mix_kernel<OpFFMA+OpLOP3>: 2 primary, 3 instrs, 48 B\n" ++
      lit "1 kernels checked, 0 failures\n", 0) :=
  check_one (by decide +kernel) (f := (mixName, mixed)) (by decide +kernel)
    (gateCase_mixName _) (by decide +kernel)

theorem check_accounts_mixed :
    ∃ fs rs, parseFunctions mixedText = .ok fs ∧
      List.Forall₂ (fun c r ↦ judge ⟨2, 8192, 6⟩ c.1 c.2 = .ok r ∧ Opened c.1.label r)
        (benchCases ⟨2, 8192, 6⟩ fs) rs ∧
      lit "PASS mix_kernel<OpFFMA+OpLOP3>: 2 primary, 3 instrs, 48 B\n" ++
        lit "1 kernels checked, 0 failures\n" = rs.flatMap (·.2) ++ closing rs ∧
      (0 = 0 ↔ AllPass rs) ∧ (0 = 1 ↔ ¬ AllPass rs) :=
  check_accounts (by decide +kernel) check_mixed

/-! ## Two parts of a disassembly -/

/-- No instruction stands in front of the first function header. -/
def CleanPreamble (sass : Str) : Prop :=
  ∀ line ∈ (lines sass).takeWhile fun l ↦ (functionName l).isNone, scanInstr line = .ok none

instance (sass : Str) : Decidable (CleanPreamble sass) :=
  inferInstanceAs (Decidable (∀ line ∈ _, _))

theorem pushInstr_append (fs : List (Str × List Instr)) {out : List (Str × List Instr)}
    (h : out ≠ []) (x : Instr) : pushInstr (fs ++ out) x = fs ++ pushInstr out x := by
  have hlast : (fs ++ out).getLast? = out.getLast? := by
    rw [List.getLast?_append, List.getLast?_eq_some_getLast h, Option.some_or]
  rw [pushInstr, pushInstr, List.dropLast_append_of_ne_nil h, hlast, List.append_assoc]

/-- Functions in front of the one being read stay as they are. -/
theorem parseLine_append (fs : List (Str × List Instr)) {out : List (Str × List Instr)}
    {line : Str} (h : out ≠ [] ∨ functionName line ≠ none ∨ scanInstr line = .ok none) :
    parseLine (fs ++ out) line = (fs ++ ·) <$> parseLine out line := by
  rw [parseLine, parseLine]
  cases hname : functionName line with
  | some name =>
      simp only [List.append_assoc]
      rfl
  | none =>
      by_cases hout : out = []
      · have hscan : scanInstr line = .ok none :=
          (h.resolve_left fun hne ↦ hne hout).resolve_left fun hne ↦ hne hname
        subst hout
        by_cases hfs : fs = [] <;> simp [hfs, hscan, pure, Except.pure]
      · have hne : fs ++ out ≠ [] := fun hnil ↦ hout (List.append_eq_nil_iff.mp hnil).2
        simp only [hout, hne, if_false]
        cases scanInstr line with
        | error e => rfl
        | ok s =>
            cases s with
            | none => rfl
            | some s => exact congrArg Except.ok (pushInstr_append fs hout (instrOf s))

theorem parseLine_ne_nil {out out' : List (Str × List Instr)} {line : Str} (hne : out ≠ [])
    (h : parseLine out line = .ok out') : out' ≠ [] := by
  have hfit : functionName line = none → ¬ OverlongAddress line := by
    intro hnone hlong
    have hfails := (parseLine_fails hne).mpr ⟨hnone, hlong⟩
    rw [h] at hfails
    exact Exec.fails_ok _ hfails
  rw [parseLine_eq_ok hfit, Except.ok.injEq] at h
  exact h ▸ feed_ne_nil hne line

theorem foldlM_parseLine_append (fs : List (Str × List Instr)) {ls : List Str} :
    ∀ {out : List (Str × List Instr)},
      (out ≠ [] ∨ ∀ line ∈ ls.takeWhile fun l ↦ (functionName l).isNone,
        scanInstr line = .ok none) →
      ls.foldlM parseLine (fs ++ out) = (fs ++ ·) <$> ls.foldlM parseLine out := by
  induction ls with
  | nil => exact fun _ ↦ rfl
  | cons line ls ih =>
      intro out h
      have hline : out ≠ [] ∨ functionName line ≠ none ∨ scanInstr line = .ok none := by
        refine h.imp_right fun hclean ↦ ?_
        cases hname : functionName line with
        | some name => exact Or.inl (Option.some_ne_none name)
        | none => exact Or.inr (hclean line (by simp [hname]))
      rw [List.foldlM_cons, List.foldlM_cons, parseLine_append fs hline]
      cases hout : parseLine out line with
      | error e => rfl
      | ok out' =>
          refine ih ?_
          cases hname : functionName line with
          | some name =>
              rw [parseLine, hname] at hout
              exact Or.inl (Except.ok.inj hout ▸ by simp)
          | none =>
              by_cases hne : out = []
              · rw [parseLine, hname, hne] at hout
                obtain rfl : [] = out' := Except.ok.inj hout
                refine Or.inr fun l hl ↦ h.resolve_left (fun hne' ↦ hne' hne) l ?_
                simpa [hname] using Or.inr hl
              · exact Or.inl (parseLine_ne_nil hne hout)

theorem parseFunctions_append {a b : Str} (ha : a = [] ∨ a.getLast? = some '\n')
    (hb : CleanPreamble b) :
    parseFunctions (a ++ b) =
      parseFunctions a >>= fun fs ↦ (fs ++ ·) <$> parseFunctions b := by
  rw [parseFunctions, lines_append_wholeLines ha, List.foldlM_append]
  refine congrArg _ (funext fun fs ↦ ?_)
  have hfold : (lines b).foldlM parseLine (fs ++ []) = _ :=
    foldlM_parseLine_append fs (Or.inr hb)
  rw [List.append_nil] at hfold
  rw [hfold]
  rfl

theorem rulings_append (opts : GateOpts) (fs fs' : List (Str × List Instr)) :
    rulings opts (fs ++ fs') =
      rulings opts fs >>= fun rs ↦ (rs ++ ·) <$> rulings opts fs' := by
  rw [rulings, benchCases, List.filterMap_append, List.mapM_append]
  rfl

theorem allPass_append {rs rs' : List (Bool × Str)} : AllPass (rs ++ rs') ↔
    (rs = [] ∨ AllPass rs) ∧ (rs' = [] ∨ AllPass rs') ∧ (AllPass rs ∨ AllPass rs') := by
  have hempty : ∀ qs : List (Bool × Str), qs = [] → ∀ r ∈ qs, r.1 = false := by
    rintro _ rfl r hr
    cases hr
  have h := hempty rs
  have h' := hempty rs'
  simp only [AllPass, ne_eq, List.append_eq_nil_iff, List.forall_mem_append]
  tauto

/-- A disassembly put together from two has the verdicts of the first and then
those of the second, and succeeds when each part does or has no bench kernel,
and one of them has. -/
theorem check_append {basename a b ra rb : Str} {ca cb : ℕ}
    (hgate : basename ∉ exemptBinaries.map (·.1)) (hlines : a = [] ∨ a.getLast? = some '\n')
    (hclean : CleanPreamble b) (ha : check basename a opts = .ok (ra, ca))
    (hb : check basename b opts = .ok (rb, cb)) :
    ∃ rs rs', ra = rs.flatMap (·.2) ++ closing rs ∧ (ca = 0 ↔ AllPass rs) ∧
      rb = rs'.flatMap (·.2) ++ closing rs' ∧ (cb = 0 ↔ AllPass rs') ∧
      ∀ report code, check basename (a ++ b) opts = .ok (report, code) ↔
        rs.length + rs'.length < 2 ^ 32 ∧
        report = rs.flatMap (·.2) ++ rs'.flatMap (·.2) ++ closing (rs ++ rs') ∧
        code = if (rs = [] ∨ ca = 0) ∧ (rs' = [] ∨ cb = 0) ∧ (ca = 0 ∨ cb = 0) then 0 else 1 := by
  obtain ⟨fs, rs, hfs, hrs, -, rfl, rfl⟩ := (check_eq_ok_iff hgate).mp ha
  obtain ⟨fs', rs', hfs', hrs', -, rfl, rfl⟩ := (check_eq_ok_iff hgate).mp hb
  have hparse : parseFunctions (a ++ b) = .ok (fs ++ fs') := by
    rw [parseFunctions_append hlines hclean, hfs, hfs']
    rfl
  have hrulings : rulings opts (fs ++ fs') = .ok (rs ++ rs') := by
    rw [rulings_append, hrs, hrs']
    rfl
  have hcode : ∀ qs, (if AllPass qs then 0 else 1) = 0 ↔ AllPass qs := fun qs ↦ by simp
  refine ⟨rs, rs', rfl, hcode rs, rfl, hcode rs', fun report code ↦ ?_⟩
  rw [check_eq_ok_iff hgate]
  simp only [hcode, ← allPass_append, ← List.flatMap_append, ← List.length_append]
  constructor
  · rintro ⟨gs, qs, hgs, hqs, hlen, rfl, rfl⟩
    obtain rfl : fs ++ fs' = gs := Except.ok.inj (hparse.symm.trans hgs)
    obtain rfl : rs ++ rs' = qs := Except.ok.inj (hrulings.symm.trans hqs)
    exact ⟨hlen, rfl, rfl⟩
  · rintro ⟨hlen, rfl, rfl⟩
    exact ⟨_, _, hparse, hrulings, hlen, rfl, rfl⟩

theorem check_append_mixed :
    ∃ rs rs', lit "PASS mix_kernel<OpFFMA+OpLOP3>: 2 primary, 3 instrs, 48 B\n" ++
        lit "1 kernels checked, 0 failures\n" = rs.flatMap (·.2) ++ closing rs ∧
      (0 = 0 ↔ AllPass rs) ∧
      lit "FAIL mix_kernel<OpFFMA+OpLOP3>: only 1 primary ops (FFMA/LOP3) in loop, need >= 2\n" ++
        lit "1 kernels checked, 1 failures\n" = rs'.flatMap (·.2) ++ closing rs' ∧
      (1 = 0 ↔ AllPass rs') ∧
      ∀ report code,
        check "pipes.bin" ((mixedText ++ lit "\n") ++ aloneText) ⟨2, 8192, 6⟩ =
            .ok (report, code) ↔
          rs.length + rs'.length < 2 ^ 32 ∧
          report = rs.flatMap (·.2) ++ rs'.flatMap (·.2) ++ closing (rs ++ rs') ∧
          code = if (rs = [] ∨ 0 = 0) ∧ (rs' = [] ∨ 1 = 0) ∧ (0 = 0 ∨ 1 = 0) then 0 else 1 := by
  have hmixed : check "pipes.bin" (mixedText ++ lit "\n") ⟨2, 8192, 6⟩ =
      .ok (lit "PASS mix_kernel<OpFFMA+OpLOP3>: 2 primary, 3 instrs, 48 B\n" ++
        lit "1 kernels checked, 0 failures\n", 0) :=
    check_one (by decide +kernel) (f := (mixName, mixed)) (by decide +kernel)
      (gateCase_mixName _) (by decide +kernel)
  have hparse : parseFunctions aloneText = .ok [(mixName, alone)] := by decide +kernel
  have hrulings : rulings ⟨2, 8192, 6⟩ [(mixName, alone)] = .ok [(true, lit "FAIL " ++
      lit "mix_kernel<OpFFMA+OpLOP3>: only 1 primary ops (FFMA/LOP3) in loop, need >= 2\n")] := by
    rw [rulings, benchCases, List.filterMap_cons, gateCase_mixName]
    decide +kernel
  have hgate : lit "pipes.bin" ∉ exemptBinaries.map (·.1) := by decide +kernel
  have halone : check "pipes.bin" aloneText ⟨2, 8192, 6⟩ = .ok
      (lit "FAIL mix_kernel<OpFFMA+OpLOP3>: only 1 primary ops (FFMA/LOP3) in loop, need >= 2\n" ++
        lit "1 kernels checked, 1 failures\n", 1) :=
    (check_eq_ok_iff hgate).mpr ⟨_, _, hparse, hrulings, by decide, by decide +kernel, by decide⟩
  exact check_append hgate (by decide +kernel) (by decide +kernel) hmixed halone

/-! ## Looser options -/

/-- The second options ask for no more primary ops and allow at least as large
a body and as many others. -/
structure GateOpts.Relaxes (opts opts' : GateOpts) : Prop where
  minPrimary : opts'.minPrimary ≤ opts.minPrimary
  l0Bytes : opts.l0Bytes ≤ opts'.l0Bytes
  stagingBudget : opts.stagingBudget ≤ opts'.stagingBudget

/-- The options reach a case through its minimum alone. -/
structure GateCase.Relaxes (case case' : GateCase) : Prop where
  label : case'.label = case.label
  expect : case'.expect = case.expect
  union : case'.union = case.union
  fnMin : Option.Rel (· ≥ ·) case.fnMin case'.fnMin

section Relaxed

variable {opts' : GateOpts} (h : opts.Relaxes opts')
include h

theorem gateCase_relaxed (name : Str) :
    Option.Rel GateCase.Relaxes (gateCase opts name) (gateCase opts' name) := by
  have hself : ∀ case : Option GateCase, (∀ c ∈ case, c.fnMin = none) →
      Option.Rel GateCase.Relaxes case case := by
    intro case hmin
    cases case with
    | none => exact .none
    | some c => exact .some ⟨rfl, rfl, rfl, by rw [hmin c rfl]; exact .none⟩
  rw [gateCase, gateCase]
  cases expectFn.find? (fun e ↦ contains name e.1) with
  | some e =>
      obtain ⟨key, e⟩ := e
      cases e with
      | none => exact .none
      | some e =>
          refine .some ⟨rfl, rfl, rfl, .some ?_⟩
          cases hmin : e.min with
          | none => simpa [hmin] using h.minPrimary
          | some n => simp
  | none =>
      refine hself _ fun c hc ↦ ?_
      obtain ⟨kind, -, hc⟩ := Option.mem_bind_iff.mp hc
      split at hc
      · rw [mixCase] at hc
        split at hc
        · cases hc
        · obtain rfl := Option.some.inj hc
          rfl
      · obtain ⟨o, -, rfl⟩ := Option.mem_map.mp hc
        rfl

theorem purityLine_relaxed {label line : Str} {primary companions : List Str}
    {fnMin fnMin' : Option ℕ} (hmin : Option.Rel (· ≥ ·) fnMin fnMin') {body : List Instr}
    {size : ℕ} (hpass : purityLine opts label primary companions fnMin body size = (false, line)) :
    purityLine opts' label primary companions fnMin' body size = (false, line) := by
  have hsome : fnMin'.isSome = fnMin.isSome := by cases hmin <;> rfl
  have hneed : fnMin'.getD opts'.minPrimary ≤ fnMin.getD opts.minPrimary := by
    cases hmin with
    | none => exact h.minPrimary
    | some hle => exact hle
  rw [purityLine] at hpass ⊢
  simp only [hsome]
  dsimp only at hpass
  split at hpass
  · cases hpass
  · next hsize =>
      split at hpass
      · cases hpass
      · next hcount =>
          split at hpass
          · cases hpass
          · next hstaging =>
              have hl0 := h.l0Bytes
              have hbudget := h.stagingBudget
              rw [if_neg (by omega), if_neg (by omega), if_neg (by omega)]
              exact hpass

theorem judge_relaxed {case case' : GateCase} (hcase : case.Relaxes case') {instrs : List Instr}
    {line : Str} (hpass : judge opts case instrs = .ok (false, line)) :
    judge opts' case' instrs = .ok (false, line) := by
  rw [judge] at hpass ⊢
  obtain ⟨best, hbest, hpass⟩ := Exec.bind_eq_ok.mp hpass
  refine Exec.bind_eq_ok.mpr ⟨best, hbest, ?_⟩
  cases best with
  | none => cases hpass
  | some b =>
      obtain ⟨body, hbody, hpass⟩ := Exec.bind_eq_ok.mp hpass
      obtain ⟨size, hsize, hpass⟩ := Exec.bind_eq_ok.mp hpass
      have hline : judgeBody opts case body size = (false, line) := Exec.pure_eq_ok.mp hpass
      refine Exec.bind_eq_ok.mpr ⟨body, hbody, Exec.bind_eq_ok.mpr ⟨size, hsize, ?_⟩⟩
      refine Exec.pure_eq_ok.mpr ?_
      obtain ⟨label, expect, fnMin, union⟩ := case
      obtain ⟨label', expect', fnMin', union'⟩ := case'
      obtain ⟨hlabel, hexpect, hunion, hmin⟩ := hcase
      dsimp only at hlabel hexpect hunion hmin
      subst hlabel hexpect hunion
      rw [judgeBody] at hline ⊢
      cases union' with
      | some u => exact purityLine_relaxed h .none hline
      | none =>
          cases expect' with
          | some e => exact purityLine_relaxed h hmin hline
          | none =>
              -- a sequence op has its size alone to answer for
              have hl0 := h.l0Bytes
              simp only [sequenceLine] at hline ⊢
              split at hline
              · cases hline
              · rw [if_neg (by omega)]
                exact hline

theorem benchCases_relaxed (fs : List (Str × List Instr)) :
    List.Forall₂ (fun c c' ↦ c.1.Relaxes c'.1 ∧ c.2 = c'.2)
      (benchCases opts fs) (benchCases opts' fs) := by
  induction fs with
  | nil => exact .nil
  | cons f fs ih =>
      have hrel := gateCase_relaxed h f.1
      rw [benchCases, benchCases, List.filterMap_cons, List.filterMap_cons]
      generalize gateCase opts f.1 = case at hrel
      generalize gateCase opts' f.1 = case' at hrel
      cases hrel with
      | none => exact ih
      | some hcase => exact .cons ⟨hcase, rfl⟩ ih

theorem rulings_relaxed {rs : List (Bool × Str)} (hrs : rulings opts fs = .ok rs)
    (hpass : ∀ r ∈ rs, r.1 = false) : rulings opts' fs = .ok rs := by
  have hcases := benchCases_relaxed h fs
  rw [rulings] at hrs ⊢
  generalize benchCases opts fs = cs at hrs hcases
  generalize benchCases opts' fs = cs' at hcases
  induction hcases generalizing rs with
  | nil => exact hrs
  | cons hcase _ ih =>
      rw [List.mapM_cons] at hrs ⊢
      obtain ⟨⟨failed, line⟩, hjudge, hrs⟩ := Exec.bind_eq_ok.mp hrs
      obtain ⟨rs, htail, hrs⟩ := Exec.bind_eq_ok.mp hrs
      obtain rfl := Exec.pure_eq_ok.mp hrs
      obtain ⟨hhead, htl⟩ := List.forall_mem_cons.mp hpass
      obtain rfl : failed = false := hhead
      refine Exec.bind_eq_ok.mpr ⟨_, hcase.2 ▸ judge_relaxed h hcase.1 hjudge, ?_⟩
      exact Exec.bind_eq_ok.mpr ⟨rs, ih htl htail, rfl⟩

/-- A run that succeeds says the same under looser options. -/
theorem check_relaxed {basename sass report : Str}
    (hpass : check basename sass opts = .ok (report, 0)) :
    check basename sass opts' = .ok (report, 0) := by
  by_cases hgate : basename ∈ exemptBinaries.map (·.1)
  · cases hfind : exemptBinaries.find? (·.1 = basename) with
    | none =>
        obtain ⟨e, he, rfl⟩ := List.mem_map.mp hgate
        exact absurd (decide_eq_true rfl) (List.find?_eq_none.mp hfind e he)
    | some e =>
        rw [check, hfind] at hpass ⊢
        exact hpass
  · obtain ⟨fs, rs, hfs, hrs, hlen, rfl, hcode⟩ := (check_eq_ok_iff hgate).mp hpass
    have hclean : AllPass rs := by
      by_contra hclean
      rw [if_neg hclean] at hcode
      cases hcode
    exact (check_eq_ok_iff hgate).mpr
      ⟨fs, rs, hfs, rulings_relaxed h hrs hclean.2, hlen, rfl, hcode⟩

end Relaxed

theorem check_relaxed_mixed : check "pipes.bin" mixedText ⟨1, 65536, 6⟩ =
    .ok (lit "PASS mix_kernel<OpFFMA+OpLOP3>: 2 primary, 3 instrs, 48 B\n" ++
      lit "1 kernels checked, 0 failures\n", 0) :=
  check_relaxed ⟨by decide, by decide, by decide⟩ check_mixed

end CalxMill.Nvidia
