import CalxMill.Cli.Commands
import CalxMill.Gate.ExitCodes
import CalxMill.Nvidia.CheckReport

/-!
# The exit codes

What each command can exit with, whatever its words and files are.  The
arbiter, the latency figures and the metric export never panic.
-/

namespace CalxMill.Cli

open Lib Rust Nvidia

/-- The codes that a command can end with. -/
def exitCodes (command : Str) : List ℕ :=
  if command ∈ [lit "latency", lit "compose", lit "ncu"] then [0, 2] else
  if command = "gate" then [0, 2, 3, 4] else
  if command = "mk-table" then [0, 2, 101] else
  if command ∈ [lit "project", lit "census", lit "check-sass", lit "verify-projection",
    lit "ptxas", lit "telemetry"] then [0, 1, 2, 101] else
  if command ∈ [lit "--help", lit "-h", lit "help"] then [0] else [2]

/-- The error is reported, and no panic. -/
def Reported (e : Fail Str) : Prop := ∃ msg, e = .err msg

theorem reported_of_safe {α : Type} {x : Exec Str α} (h : x.Safe) {e : Fail Str}
    (he : x = .error e) : Reported e := by
  cases e with
  | err msg => exact ⟨msg, rfl⟩
  | panic msg => exact absurd he (h msg)

/-! ## Commands that never panic -/

section

variable {α : Type} {E : Fail Str → Prop} {V : α → Prop}

theorem ends_print (text : Str) : Prog.Ends E (fun _ ↦ True) (print text) := .act

theorem ends_println (line : Str) : Prog.Ends E (fun _ ↦ True) (println line) := .act

theorem ends_eprintln (line : Str) : Prog.Ends E (fun _ ↦ True) (eprintln line) := .act

theorem ends_lift {x : Exec Str α} (h : x.Safe) : Prog.Ends Reported (fun _ ↦ True) (lift x) :=
  .look (fun _ _ _ ↦ trivial) fun _ _ he ↦ reported_of_safe h he

theorem ends_read (path : Str) : Prog.Ends Reported (fun _ ↦ True) (read path) := by
  apply Prog.Ends.look
  · exact fun _ _ _ ↦ trivial
  · intro c e he
    dsimp only at he
    cases hread : c.world.read path with
    | ok text =>
        rw [hread] at he
        cases he
    | error msg =>
        rw [hread] at he
        exact ⟨_, (Except.error.inj he).symm⟩

theorem ends_files {f : World → Exec Str α} (h : ∀ w a, f w = .ok a → V a) :
    Prog.Ends (fun _ ↦ True) V (files f) :=
  .look (fun c ↦ h c.world) fun _ _ _ ↦ trivial

end

theorem number_safe {α : Type} (args : Args) (parse : Str → Option α) (name : Str) (default : α) :
    (args.number parse name default).Safe := by
  rw [Args.number]
  cases args.value name with
  | none => exact Exec.Safe.ok _
  | some v => exact Exec.Safe.ofOption _ _

theorem opTemplate_safe (args : Args) : (opTemplate args).Safe := by
  apply Exec.Safe.bind (number_safe args _ _ _)
  intro chains _
  apply Exec.Safe.bind (number_safe args _ _ _)
  intro depth _
  apply Exec.Safe.bind (number_safe args _ _ _)
  intro cycPerOp _
  apply Exec.Safe.bind (number_safe args _ _ _)
  exact fun _ _ ↦ Exec.Safe.ok _

theorem ends_latency (rest : List Str) : Prog.Ends Reported (· = 0) (runLatency rest) := by
  apply Prog.Ends.bind (ends_lift (Args.parse_safe _ _))
  intro args _
  apply Prog.Ends.bind (ends_lift (opTemplate_safe args))
  intro t _
  apply Prog.Ends.bind (ends_print _)
  intro _ _
  apply Prog.Ends.bind (ends_lift (number_safe args _ _ _))
  intro budget _
  split
  · apply Prog.Ends.bind (ends_lift (number_safe args _ _ _))
    intro base _
    apply Prog.Ends.bind (ends_lift (number_safe args _ _ _))
    intro per _
    apply Prog.Ends.bind (ends_lift (number_safe args _ _ _))
    intro spend _
    apply Prog.Ends.bind (ends_print _)
    intro _ _
    split
    · exact Prog.Ends.bind (ends_println _) fun _ _ ↦ .pure rfl
    · exact .pure rfl
  · exact .pure rfl

theorem ends_compose (rest : List Str) : Prog.Ends Reported (· = 0) (runCompose rest) := by
  apply Prog.Ends.bind (ends_lift (Args.parse_safe _ _))
  intro args _
  apply Prog.Ends.bind (ends_lift (number_safe args _ _ _))
  intro mem _
  apply Prog.Ends.bind (ends_lift (number_safe args _ _ _))
  intro cmp _
  apply Prog.Ends.bind (ends_print _)
  intro _ _
  apply Prog.Ends.bind (ends_lift (number_safe args _ _ _))
  intro budget _
  split
  · apply Prog.Ends.bind (ends_lift (opTemplate_safe args))
    intro t _
    apply Prog.Ends.bind (ends_lift (number_safe args _ _ _))
    intro base _
    apply Prog.Ends.bind (ends_lift (number_safe args _ _ _))
    intro per _
    apply Prog.Ends.bind (ends_lift (number_safe args _ _ _))
    intro spend _
    exact Prog.Ends.bind (ends_println _) fun _ _ ↦ .pure rfl
  · exact .pure rfl

theorem cell_eq_ok {row : List Str} {i : ℕ} (h : i < row.length) :
    ∃ f, Table.cell row i = .ok f := by
  rw [Table.cell, List.getElem?_eq_getElem h]
  exact ⟨_, Exec.expect_some _ _⟩

/-- A row is read after its width was checked. -/
theorem metricRows_safe (header : List Str) (records : List (List Str)) :
    (metricRows header records).Safe := by
  apply Exec.Safe.bind (Exec.Safe.ofOption _ _)
  intro kernel _
  apply Exec.Safe.bind (Exec.Safe.ofOption _ _)
  intro metric _
  apply Exec.Safe.bind (Exec.Safe.ofOption _ _)
  intro value _
  apply Exec.Safe.mapM
  intro r hr
  have hwide := of_decide_eq_true (List.mem_filter.mp hr).2
  rw [max_lt_iff, max_lt_iff] at hwide
  obtain ⟨k, hk⟩ := cell_eq_ok hwide.2
  obtain ⟨m, hm⟩ := cell_eq_ok hwide.1.2
  obtain ⟨v, hv⟩ := cell_eq_ok hwide.1.1
  rw [metricRow, hk, hm, hv]
  exact Exec.Safe.ok _

theorem parseNcuCsv_safe (text : Str) : (parseNcuCsv text).Safe := by
  apply Exec.Safe.bind (Exec.Safe.ofOption _ _)
  intro headerAt _
  dsimp only
  split
  · exact Exec.Safe.err _
  · exact metricRows_safe _ _

theorem only_safe (args : Args) (msg : Str) : (args.only msg).Safe := by
  rw [Args.only]
  split
  · exact Exec.Safe.ok _
  · exact Exec.Safe.err _

theorem ends_ncu (rest : List Str) : Prog.Ends Reported (· = 0) (runNcu rest) := by
  apply Prog.Ends.bind (ends_lift (Args.parse_safe _ _))
  intro args _
  apply Prog.Ends.bind (ends_lift (only_safe args _))
  intro path _
  apply Prog.Ends.bind (ends_read path)
  intro text _
  apply Prog.Ends.bind (ends_lift (parseNcuCsv_safe text))
  intro rows _
  apply Prog.Ends.bind (.forM fun r _ ↦ ends_println _)
  intro _ _
  exact Prog.Ends.bind (.forM fun a _ ↦ ends_println _) fun _ _ ↦ .pure rfl

theorem gate_run_eq_ok {fs : Gate.FileSystem} {rest : List Str} {out : Gate.Outcome}
    (h : Gate.run fs rest = .ok out) : out.code ∈ [0, 2, 3, 4] := by
  obtain ⟨args, -, h⟩ := Exec.bind_eq_ok.mp h
  cases hadj : Gate.adjudicate fs args with
  | ok out' =>
      rw [hadj] at h
      obtain rfl := Except.ok.inj h
      obtain ⟨v, hcode, -⟩ := Gate.adjudicate_prints hadj
      rw [hcode]
      cases v <;> decide
  | error e =>
      rw [hadj] at h
      cases e with
      | err msg =>
          obtain rfl := Exec.pure_eq_ok.mp h
          simp [Gate.usage, usageExit]
      | panic msg => cases h

theorem gate_run_safe (fs : Gate.FileSystem) (rest : List Str) : (Gate.run fs rest).Safe := by
  apply Exec.Safe.bind (Args.parse_safe _ _)
  intro args _ msg hmsg
  have hsafe := Gate.adjudicate_safe fs args
  cases hadj : Gate.adjudicate fs args with
  | ok out =>
      rw [hadj] at hmsg
      cases hmsg
  | error e =>
      rw [hadj] at hmsg hsafe
      cases e with
      | err msg' => cases hmsg
      | panic msg' => exact hsafe msg' rfl

theorem ends_gate (rest : List Str) : Prog.Ends Reported (· ∈ [0, 2, 3, 4]) (runGate rest) := by
  apply Prog.Ends.bind (V := fun out : Gate.Outcome ↦ out.code ∈ [0, 2, 3, 4])
  · apply Prog.Ends.look
    · exact fun c out hout ↦ gate_run_eq_ok hout
    · exact fun c e he ↦ reported_of_safe (gate_run_safe c.world.read rest) he
  · intro out hcode
    apply Prog.Ends.bind (.forM fun line _ ↦ ends_println line)
    intro _ _
    exact Prog.Ends.bind (.forM fun line _ ↦ ends_eprintln line) fun _ _ ↦ .pure hcode

/-! ## Commands that may panic -/

theorem ends_project (rest : List Str) : Prog.Ends (fun _ ↦ True) (· ≤ 1) (runProject rest) := by
  apply Prog.Ends.bind (.any _)
  intro args _
  apply Prog.Ends.bind (.any _)
  intro a _
  apply Prog.Ends.bind (.any _)
  intro table _
  apply Prog.Ends.bind (.any _)
  intro rates _
  apply Prog.Ends.bind (.any _)
  intro text _
  apply Prog.Ends.bind (.any _)
  intro census _
  split
  · exact .bind (.any _) fun _ _ ↦ .pure le_rfl
  · apply Prog.Ends.bind (.any _)
    intro r _
    apply Prog.Ends.bind (.any _)
    intro text _
    apply Prog.Ends.bind (.any _)
    intro _ _
    split
    · exact .bind (.any _) fun _ _ ↦ .pure zero_le_one
    · exact .pure zero_le_one

theorem ends_census (rest : List Str) : Prog.Ends (fun _ ↦ True) (· ≤ 1) (runCensus rest) := by
  apply Prog.Ends.bind (.any _)
  intro args _
  apply Prog.Ends.bind (.any _)
  intro path _
  apply Prog.Ends.bind (.any _)
  intro kernel _
  apply Prog.Ends.bind (.any _)
  intro sass _
  apply Prog.Ends.bind (.any _)
  intro drops _
  apply Prog.Ends.bind (.any _)
  intro _ _
  apply Prog.Ends.bind (.any _)
  intro counts _
  split
  · exact .bind (.any _) fun _ _ ↦ .pure le_rfl
  · apply Prog.Ends.bind (.any _)
    intro csv _
    split
    · exact .bind (.any _) fun _ _ ↦ .pure zero_le_one
    · exact .bind (.any _) fun _ _ ↦ .pure zero_le_one

theorem check_code_le {basename sass report : Str} {opts : GateOpts} {code : ℕ}
    (h : check basename sass opts = .ok (report, code)) : code ≤ 1 := by
  by_cases hgate : basename ∈ exemptBinaries.map (·.1)
  · rw [check] at h
    split at h
    · obtain ⟨-, rfl⟩ := Prod.mk.inj (Exec.pure_eq_ok.mp h)
      exact zero_le_one
    · next hnone =>
        obtain ⟨e, he, rfl⟩ := List.mem_map.mp hgate
        exact absurd (decide_eq_true rfl) (List.find?_eq_none.mp hnone e he)
  · obtain ⟨-, rs, -, -, -, -, rfl⟩ := (check_eq_ok_iff hgate).mp h
    split <;> decide

theorem matchGroup_fail_le {gb : List (Str × F64)} {tolerance : F64} {st st' : MatchState}
    {x : (Str × F64) × ℕ} (hst : st.fail ≤ 1) (h : matchGroup gb tolerance st x = .ok st') :
    st'.fail ≤ 1 := by
  obtain ⟨b, -, h⟩ := Exec.bind_eq_ok.mp h
  obtain rfl := Exec.pure_eq_ok.mp h
  dsimp only
  split
  · exact le_rfl
  · exact hst

theorem censusMatch_code_le {w : World} {specA specB report : Str} {tolerance : F64} {code : ℕ}
    (h : censusMatch w specA specB tolerance = .ok (report, code)) : code ≤ 1 := by
  rw [censusMatch] at h
  obtain rfl | ⟨mix, n, -, h⟩ := withShares_eq_ok h
  · exact le_rfl
  obtain rfl | ⟨mix', n', -, h⟩ := withShares_eq_ok h
  · exact le_rfl
  obtain ⟨st, hst, h⟩ := Exec.bind_eq_ok.mp h
  obtain ⟨-, rfl⟩ := Prod.mk.inj (Exec.pure_eq_ok.mp h)
  exact Exec.foldlM_invariant (fun st : MatchState ↦ st.fail ≤ 1)
    (fun _ _ _ _ ↦ matchGroup_fail_le) zero_le_one hst

theorem ends_censusMatch (args : Args) :
    Prog.Ends (fun _ ↦ True) (· ≤ 1) (runCensusMatch args) := by
  rw [runCensusMatch]
  split
  · apply Prog.Ends.bind (.any _)
    intro tol _
    apply Prog.Ends.bind (V := fun r : Str × ℕ ↦ r.2 ≤ 1)
    · exact ends_files fun w r hr ↦ censusMatch_code_le hr
    · exact fun r hr ↦ .bind (.any _) fun _ _ ↦ .pure hr
  · exact .look (fun _ _ h ↦ nomatch h) fun _ _ _ ↦ trivial

theorem ends_checkSass (rest : List Str) :
    Prog.Ends (fun _ ↦ True) (· ≤ 1) (runCheckSass rest) := by
  apply Prog.Ends.bind (.any _)
  intro args _
  split
  · exact ends_censusMatch args
  · apply Prog.Ends.bind (.any _)
    intro path _
    apply Prog.Ends.bind (.any _)
    intro opts _
    apply Prog.Ends.bind (.any _)
    intro name _
    apply Prog.Ends.bind (.any _)
    intro sass _
    apply Prog.Ends.bind (V := fun r : Str × ℕ ↦ r.2 ≤ 1)
    · exact .look (fun _ r hr ↦ check_code_le hr) fun _ _ _ ↦ trivial
    · exact fun r hr ↦ .bind (.any _) fun _ _ ↦ .pure hr

theorem ends_mkTable (rest : List Str) : Prog.Ends (fun _ ↦ True) (· = 0) (runMkTable rest) := by
  apply Prog.Ends.bind (.any _)
  intro args _
  apply Prog.Ends.bind (.any _)
  intro dir _
  apply Prog.Ends.bind (.any _)
  intro priorsPath _
  apply Prog.Ends.bind (.any _)
  intro priors _
  apply Prog.Ends.bind (.any _)
  intro na _
  apply Prog.Ends.bind (.any _)
  intro out _
  apply Prog.Ends.bind (.any _)
  intro entries _
  apply Prog.Ends.bind (.any _)
  intro results _
  apply Prog.Ends.bind (.any _)
  intro csv _
  apply Prog.Ends.bind (.any _)
  intro _ _
  exact .bind (.any _) fun _ _ ↦ .pure rfl

theorem verifyProjection_code_le {w : World} {root report : Str} {code : ℕ}
    (h : verifyProjection w root = .ok (report, code)) : code ≤ 1 := by
  obtain ⟨table, -, h⟩ := Exec.bind_eq_ok.mp h
  obtain ⟨rates, -, h⟩ := Exec.bind_eq_ok.mp h
  obtain ⟨results, -, h⟩ := Exec.bind_eq_ok.mp h
  obtain ⟨meas, -, h⟩ := Exec.bind_eq_ok.mp h
  obtain ⟨kernels, -, h⟩ := Exec.bind_eq_ok.mp h
  obtain ⟨st, -, h⟩ := Exec.bind_eq_ok.mp h
  obtain ⟨-, rfl⟩ := Prod.mk.inj (Exec.pure_eq_ok.mp h)
  split <;> decide

theorem ends_verifyProjection (rest : List Str) :
    Prog.Ends (fun _ ↦ True) (· ≤ 1) (runVerifyProjection rest) := by
  apply Prog.Ends.bind (.any _)
  intro args _
  apply Prog.Ends.bind (.any _)
  intro root _
  apply Prog.Ends.bind (V := fun r : Str × ℕ ↦ r.2 ≤ 1)
  · exact ends_files fun w r hr ↦ verifyProjection_code_le hr
  · exact fun r hr ↦ .bind (.any _) fun _ _ ↦ .pure hr

theorem ends_ptxas (rest : List Str) : Prog.Ends (fun _ ↦ True) (· ≤ 1) (runPtxas rest) := by
  apply Prog.Ends.bind (.any _)
  intro args _
  apply Prog.Ends.bind (.any _)
  intro path _
  apply Prog.Ends.bind (.any _)
  intro text _
  dsimp only
  split
  · exact .bind (.any _) fun _ _ ↦ .pure le_rfl
  · apply Prog.Ends.bind (.any _)
    intro l _
    apply Prog.Ends.bind (.any _)
    intro fits _
    split
    · exact .pure zero_le_one
    · exact .pure le_rfl

theorem ends_telemetry (rest : List Str) :
    Prog.Ends (fun _ ↦ True) (· ≤ 1) (runTelemetry rest) := by
  apply Prog.Ends.bind (.any _)
  intro args _
  apply Prog.Ends.bind (.any _)
  intro path _
  apply Prog.Ends.bind (.any _)
  intro text _
  apply Prog.Ends.bind (.any _)
  intro _ _
  split
  · exact .look (fun _ _ h ↦ nomatch h) fun _ _ _ ↦ trivial
  · apply Prog.Ends.bind (.any _)
    intro _ _
    split
    · exact .pure le_rfl
    · exact .pure zero_le_one

/-! ## Every command -/

/-- A command that only reports its errors never exits with the code of a panic. -/
theorem code_of_reported {V : ℕ → Prop} {p : Command ℕ} {codes : List ℕ} (w : World)
    {argv : List Str} (hrun : run argv = p) (hp : Prog.Ends Reported V p)
    (hV : ∀ code, V code → code % 256 ∈ codes) (h2 : 2 ∈ codes) :
    (invoke w argv).code ∈ codes := by
  rw [invoke, hrun]
  rcases hexec : p.exec (.start w) with ⟨(e | msg) | code, c⟩
  · exact h2
  · obtain ⟨_, he⟩ := hp.fails (.start w) _ (by rw [hexec])
    cases he
  · exact hV code (hp.returns (.start w) code (by rw [hexec]))

theorem code_of_any {V : ℕ → Prop} {p : Command ℕ} {codes : List ℕ} (w : World)
    {argv : List Str} (hrun : run argv = p) (hp : Prog.Ends (fun _ ↦ True) V p)
    (hV : ∀ code, V code → code % 256 ∈ codes) (h2 : 2 ∈ codes) (h101 : 101 ∈ codes) :
    (invoke w argv).code ∈ codes := by
  rw [invoke, hrun]
  rcases hexec : p.exec (.start w) with ⟨(e | msg) | code, c⟩
  · exact h2
  · exact h101
  · exact hV code (hp.returns (.start w) code (by rw [hexec]))

theorem exitCode_of_le_one (code : ℕ) (h : code ≤ 1) : code % 256 ∈ [0, 1, 2, 101] := by
  obtain rfl | rfl : code = 0 ∨ code = 1 := by omega
  · decide
  · decide

theorem exitCode_of_eq_zero {codes : List ℕ} (h0 : 0 ∈ codes) (code : ℕ) (h : code = 0) :
    code % 256 ∈ codes := by
  rw [h]
  exact h0

theorem exitCode_of_verdict (code : ℕ) (h : code ∈ [0, 2, 3, 4]) : code % 256 ∈ [0, 2, 3, 4] := by
  have hlt : code < 256 := by
    simp only [List.mem_cons, List.not_mem_nil, or_false] at h
    omega
  rwa [Nat.mod_eq_of_lt hlt]

/-- A run exits with one of the codes of its command: only the gates exit 1,
only the arbiter exits 3 or 4, and the arbiter never panics. -/
theorem exit_codes (w : World) (command : Str) (rest : List Str) :
    (invoke w (command :: rest)).code ∈ exitCodes command := by
  by_cases hproject : command = "project"
  · subst hproject
    exact code_of_any w rfl (ends_project rest) exitCode_of_le_one (by decide) (by decide)
  by_cases hcensus : command = "census"
  · subst hcensus
    exact code_of_any w rfl (ends_census rest) exitCode_of_le_one (by decide) (by decide)
  by_cases hcheck : command = "check-sass"
  · subst hcheck
    exact code_of_any w rfl (ends_checkSass rest) exitCode_of_le_one (by decide) (by decide)
  by_cases htable : command = "mk-table"
  · subst htable
    exact code_of_any w rfl (ends_mkTable rest) (exitCode_of_eq_zero (by decide)) (by decide)
      (by decide)
  by_cases hverify : command = "verify-projection"
  · subst hverify
    exact code_of_any w rfl (ends_verifyProjection rest) exitCode_of_le_one (by decide) (by decide)
  by_cases hptxas : command = "ptxas"
  · subst hptxas
    exact code_of_any w rfl (ends_ptxas rest) exitCode_of_le_one (by decide) (by decide)
  by_cases hncu : command = "ncu"
  · subst hncu
    exact code_of_reported w rfl (ends_ncu rest) (exitCode_of_eq_zero (by decide)) (by decide)
  by_cases hlatency : command = "latency"
  · subst hlatency
    exact code_of_reported w rfl (ends_latency rest) (exitCode_of_eq_zero (by decide)) (by decide)
  by_cases hcompose : command = "compose"
  · subst hcompose
    exact code_of_reported w rfl (ends_compose rest) (exitCode_of_eq_zero (by decide)) (by decide)
  by_cases hgate : command = "gate"
  · subst hgate
    exact code_of_reported w rfl (ends_gate rest) exitCode_of_verdict (by decide)
  by_cases htelemetry : command = "telemetry"
  · subst htelemetry
    exact code_of_any w rfl (ends_telemetry rest) exitCode_of_le_one (by decide) (by decide)
  by_cases hhelp : command = "--help" ∨ command = "-h" ∨ command = "help"
  · have hrun : (invoke w (command :: rest)).code = 0 := by
      obtain rfl | rfl | rfl := hhelp <;> rfl
    have hcodes : exitCodes command = [0] := by
      obtain rfl | rfl | rfl := hhelp <;> rfl
    rw [hrun, hcodes]
    exact List.mem_singleton_self 0
  · have hrun : (invoke w (command :: rest)).code = 2 := by
      simp [invoke, run, runCommand, fail, *]
    have hcodes : exitCodes command = [2] := by
      rw [not_or, not_or] at hhelp
      simp [exitCodes, *]
    rw [hrun, hcodes]
    exact List.mem_singleton_self 2

end CalxMill.Cli
