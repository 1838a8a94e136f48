import CalxMill.Cli.Session

/-!
# A run of the telemetry command

A row that cannot be read is counted, and changes nothing else of what the
command prints.  Under `--strict` it also fails the run.
-/

namespace CalxMill.Cli

open Lib Rust Nvidia

deriving instance DecidableEq for TeleRecord

/-- The clock of the run, when the records give one within the sanity band. -/
def consensus (recs : List TeleRecord) : Option ℚ :=
  (upperMedian (liveClocks recs)).filter fun c ↦ 0.4 ≤ c ∧ c ≤ 3.5

/-- The cycles and the spans add up within a `u64`. -/
def Summable (recs : List TeleRecord) : Prop :=
  (recs.map (·.cycles.toNat)).sum < 2 ^ 64 ∧ (recs.map (·.spanNs)).sum < 2 ^ 64

instance : DecidablePred Summable := fun _ ↦ inferInstanceAs (Decidable (_ ∧ _))

/-! ## The summary -/

theorem derive_eq (recs : List TeleRecord) (peak : F64) :
    TeleCtx.derive recs peak = .ok ((consensus recs).map fun c ↦ ⟨.fin c, peak⟩) := by
  rw [TeleCtx.derive, runClockGhz_eq, consensus]
  exact congrArg Except.ok (Option.map_map ..)

theorem consensus_pos {recs : List TeleRecord} {c : ℚ} (h : consensus recs = some c) : 0 < c := by
  have hband := Option.filter_eq_some_iff.mp h
  have hlow := (of_decide_eq_true hband.2).1
  linarith

theorem consensus_nil : consensus [] = none := rfl

theorem addU64_panics {a b : ℕ} {e : Fail Str} (h : addU64 a b = .error e) :
    ∃ msg, e = .panic msg := by
  rw [addU64, checked] at h
  split at h
  · cases h
  · exact ⟨_, (Except.error.inj h).symm⟩

theorem sumU64_panics {f : TeleRecord → ℕ} {recs : List TeleRecord} {e : Fail Str}
    (h : sumU64 f recs = .error e) : ∃ msg, e = .panic msg := by
  have hfold : ∀ t, recs.foldlM (fun t r ↦ addU64 t (f r)) t = .error e →
      ∃ msg, e = .panic msg := by
    clear h
    induction recs with
    | nil => exact nofun
    | cons r recs ih =>
        intro t ht
        rw [List.foldlM_cons] at ht
        rcases Exec.bind_eq_error.mp ht with hadd | ⟨t', -, hrest⟩
        · exact addU64_panics hadd
        · exact ih t' hrest
  exact hfold 0 h

theorem totalsLine_panics {ctx : TeleCtx} {recs : List TeleRecord} {e : Fail Str}
    (h : totalsLine ctx recs = .error e) : ∃ msg, e = .panic msg := by
  rcases Exec.bind_eq_error.mp h with hcycles | ⟨_, -, hrest⟩
  · exact sumU64_panics hcycles
  · rcases Exec.bind_eq_error.mp hrest with hspan | ⟨_, -, hpure⟩
    · exact sumU64_panics hspan
    · cases hpure

section

variable {recs : List TeleRecord} (path : Str)

theorem printSummary_refused (h : consensus recs = none) (c : Console) :
    (printSummary path recs).exec c = (.error (.err (noClock path)), c) := by
  have hderive : TeleCtx.derive recs tu102PeakDramGbps = .ok none := by rw [derive_eq, h]; rfl
  rw [printSummary, exec_lift_bind hderive]
  exact exec_lift_error rfl _ c

theorem printSummary_overflows {run : ℚ} (h : consensus recs = some run) (hsum : ¬ Summable recs) :
    ∃ msg, ∀ c, (printSummary path recs).exec c = (.error (.panic msg), c) := by
  have hderive : TeleCtx.derive recs tu102PeakDramGbps =
      .ok (some ⟨.fin run, tu102PeakDramGbps⟩) := by rw [derive_eq, h]; rfl
  cases htotals : totalsLine ⟨.fin run, tu102PeakDramGbps⟩ recs with
  | ok line =>
      obtain ⟨hcycles, hspan, -⟩ := (totalsLine_eq_ok (consensus_pos h)).mp htotals
      exact absurd ⟨hcycles, hspan⟩ hsum
  | error e =>
      obtain ⟨msg, rfl⟩ := totalsLine_panics htotals
      refine ⟨msg, fun c ↦ ?_⟩
      rw [printSummary, exec_lift_bind hderive, exec_lift_bind (Exec.ofOption_some _ _)]
      exact exec_lift_error htotals _ c

theorem exec_print₃ (a b d : Str) (c : Console) :
    (do print a; print b; print d : Command Unit).exec c =
      (.ok (), { c with stdout := c.stdout ++ (a ++ b ++ d) }) := by
  rw [← List.append_assoc, ← List.append_assoc]
  rfl

theorem printSummary_prints {run : ℚ} (h : consensus recs = some run) (hsum : Summable recs) :
    ∃ text, ∀ c, (printSummary path recs).exec c =
      (.ok (), { c with stdout := c.stdout ++ text }) := by
  have hderive : TeleCtx.derive recs tu102PeakDramGbps =
      .ok (some ⟨.fin run, tu102PeakDramGbps⟩) := by rw [derive_eq, h]; rfl
  obtain ⟨totals, htotals⟩ : ∃ line, totalsLine ⟨.fin run, tu102PeakDramGbps⟩ recs = .ok line :=
    ⟨_, (totalsLine_eq_ok (consensus_pos h)).mpr ⟨hsum.1, hsum.2, rfl⟩⟩
  refine ⟨totals ++ topLines ⟨.fin run, tu102PeakDramGbps⟩ recs ++ overlapLine recs, fun c ↦ ?_⟩
  rw [printSummary, exec_lift_bind hderive, exec_lift_bind (Exec.ofOption_some _ _),
    exec_lift_bind htotals]
  exact exec_print₃ _ _ _ c

/-- The summary ends alike and prints the same wherever it runs. -/
theorem exec_printSummary (recs : List TeleRecord) :
    ∃ r text, ∀ c, (printSummary path recs).exec c =
      (r, { c with stdout := c.stdout ++ text }) := by
  cases hclock : consensus recs with
  | none =>
      refine ⟨.error (.err (noClock path)), [], fun c ↦ ?_⟩
      rw [printSummary_refused path hclock, List.append_nil]
  | some run =>
      by_cases hsum : Summable recs
      · exact ⟨_, printSummary_prints path hclock hsum⟩
      · obtain ⟨msg, hpanic⟩ := printSummary_overflows path hclock hsum
        refine ⟨.error (.panic msg), [], fun c ↦ ?_⟩
        rw [hpanic, List.append_nil]

/-- The rows that were skipped change the warning and the code of success. -/
theorem exec_reportRows (args : Args) (recs : List TeleRecord) :
    ∃ (r : Exec Str Unit) (text : Str), ∀ skipped c, ∃ err,
      (reportRows args path recs skipped).exec c =
        ((fun _ ↦ if args.has "strict" && decide (0 < skipped) then 1 else 0) <$> r,
          { c with stdout := c.stdout ++ text, stderr := c.stderr ++ err }) := by
  obtain ⟨r, text, hsummary⟩ := exec_printSummary path recs
  by_cases hnil : recs = []
  · refine ⟨.error (.err (path ++ ": no telemetry records parsed")), [], fun skipped c ↦ ?_⟩
    obtain ⟨err, hwarn⟩ := exec_eprintln_if (0 < skipped) _ c
    refine ⟨err, ?_⟩
    rw [reportRows, warnSkipped, Prog.exec_bind_ok hwarn, if_pos hnil, List.append_nil]
    rfl
  · refine ⟨r, text, fun skipped c ↦ ?_⟩
    obtain ⟨err, hwarn⟩ := exec_eprintln_if (0 < skipped) _ c
    refine ⟨err, ?_⟩
    rw [reportRows, warnSkipped, Prog.exec_bind_ok hwarn, if_neg hnil, Prog.exec_bind, hsummary]
    cases r with
    | error e => rfl
    | ok u => rfl

end

/-! ## The run -/

section

variable {w : World} {rest : List Str} {args : Args} {path text : Str}

theorem exec_telemetry (hargs : Args.parse (valueFlags "telemetry") rest = .ok args)
    (hpath : args.positional.head? = some path) {c : Console}
    (hread : c.world.read path = .ok text) :
    (run (lit "telemetry" :: rest)).exec c = (reportRows args path ((lines text).filterMap recordOf)
      ((lines text).countP dropped)).exec c := by
  have hhead : Exec.ofOption (lit "telemetry: need a .tele file path") args.positional.head? =
      .ok path := Exec.ofOption_eq_ok.mpr hpath
  have hrun : run (lit "telemetry" :: rest) = runTelemetry rest := rfl
  rw [hrun, runTelemetry, exec_lift_bind hargs, exec_lift_bind hhead, exec_read_bind hread,
    parseTeleCounted_eq]

/-- A run refuses a file whose records give no clock, and overflows on sums
beyond a `u64`; with `--strict` it also fails on a row that it skipped.  It
prints nothing unless it comes to the summary. -/
theorem telemetry_exit (hargs : Args.parse (valueFlags "telemetry") rest = .ok args)
    (hpath : args.positional.head? = some path) (hread : w.read path = .ok text) :
    let recs := (lines text).filterMap recordOf
    let out := invoke w (lit "telemetry" :: rest)
    out.code = (if consensus recs = none then 2 else if ¬ Summable recs then 101 else
      if args.has "strict" ∧ ∃ line ∈ lines text, dropped line then 1 else 0) ∧
        (2 ≤ out.code → out.console.stdout = []) := by
  intro recs out
  obtain ⟨err, hwarn⟩ := exec_eprintln_if (0 < (lines text).countP dropped) _ (.start w)
  have hrun := exec_telemetry hargs hpath (c := .start w) hread
  rw [reportRows, warnSkipped, Prog.exec_bind_ok hwarn] at hrun
  have hout : out = invoke w (lit "telemetry" :: rest) := rfl
  rw [invoke, hrun] at hout
  cases hclock : consensus recs with
  | none =>
      rw [if_pos rfl]
      by_cases hnil : recs = []
      · rw [if_pos hnil, fail, Prog.exec_fail] at hout
        rw [hout]
        exact ⟨rfl, fun _ ↦ rfl⟩
      · rw [if_neg hnil, Prog.exec_bind_error (printSummary_refused path hclock _)] at hout
        rw [hout]
        exact ⟨rfl, fun _ ↦ rfl⟩
  | some run =>
      have hne : recs ≠ [] := by
        rintro hnil
        rw [hnil, consensus_nil] at hclock
        cases hclock
      rw [if_neg hne] at hout
      rw [if_neg (Option.some_ne_none run)]
      by_cases hsum : Summable recs
      · obtain ⟨shown, hshown⟩ := printSummary_prints path hclock hsum
        rw [Prog.exec_bind_ok (hshown _), Prog.exec_pure] at hout
        rw [if_neg (not_not.mpr hsum), hout]
        simp only [Bool.and_eq_true, decide_eq_true_iff, List.countP_pos_iff]
        split
        · exact ⟨rfl, fun hcode ↦ absurd hcode (by decide)⟩
        · exact ⟨rfl, fun hcode ↦ absurd hcode (by decide)⟩
      · obtain ⟨msg, hpanic⟩ := printSummary_overflows path hclock hsum
        rw [Prog.exec_bind_error (hpanic _)] at hout
        rw [if_pos hsum, hout]
        exact ⟨rfl, fun _ ↦ rfl⟩

/-- A header, one record and a row that is cut short. -/
def cutShort : Str := "op_index\tkind\n6\tX\tmem\t0\t1000\t1900\t0\t0\n7\tX\tmem\t100\n"

theorem parse_strict : Args.parse (valueFlags "telemetry") [lit "run.tele", lit "--strict"] =
    .ok ⟨["run.tele"], [("strict", none)]⟩ := by
  decide +kernel

/-- The row that is cut short fails the run. -/
theorem telemetry_exit_cutShort :
    (invoke (twoLoops.write "run.tele" cutShort)
      [lit "telemetry", lit "run.tele", lit "--strict"]).code = 1 := by
  have hread := World.write_read_self twoLoops "run.tele" cutShort
  exact (telemetry_exit parse_strict rfl hread).1.trans (by decide +kernel)

/-- Rows that cannot be read may come and go between the others: what the run
prints stays, and so does its code, but for `--strict`. -/
theorem telemetry_skips {w' : World} {text' : Str}
    (hargs : Args.parse (valueFlags "telemetry") rest = .ok args)
    (hpath : args.positional.head? = some path) (hread : w.read path = .ok text)
    (hread' : w'.read path = .ok text')
    (hrows : (lines text).filterMap recordOf = (lines text').filterMap recordOf) :
    let out := invoke w (lit "telemetry" :: rest)
    let out' := invoke w' (lit "telemetry" :: rest)
    out.console.stdout = out'.console.stdout ∧
      (out.code = out'.code ∨ args.has "strict" ∧ out.code ≤ 1 ∧ out'.code ≤ 1) := by
  obtain ⟨r, shown, hrun⟩ := exec_reportRows path args ((lines text).filterMap recordOf)
  obtain ⟨err, h⟩ := hrun ((lines text).countP dropped) (.start w)
  obtain ⟨err', h'⟩ := hrun ((lines text').countP dropped) (.start w')
  rw [← exec_telemetry hargs hpath hread] at h
  rw [hrows, ← exec_telemetry hargs hpath hread'] at h'
  intro out out'
  have hout : out = invoke w (lit "telemetry" :: rest) := rfl
  have hout' : out' = invoke w' (lit "telemetry" :: rest) := rfl
  rw [invoke, h] at hout
  rw [invoke, h'] at hout'
  rw [hout, hout']
  rcases r with (e | e) | u
  · exact ⟨rfl, .inl rfl⟩
  · exact ⟨rfl, .inl rfl⟩
  · refine ⟨rfl, ?_⟩
    have hcode : ∀ b : Bool, (if b then 1 else 0) % 256 ≤ 1 := by decide
    by_cases hstrict : args.has "strict"
    · exact .inr ⟨hstrict, hcode _, hcode _⟩
    · left
      simp only [Functor.map, Except.map, hstrict, Bool.false_and, Bool.false_eq_true, if_false]

theorem telemetry_skips_cutShort :
    let whole := invoke (twoLoops.write "run.tele" "6\tX\tmem\t0\t1000\t1900\t0\t0")
      [lit "telemetry", lit "run.tele", lit "--strict"]
    let cut := invoke (twoLoops.write "run.tele" cutShort)
      [lit "telemetry", lit "run.tele", lit "--strict"]
    whole.console.stdout = cut.console.stdout ∧
      (whole.code = cut.code ∨ Args.has ⟨["run.tele"], [("strict", none)]⟩ "strict" ∧
        whole.code ≤ 1 ∧ cut.code ≤ 1) :=
  telemetry_skips parse_strict rfl (World.write_read_self twoLoops _ _)
    (World.write_read_self twoLoops _ cutShort) (by decide +kernel)

end

end CalxMill.Cli
