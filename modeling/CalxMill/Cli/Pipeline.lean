import CalxMill.Cli.Session
import CalxMill.Nvidia.Disassembly

/-!
# From a disassembly to its projection

The census writes a file that the projection reads.  What the projection prints
is what the counts of the disassembly project to: on the way through the file
nothing is lost, and nothing can overflow.
-/

namespace CalxMill.Cli

open Lib Rust Nvidia World

/-! ## The size of a census -/

theorem sum_total_counts_le (kernel : Pattern) (full : Bool) (secs : List (Str × List Scan)) :
    ((censusState kernel full secs).counts.map (·.2.total)).sum ≤
      (secs.map (·.2.length)).sum := by
  rw [sum_total_counts]
  exact (List.filter_sublist.map _).sum_le_sum fun _ _ ↦ Nat.zero_le _

theorem sum_feedScan_le (secs : List (Str × List Scan)) (line : Str) :
    ((feedScan secs line).map (·.2.length)).sum ≤ (secs.map (·.2.length)).sum + 1 := by
  rw [feedScan]
  split
  · simp
  · rcases List.eq_nil_or_concat secs with rfl | ⟨secs, s, rfl⟩
    · simp
    · rw [if_neg (by simp)]
      cases scan line with
      | none => exact Nat.le_succ _
      | some x =>
          rw [Option.elim_some, List.concat_eq_append, pushScan_append]
          simp
          omega

theorem sum_sections_le (sass : Str) :
    ((sections sass).map (·.2.length)).sum ≤ (bodyLines sass).length := by
  rw [sections]
  induction bodyLines sass using List.reverseRecOn with
  | nil => exact Nat.le_refl 0
  | append_singleton ls line ih =>
      rw [List.foldl_append, List.foldl_cons, List.foldl_nil, List.length_append,
        List.length_singleton]
      exact (sum_feedScan_le _ line).trans (Nat.succ_le_succ ih)

/-- A text of fewer than `2^64` lines has a census that is read back whole. -/
theorem census_read_back {sass csv : Str} {p : Pattern} {full : Bool} (q : Pattern)
    {counts : List (Str × Census)} (hcounts : censusPerKernel sass p full = .ok counts)
    (hcsv : censusCsv counts = .ok csv) (hnames : ∀ f ∈ functions sass, ',' ∉ f.1 ∧ '"' ∉ f.1)
    (hlines : (lines sass).length < 2 ^ 64) :
    ∃ census, fromCensusCsv csv q = .ok census ∧ CensusSurvives q counts census := by
  obtain rfl := counts_of_ok hcounts
  have hsum : ((censusState p full (sections sass)).counts.map (·.2.total)).sum < 2 ^ 64 := by
    have hcensus := sum_total_counts_le p full (sections sass)
    have hsections := sum_sections_le sass
    have hbody : (bodyLines sass).length ≤ (lines sass).length := List.length_dropWhile_le _ _
    omega
  obtain ⟨csv', hcsv', hread⟩ := fromCensusCsv_censusCsv q hsum
    (fun k hk ↦ needsQuotes_kernel hk hnames) fun k hk op hop ↦ needsQuotes_op hk hop
  obtain rfl := Except.ok.inj (hcsv.symm.trans hcsv')
  exact ⟨_, hread, censusSurvives q fun k hk ↦ nodup_keys_of_mem_counts hk⟩

/-! ## The two commands -/

theorem exists_of_code {w : World} {argv : List Str} (h : (invoke w argv).code = 0) :
    ∃ code, code % 256 = 0 ∧ (run argv).exec (.start w) = (.ok code, (invoke w argv).console) := by
  rw [invoke] at h ⊢
  rcases hrun : (run argv).exec (.start w) with ⟨(e | e) | code, c⟩
  · rw [hrun] at h
    cases h
  · rw [hrun] at h
    cases h
  · rw [hrun] at h
    exact ⟨code, h, rfl⟩

/-- The text is what a census projects to, over the table that the words name. -/
def ProjectsTo (w : World) (a : ProjectArgs) (census : Census) (text : Str) : Prop :=
  ∃ table rates r, w.read a.tablePath = .ok table ∧ Rates.parse table = .ok rates ∧
    census.items ≠ [] ∧ Nvidia.project census a.warps a.memClass rates a.dramBudget = .ok r ∧
    report r = .ok text

section

variable {w : World} {rest : List Str} {args : Args}

theorem exec_project_iff {a : ProjectArgs}
    (hargs : Args.parse (valueFlags "project") rest = .ok args)
    (ha : projectArgs args = .ok a) (hplain : args.has "regs-per-thread" = false) {c c' : Console}
    {code : ℕ} (hcode : code % 256 = 0) : (runProject rest).exec c = (.ok code, c') ↔
      ∃ text, c' = { c with stdout := c.stdout ++ text } ∧ code = 0 ∧
        ∃ file census, c.world.read a.censusPath = .ok file ∧
          fromCensusCsv file a.kernel = .ok census ∧ ProjectsTo c.world a census text := by
  rw [runProject, exec_lift_bind hargs, exec_lift_bind ha, exec_read_eq_ok]
  simp only [exec_lift_eq_ok, exec_read_eq_ok]
  constructor
  · rintro ⟨table, htable, rates, hrates, file, hfile, census, hcensus, hexec⟩
    by_cases hnil : census.items = []
    · rw [if_pos hnil] at hexec
      obtain rfl : 1 = code := Except.ok.inj (Prod.ext_iff.mp hexec).1
      cases hcode
    · rw [if_neg hnil] at hexec
      simp only [exec_lift_eq_ok] at hexec
      obtain ⟨r, hr, text, htext, hexec⟩ := hexec
      rw [if_neg (by simp [hplain])] at hexec
      obtain ⟨hend, hconsole⟩ := Prod.ext_iff.mp hexec
      refine ⟨text, hconsole.symm, (Except.ok.inj hend).symm, file, census, hfile, hcensus, ?_⟩
      exact ⟨table, rates, r, htable, hrates, hnil, hr, htext⟩
  · rintro ⟨text, rfl, rfl, file, census, hfile, hcensus, table, rates, r, htable, hrates, hnil, hr,
      htext⟩
    refine ⟨table, htable, rates, hrates, file, hfile, census, hcensus, ?_⟩
    rw [if_neg hnil]
    simp only [exec_lift_eq_ok]
    refine ⟨r, hr, text, htext, ?_⟩
    rw [if_neg (by simp [hplain])]
    rfl

theorem project_prints_iff {a : ProjectArgs}
    (hargs : Args.parse (valueFlags "project") rest = .ok args)
    (ha : projectArgs args = .ok a) (hplain : args.has "regs-per-thread" = false) {text : Str} :
    ((invoke w (lit "project" :: rest)).code = 0 ∧
        (invoke w (lit "project" :: rest)).console.stdout = text) ↔
      ∃ file census, w.read a.censusPath = .ok file ∧ fromCensusCsv file a.kernel = .ok census ∧
        ProjectsTo w a census text := by
  have hrun : run (lit "project" :: rest) = runProject rest := rfl
  constructor
  · rintro ⟨hzero, htext⟩
    obtain ⟨code, hcode, hexec⟩ := exists_of_code hzero
    rw [hrun, exec_project_iff hargs ha hplain hcode] at hexec
    obtain ⟨shown, hconsole, -, hshown⟩ := hexec
    rw [hconsole] at htext
    obtain rfl : shown = text := htext
    exact hshown
  · intro h
    have hexec : (runProject rest).exec (.start w) =
        (.ok 0, { Console.start w with stdout := (Console.start w).stdout ++ text }) :=
      (exec_project_iff hargs ha hplain rfl).mpr ⟨text, rfl, rfl, h⟩
    rw [invoke, hrun, hexec]
    exact ⟨rfl, rfl⟩

/-- A census that succeeds has written the counts of the disassembly. -/
theorem census_writes {src out : Str} (hargs : Args.parse (valueFlags "census") rest = .ok args)
    (hsrc : args.positional = [src]) (hout : args.value "o" = some out) (hdash : out ≠ lit "-")
    (hcode : (invoke w (lit "census" :: rest)).code = 0) :
    ∃ sass p counts csv, w.sassText src = .ok sass ∧
      Pattern.tryNew ((args.value "kernel").getD ".*") = .ok p ∧
      censusPerKernel sass p (args.has "full") = .ok counts ∧ censusCsv counts = .ok csv ∧
      (invoke w (lit "census" :: rest)).world = w.write out csv := by
  obtain ⟨code, hzero, hexec⟩ := exists_of_code hcode
  have hrun : run (lit "census" :: rest) = runCensus rest := rfl
  have honly : args.only (lit "census: exactly one binary or .sass expected") = .ok src := by
    rw [Args.only, hsrc]
    rfl
  have hfile : (args.value "o").filter (· ≠ lit "-") = some out := by
    rw [hout, Option.filter_some, if_pos (decide_eq_true hdash)]
  rw [hrun, runCensus, exec_lift_bind hargs, exec_lift_bind honly] at hexec
  simp only [exec_lift_eq_ok, exec_files_eq_ok] at hexec
  obtain ⟨p, hp, sass, hsass, drops, -, hexec⟩ := hexec
  obtain ⟨err, hwarn⟩ := exec_eprintln_if (0 < drops) _ (.start w)
  rw [warnDrops, Prog.exec_bind_ok hwarn] at hexec
  simp only [exec_lift_eq_ok] at hexec
  obtain ⟨counts, hcounts, hexec⟩ := hexec
  by_cases hnil : counts = []
  · rw [if_pos hnil] at hexec
    obtain rfl : 1 = code := Except.ok.inj (Prod.ext_iff.mp hexec).1
    cases hzero
  · rw [if_neg hnil] at hexec
    simp only [exec_lift_eq_ok, hfile] at hexec
    obtain ⟨csv, hcsv, hexec⟩ := hexec
    refine ⟨sass, p, counts, csv, hsass, hp, hcounts, hcsv, ?_⟩
    obtain ⟨u, t, hwrite, hpure⟩ := Prog.exec_bind_eq_ok.mp hexec
    obtain ⟨v, -, hact⟩ := exec_files_eq_ok.mp hwrite
    calc
      (invoke w (lit "census" :: rest)).world = t.world :=
        (congrArg Console.world (Prod.ext_iff.mp hpure).2).symm
      _ = w.write out csv := (congrArg Console.world (Prod.ext_iff.mp hact).2).symm

end

/-- The projection of a census file prints what the counts of the disassembly
project to, and it succeeds exactly when they project. -/
theorem census_then_project {w : World} {rest rest' : List Str} {args args' : Args}
    {src out sass : Str} {a : ProjectArgs}
    (hargs : Args.parse (valueFlags "census") rest = .ok args) (hsrc : args.positional = [src])
    (hout : args.value "o" = some out) (hdash : out ≠ lit "-")
    (hcode : (invoke w (lit "census" :: rest)).code = 0) (hsass : w.sassText src = .ok sass)
    (hnames : ∀ f ∈ functions sass, ',' ∉ f.1 ∧ '"' ∉ f.1) (hlines : (lines sass).length < 2 ^ 64)
    (hargs' : Args.parse (valueFlags "project") rest' = .ok args') (ha : projectArgs args' = .ok a)
    (hplain : args'.has "regs-per-thread" = false) (hin : a.censusPath = out)
    (htable : a.tablePath ≠ out) :
    ∃ p counts census, Pattern.tryNew ((args.value "kernel").getD ".*") = .ok p ∧
      censusPerKernel sass p (args.has "full") = .ok counts ∧
      CensusSurvives a.kernel counts census ∧
      let shown := invoke (afterSession w [lit "census" :: rest]) (lit "project" :: rest')
      ∀ text, (shown.code = 0 ∧ shown.console.stdout = text) ↔ ProjectsTo w a census text := by
  obtain ⟨sass', p, counts, csv, hsass', hp, hcounts, hcsv, hworld⟩ :=
    census_writes hargs hsrc hout hdash hcode
  obtain rfl := Except.ok.inj (hsass.symm.trans hsass')
  obtain ⟨census, hread, hsurvives⟩ := census_read_back a.kernel hcounts hcsv hnames hlines
  refine ⟨p, counts, census, hp, hcounts, hsurvives, ?_⟩
  intro shown text
  have hafter : afterSession w [lit "census" :: rest] = w.write out csv := hworld
  have hfile : (w.write out csv).read a.censusPath = .ok csv := by
    rw [hin]
    exact w.write_read_self out csv
  have hsame : (w.write out csv).read a.tablePath = w.read a.tablePath :=
    w.write_read_of_ne htable csv
  have hprojects : ProjectsTo (w.write out csv) a census text ↔ ProjectsTo w a census text := by
    rw [ProjectsTo, ProjectsTo, hsame]
  rw [← hprojects, ← hafter, project_prints_iff hargs' ha hplain, hafter]
  constructor
  · rintro ⟨file, census', hfile', hcensus', hshown⟩
    obtain rfl := Except.ok.inj (hfile.symm.trans hfile')
    obtain rfl := Except.ok.inj (hread.symm.trans hcensus')
    exact hshown
  · intro hshown
    exact ⟨csv, census, hfile, hread, hshown⟩

def loopProject : ProjectArgs :=
  ⟨"a.csv", "t.csv", Pattern.new ".*", .fin 8, .none, .fin 5.82⟩

theorem census_then_project_loop :
    ∃ p counts census, Pattern.tryNew ".*" = .ok p ∧
      censusPerKernel "Function : k\n/*0000*/ FFMA R0;\n/*0010*/ BRA 0x0;" p false = .ok counts ∧
      CensusSurvives (Pattern.new ".*") counts census ∧
      let census' := [lit "census", lit "a.sass", lit "-o", lit "a.csv"]
      let shown := invoke (afterSession ratedLoops [census'])
        [lit "project", lit "a.csv", lit "--table", lit "t.csv"]
      ∀ text, (shown.code = 0 ∧ shown.console.stdout = text) ↔
        ProjectsTo ratedLoops loopProject census text := by
  have hargs : Args.parse (valueFlags "census") [lit "a.sass", lit "-o", lit "a.csv"] =
      .ok ⟨["a.sass"], [("o", some "a.csv")]⟩ := by decide +kernel
  have hargs' : Args.parse (valueFlags "project") [lit "a.csv", lit "--table", lit "t.csv"] =
      .ok ⟨["a.csv"], [("table", some "t.csv")]⟩ := by decide +kernel
  have hparse : parseFunctions "Function : k\n/*0000*/ FFMA R0;\n/*0010*/ BRA 0x0;" = .ok
      [("k", [⟨0x0, "FFMA", "FFMA R0"⟩, ⟨0x10, "BRA", "BRA 0x0"⟩])] := by
    decide +kernel
  have ha : projectArgs ⟨["a.csv"], [("table", some "t.csv")]⟩ = .ok loopProject := by rfl
  have hnames : ∀ f ∈ functions "Function : k\n/*0000*/ FFMA R0;\n/*0010*/ BRA 0x0;",
      ',' ∉ f.1 ∧ '"' ∉ f.1 := by
    rw [(of_parseFunctions_eq_ok hparse).2]
    intro f hf
    rw [List.mem_singleton.mp hf]
    exact ⟨by decide, by decide⟩
  have hcode : (invoke ratedLoops
      [lit "census", lit "a.sass", lit "-o", lit "a.csv"]).code = 0 := by decide +kernel
  exact census_then_project hargs rfl rfl (by decide) hcode rfl hnames (by decide +kernel) hargs' ha
    rfl rfl (by decide)

end CalxMill.Cli
