import CalxMill.Gate.Errors
import CalxMill.Gate.Words

/-!
# Exit codes

A manifest keys on the exit code alone.  `Partitions` says that the code of a
run tells the runs apart: a verdict code comes with its printed verdict, and
an operator error exits with the usage code and no verdict.  The run keeps
this promise unless the splitter steps in: it leaves with its own code when a
flag has no word behind it, it hands a flag the next flag as its value, and it
takes `-o` for a known flag.
-/

namespace CalxMill.Gate

open Lib Rust

def verdictWord : Verdict → Str
  | .certified => "CERTIFIED"
  | .provisional => "PROVISIONAL"
  | .refused => "REFUSED"

/-- A verdict line on stdout, of a claim or of a composition. -/
def Prints (out : Outcome) (v : Verdict) : Prop :=
  ∃ line ∈ out.stdout, verdictWord v <+: line ∨ (lit "COMPOSED: " ++ verdictWord v) <+: line

structure Partitions (fs : FileSystem) (rest : List Str) : Prop where
  codes : (gate fs rest).code ∈ [0, 2, 3, 4]
  certified : (gate fs rest).code = 0 → Prints (gate fs rest) .certified
  provisional : (gate fs rest).code = 3 → Prints (gate fs rest) .provisional
  refused : (gate fs rest).code = 2 → Prints (gate fs rest) .refused
  outside : ¬ WellFormed rest →
    (gate fs rest).code = 4 ∧ ∀ v, ¬ Prints (gate fs rest) v
  missingValue : MissingValue rest →
    (gate fs rest).code = 4 ∧ ∀ v, ¬ Prints (gate fs rest) v
  operatorError : ∀ args, Args.parse gateFlags rest = .ok args → OperatorError fs args →
    (gate fs rest).code = 4 ∧ ∀ v, ¬ Prints (gate fs rest) v

/-! ## Every adjudication prints its verdict -/

theorem verdictWord_prefix_composedName (v : Verdict) : verdictWord v <+: composedName v := by
  cases v with
  | certified => exact ⟨" (re-anchored composite)", by decide +kernel⟩
  | provisional =>
      exact ⟨" (A4: composition is capped below Gate -- the interaction is unvalidated; the bench confirms)",
        by decide +kernel⟩
  | refused => exact ⟨" (the meet includes an Advisory input)", by decide +kernel⟩

theorem composed_prints (v : Verdict) : Prints (composed v) v := by
  obtain ⟨t, ht⟩ := verdictWord_prefix_composedName v
  refine ⟨_, List.mem_singleton_self _, Or.inr ⟨t, ?_⟩⟩
  rw [List.append_assoc, ht]

theorem verdictWord_prefix_verdictLine (g : GateAnchor) (x : Reading) :
    verdictWord (verdict (g.tier x)) <+: verdictLine g x := by
  have hword {v : Verdict} {s t u : Str} (h : verdictWord v ++ s = t) :
      verdictWord v <+: t ++ u := ⟨s ++ u, by rw [← List.append_assoc, h]⟩
  rw [verdictLine]
  cases verdict (g.tier x) with
  | certified =>
      simp only [List.append_assoc]
      apply hword (s := lit " value=")
      decide
  | provisional =>
      simp only [List.append_assoc]
      apply hword (s := lit " value=")
      decide
  | refused =>
      simp only [List.append_assoc]
      apply hword (s := lit ": ")
      decide

theorem judged_prints (args : Args) (g : GateAnchor) (x : Reading) :
    ∃ v, (judged args g x).code = exitCode v ∧ Prints (judged args g x) v := by
  cases hu : unitsDiffer args g with
  | true =>
      refine ⟨.refused, judged_of_unitsDiffer hu x, ?_⟩
      simp only [judged, hu, if_true, unitsMismatch, List.append_assoc]
      exact ⟨_, List.mem_singleton_self _, Or.inl ⟨_, rfl⟩⟩
  | false =>
      rw [judged_of_unitsAgree hu]
      exact ⟨verdict (g.tier x), rfl, verdictLine g x, by simp,
        Or.inl (verdictWord_prefix_verdictLine g x)⟩

theorem adjudicate_prints {fs : FileSystem} {args : Args} {out : Outcome}
    (h : adjudicate fs args = .ok out) : ∃ v, out.code = exitCode v ∧ Prints out v := by
  obtain ⟨-, ga, -, hrun⟩ := adjudicate_eq_ok.mp h
  cases hc : args.value "compose" with
  | some spec =>
      rw [hc] at hrun
      obtain ⟨_, _, _, -, -, rfl⟩ := composeRun_eq_ok.mp hrun
      exact ⟨_, rfl, composed_prints _⟩
  | none =>
      rw [hc] at hrun
      obtain ⟨g, x, -, -, rfl⟩ := singleRun_eq_ok.mp hrun
      exact judged_prints args g x

theorem not_prints_nil (err : List Str) (code : ℕ) (v : Verdict) : ¬ Prints ⟨[], err, code⟩ v := by
  simp [Prints]

/-! ## When the codes partition the runs -/

theorem gate_of_operatorError {fs : FileSystem} {rest : List Str} {args : Args}
    (hargs : Args.parse gateFlags rest = .ok args) (herr : OperatorError fs args) :
    ∃ msg, gate fs rest = usage msg := by
  obtain ⟨e, he⟩ := adjudicate_fails.mpr herr
  rw [gate_of_parse hargs, he]
  cases e with
  | err msg => exact ⟨msg, rfl⟩
  | panic msg => exact absurd he (adjudicate_safe fs args msg)

theorem partitions_of_operatorError {fs : FileSystem} {rest : List Str} {args : Args}
    (hargs : Args.parse gateFlags rest = .ok args) (herr : OperatorError fs args) :
    Partitions fs rest := by
  obtain ⟨msg, hmsg⟩ := gate_of_operatorError hargs herr
  have hcode : (gate fs rest).code = 4 := by
    rw [hmsg]
    rfl
  have hnone (v : Verdict) : ¬ Prints (gate fs rest) v := by
    rw [hmsg]
    exact not_prints_nil _ _ v
  constructor
  · simp [hcode]
  · simp [hcode]
  · simp [hcode]
  · simp [hcode]
  · exact fun _ ↦ ⟨hcode, hnone⟩
  · exact fun _ ↦ ⟨hcode, hnone⟩
  · exact fun _ _ _ ↦ ⟨hcode, hnone⟩

theorem partitions_of_adjudicate {fs : FileSystem} {rest : List Str} {args : Args} {out : Outcome}
    (hargs : Args.parse gateFlags rest = .ok args) (hadj : adjudicate fs args = .ok out)
    (hform : WellFormed rest) : Partitions fs rest := by
  have hgate : gate fs rest = out := by
    rw [gate_of_parse hargs, hadj]
    rfl
  obtain ⟨v, hcode, hprints⟩ := adjudicate_prints hadj
  rw [← hgate] at hcode hprints
  have hprints' (w : Verdict) (hw : (gate fs rest).code = exitCode w) :
      Prints (gate fs rest) w := by
    have heq : w = v := exitCode_injective (hw.symm.trans hcode)
    rwa [heq]
  constructor
  · rw [hcode]
    cases v <;> decide
  · exact hprints' .certified
  · exact hprints' .provisional
  · exact hprints' .refused
  · exact fun h ↦ absurd hform h
  · exact fun h ↦ absurd h hform.not_missingValue
  · intro args' hargs' herr
    obtain rfl : args = args' := Except.ok.inj (hargs.symm.trans hargs')
    exact absurd (adjudicate_fails.mpr herr) (Exec.not_fails.mpr ⟨out, hadj⟩)

/-- The codes partition a run exactly when no value flag ends the line, and a
line on which a flag takes another one for its value, or with `-o` on it, is an
operator error anyway. -/
theorem partitions_iff (fs : FileSystem) (rest : List Str) :
    Partitions fs rest ↔
      dangling rest = false ∧ ∀ args, Args.parse gateFlags rest = .ok args →
        (args.has "o" = true ∨ swallows rest = true) → OperatorError fs args := by
  constructor
  · intro h
    have hdangling : dangling rest = false := by
      by_contra hd
      have hfails := (parse_fails_iff rest).mpr (Bool.not_eq_false _ ▸ hd)
      obtain ⟨hcode, hout⟩ := gate_of_parse_fails fs hfails
      obtain ⟨line, hline, -⟩ := h.refused hcode
      rw [hout] at hline
      cases hline
    refine ⟨hdangling, fun args hargs ho ↦ ?_⟩
    by_contra herr
    obtain ⟨out, hadj⟩ := Exec.not_fails.mp (mt adjudicate_fails.mp herr)
    -- the line is not documented, yet the run ends with a verdict code
    have hform : ¬ WellFormed rest := by
      intro hform
      obtain ⟨⟨hflags, -⟩, hswallows⟩ := (wellFormed_iff hargs).mp hform
      rcases ho with ho | ho
      · obtain ⟨f, hf, hname⟩ := List.any_eq_true.mp ho
        apply (hflags f hf).2
        simpa using hname
      · rw [hswallows] at ho
        cases ho
    have hcode := (h.outside hform).1
    rw [gate_of_parse hargs, hadj] at hcode
    obtain ⟨v, hv, -⟩ := adjudicate_prints hadj
    exact exitCode_ne_usageExit v (hv.symm.trans hcode)
  · rintro ⟨hdangling, ho⟩
    have hparse : ¬ (Args.parse gateFlags rest).Fails := by
      rw [parse_fails_iff, hdangling]
      decide
    obtain ⟨args, hargs⟩ := Exec.not_fails.mp hparse
    by_cases herr : OperatorError fs args
    · exact partitions_of_operatorError hargs herr
    obtain ⟨out, hadj⟩ := Exec.not_fails.mp (mt adjudicate_fails.mp herr)
    refine partitions_of_adjudicate hargs hadj
      ((wellFormed_iff hargs).mpr ⟨⟨fun f hf ↦ ⟨?_, ?_⟩, ?_⟩, ?_⟩)
    · intro hnone
      obtain ⟨name, v⟩ := f
      obtain rfl : v = none := hnone
      exact herr (.unknownFlag name hf)
    · intro hname
      refine herr (ho args hargs (Or.inl ?_))
      exact List.any_eq_true.mpr ⟨f, hf, by simpa using hname⟩
    · by_contra hpos
      obtain ⟨p, hp⟩ := List.exists_mem_of_ne_nil _ hpos
      exact herr (.stray p hp)
    · rw [← Bool.not_eq_true]
      intro hswallows
      exact herr (ho args hargs (Or.inr hswallows))

/-- A certified line, with a flag that the usage text does not have. -/
def withOutput : List Str :=
  ["-o", "out", "--value", "1", "--anchor", "1", "--tol", "0", "--fit-override", "at-anchor"]

/-- A certified line whose last flag has no value of its own. -/
def swallowedFlag : List Str :=
  ["--value", "1", "--anchor", "1", "--tol", "0", "--fit-override", "at-anchor", "--units",
    "--at-anchor"]

theorem not_wellFormed_withOutput : ¬ WellFormed withOutput := by
  intro h
  have hargs : Args.parse gateFlags withOutput = .ok ⟨[], [("o", some "out"),
      ("value", some "1"), ("anchor", some "1"), ("tol", some "0"),
      ("fit-override", some "at-anchor")]⟩ := by
    decide +kernel
  exact (((wellFormed_iff hargs).mp h).1.1 _ List.mem_cons_self).2 rfl

/-- `gate --value` exits with the code of a refusal that was never printed, and
a line with `-o` on it, or with `--units` in front of a flag, is certified. -/
theorem not_partitions :
    ¬ Partitions noFiles ["--value"] ∧ ¬ Partitions noFiles withOutput ∧
      ¬ Partitions noFiles swallowedFlag := by
  refine ⟨?_, ?_, ?_⟩
  · intro h
    have hfails : (Args.parse gateFlags [lit "--value"]).Fails :=
      (parse_fails_iff _).mpr (by decide)
    obtain ⟨hcode, hout⟩ := gate_of_parse_fails noFiles hfails
    obtain ⟨line, hline, -⟩ := h.refused hcode
    rw [hout] at hline
    cases hline
  · intro h
    have hcode : (gate noFiles withOutput).code = 0 := by decide +kernel
    rw [(h.outside not_wellFormed_withOutput).1] at hcode
    cases hcode
  · intro h
    have hcode : (gate noFiles swallowedFlag).code = 0 := by decide +kernel
    have hmissing : MissingValue swallowedFlag := Or.inr (by decide)
    rw [(h.missingValue hmissing).1] at hcode
    cases hcode

end CalxMill.Gate
