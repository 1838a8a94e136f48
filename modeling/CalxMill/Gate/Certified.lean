import CalxMill.Gate.Outcomes

/-!
# What CERTIFIED stands for

A single-claim run that exits 0 has compared a number with the anchor at the
anchor point.  The number compared is the one of `--at-anchor` when that flag
is given, so the printed claim itself is covered only without the flag.
-/

namespace CalxMill.Gate

open Lib Rust

theorem parseTol_not_neg {flag t : Str} {tol : F64} (h : parseTol flag t = .ok tol) :
    ¬ tol < 0 := by
  obtain ⟨x, -, h⟩ := Exec.bind_eq_ok.mp h
  split at h
  · exact absurd h Exec.err_ne_ok
  · next hneg => exact Exec.pure_eq_ok.mp h ▸ hneg

theorem manualTol_not_neg {args : Args} {measured tol : F64}
    (h : manualTol args measured = .ok tol) : ¬ tol < 0 := by
  rw [manualTol] at h
  split at h
  · exact absurd h Exec.err_ne_ok
  · exact absurd h Exec.err_ne_ok
  · exact parseTol_not_neg h
  · obtain ⟨p, hp, h⟩ := Exec.bind_eq_ok.mp h
    obtain rfl := Exec.pure_eq_ok.mp h
    exact ExtNum.not_mul_lt_zero
      (ExtNum.not_div_fin_lt_zero (parseTol_not_neg hp) (by norm_num))
      (ExtNum.not_abs_lt_zero measured)

theorem FromRegistry.tol_not_neg {fs : FileSystem} {args : Args} {g : GateAnchor}
    {row : AnchorRow} {query : List (Str × Str)} (h : FromRegistry fs args g row query) :
    ¬ g.anchor.tol < 0 := by
  obtain ⟨file, text, rows, -, -, hrows, id, -, hrow⟩ := h.loaded
  rw [h.eq]
  exact parseRegistry_tol_not_neg hrows row (List.mem_of_find?_eq_some hrow)

/-- Both anchor sources reject a negative tolerance. -/
theorem resolveGateAnchor_tol_not_neg {fs : FileSystem} {args : Args} {g : GateAnchor}
    (h : resolveGateAnchor fs args = .ok (some g)) : ¬ g.anchor.tol < 0 := by
  rcases resolveGateAnchor_eq_ok.mp h with ⟨-, g', hg', heq⟩ | ⟨-, -, g', hg', heq⟩ | ⟨-, -, h⟩
  · obtain ⟨row, query, hfrom⟩ := resolveRegistry_eq_ok.mp hg'
    exact Option.some.inj heq ▸ hfrom.tol_not_neg
  · exact Option.some.inj heq ▸ manualTol_not_neg (resolveManual_eq_ok.mp hg').tol
  · cases h

/-- The anchor, the fit and the numbers behind a certified claim. -/
structure Certified (fs : FileSystem) (args : Args) (out : Outcome) (g : GateAnchor)
    (x : Reading) : Prop where
  source : resolveGateAnchor fs args = .ok (some g)
  reads : Reads args x
  fit : g.fit = .atAnchor
  within : (x.atAnchor - g.anchor.measured).abs ≤ g.anchor.tol
  printed : ∃ line ∈ out.stdout, (lit "CERTIFIED value=" ++ x.value.display) <+: line

theorem verdictLine_of_certified {g : GateAnchor} {x : Reading} (h : g.tier x = .gate) :
    (lit "CERTIFIED value=" ++ x.value.display) <+: verdictLine g x := by
  simp only [verdictLine, h, verdict, List.append_assoc]
  rw [← List.append_assoc]
  exact List.prefix_append _ _

/-- Exit code 0 without `--compose`: the fit used was the anchor point, and
the number compared, which is the claim itself unless `--at-anchor` gives
another, lies within the tolerance. -/
theorem exit_zero_certified (fs : FileSystem) (rest : List Str) (h : (gate fs rest).code = 0) :
    ∃ args, Args.parse gateFlags rest = .ok args ∧
      (args.value "compose" = none →
        ∃ g x, Certified fs args (gate fs rest) g x ∧
          (args.value "at-anchor" = none →
            (x.value - g.anchor.measured).abs ≤ g.anchor.tol)) := by
  cases hargs : Args.parse gateFlags rest with
  | error e =>
      have h2 := (gate_of_parse_fails fs ⟨e, hargs⟩).1
      rw [h] at h2
      exact absurd h2 (by decide)
  | ok args =>
      refine ⟨args, rfl, fun hcompose ↦ ?_⟩
      have hadj := adjudicate_of_code hargs (by rw [h]; decide) (by rw [h]; decide)
      obtain ⟨-, ga, hga, hrun⟩ := adjudicate_eq_ok.mp hadj
      rw [hcompose] at hrun
      obtain ⟨g, x, rfl, hx, hout⟩ := singleRun_eq_ok.mp hrun
      obtain ⟨hunits, htier⟩ := judged_code_eq_zero.mp (hout ▸ h)
      obtain ⟨hrep, hfit⟩ := GateAnchor.tier_eq_gate.mp htier
      have hwithin := (Anchor.reproduces_iff (resolveGateAnchor_tol_not_neg hga) _).mp hrep
      refine ⟨g, x, ⟨hga, hx, hfit, hwithin, verdictLine g x, ?_,
        verdictLine_of_certified htier⟩, fun hat ↦ ?_⟩
      · rw [← hout, judged_of_unitsAgree hunits]
        simp
      · have heq := hx.atAnchor
        rw [hat, Option.elim_none, Option.some_inj] at heq
        rwa [heq]

/-- `--value 999` judged by `--at-anchor 1` against the anchor `1±0.1`. -/
def otherValue : List Str :=
  ["--value", "999", "--at-anchor", "1", "--anchor", "1", "--tol", "0.1",
    "--fit-override", "at-anchor"]

/-- With `--at-anchor` the printed claim can be any number. -/
theorem exit_zero_other_value :
    (gate noFiles otherValue).code = 0 ∧
      ∃ args g, Args.parse gateFlags otherValue = .ok args ∧ args.value "compose" = none ∧
        resolveGateAnchor noFiles args = .ok (some g) ∧
          (args.value "value").bind F64.parse = some (.fin 999) ∧
            ¬ (ExtNum.fin 999 - g.anchor.measured).abs ≤ g.anchor.tol := by
  refine ⟨by decide +kernel, ⟨[], [("value", some "999"), ("at-anchor", some "1"),
    ("anchor", some "1"), ("tol", some "0.1"), ("fit-override", some "at-anchor")]⟩,
    ⟨⟨.fin 1, .fin (1 / 10)⟩, .atAnchor, none, true, [], []⟩, ?_, ?_, ?_, ?_, ?_⟩
  all_goals decide +kernel

/-- A claim at the anchor value, with a relative tolerance. -/
theorem exit_zero_certified_at_anchor :
    ∃ args, Args.parse gateFlags
        ["--value", "63", "--anchor", "68.19", "--tol-rel", "10", "--fit-override", "at-anchor"]
          = .ok args ∧
      (args.value "compose" = none →
        ∃ g x, Certified noFiles args (gate noFiles ["--value", "63", "--anchor", "68.19",
            "--tol-rel", "10", "--fit-override", "at-anchor"]) g x ∧
          (args.value "at-anchor" = none →
            (x.value - g.anchor.measured).abs ≤ g.anchor.tol)) :=
  exit_zero_certified noFiles _ (by decide +kernel)

end CalxMill.Gate
