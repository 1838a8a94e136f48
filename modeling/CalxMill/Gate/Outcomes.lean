import CalxMill.Gate.Run

/-!
# The outcomes of a gate run

One characterization for each stage of `gate`: when it returns, and with
what.  The later results on the verdicts use these and never unfold a stage.
-/

namespace CalxMill

open Lib Rust

/-- The splitter only ever reports a missing value. -/
theorem Args.parse_safe (valueFlags words : List Str) : (Args.parse valueFlags words).Safe := by
  fun_induction Args.parse valueFlags words with
  | case1 => exact Exec.Safe.ok _
  | case2 | case5 => exact Exec.Safe.err _
  | case3 | case4 | case6 | case7 => exact Exec.Safe.map _ ‹_›

namespace Gate

/-- How the process ends once the words are split. -/
def report : Exec Str Outcome → Outcome
  | .ok out => out
  | .error (.err msg) => usage msg
  | .error (.panic msg) => ⟨[], [msg], 101⟩

theorem gate_of_parse {fs : FileSystem} {rest : List Str} {args : Args}
    (h : Args.parse gateFlags rest = .ok args) : gate fs rest = report (adjudicate fs args) := by
  simp only [gate, run, h, bind, Except.bind]
  cases adjudicate fs args with
  | ok out => rfl
  | error e => cases e <;> rfl

/-- A splitter error leaves nothing on stdout and exits with the code that
stands for a refusal. -/
theorem gate_of_parse_fails (fs : FileSystem) {rest : List Str}
    (h : (Args.parse gateFlags rest).Fails) :
    (gate fs rest).code = 2 ∧ (gate fs rest).stdout = [] := by
  obtain ⟨e, he⟩ := h
  cases e with
  | err msg => simp [gate, run, he, bind, Except.bind]
  | panic msg => exact absurd he (Args.parse_safe _ _ msg)

/-! ## Stages that return -/

/-- The number passed as `--value` and the number compared with the anchor. -/
structure Reads (args : Args) (x : Reading) : Prop where
  value : (args.value "value").bind F64.parse = some x.value
  atAnchor : ((args.value "at-anchor").elim (some x.value) F64.parse) = some x.atAnchor

theorem parseReading_eq_ok {missing : Str} {args : Args} {x : Reading} :
    parseReading missing args = .ok x ↔ Reads args x := by
  rw [parseReading]
  constructor
  · intro h
    obtain ⟨v, hv, h⟩ := Exec.bind_eq_ok.mp h
    obtain ⟨value, hvalue, h⟩ := Exec.bind_eq_ok.mp h
    rw [Exec.ofOption_eq_ok] at hv hvalue
    cases hat : args.value "at-anchor" with
    | none =>
        rw [hat] at h
        cases h
        exact ⟨by simp [hv, hvalue], by simp [hat]⟩
    | some s =>
        rw [hat] at h
        obtain ⟨a, ha, h⟩ := Exec.bind_eq_ok.mp h
        rw [Exec.ofOption_eq_ok] at ha
        cases h
        exact ⟨by simp [hv, hvalue], by simp [hat, ha]⟩
  · rintro ⟨hvalue, hat⟩
    obtain ⟨v, hv, hvalue⟩ := Option.bind_eq_some_iff.mp hvalue
    simp only [hv, hvalue, Exec.ofOption_some, bind, Except.bind]
    cases ha : args.value "at-anchor" with
    | none =>
        rw [ha, Option.elim_none, Option.some_inj] at hat
        cases x
        cases hat
        rfl
    | some s =>
        rw [ha, Option.elim_some] at hat
        simp [hat, pure, Except.pure]

theorem Reads.unique {args : Args} {x y : Reading} (hx : Reads args x) (hy : Reads args y) :
    x = y := by
  have h : parseReading [] args = .ok x := parseReading_eq_ok.mpr hx
  have h' : parseReading [] args = .ok y := parseReading_eq_ok.mpr hy
  exact Except.ok.inj (h.symm.trans h')

/-- An anchor resolved from a registry row. -/
structure FromRegistry (fs : FileSystem) (args : Args) (g : GateAnchor) (row : AnchorRow)
    (query : List (Str × Str)) : Prop where
  noConflict : ∀ flag ∈ conflicting, args.has flag = false
  loaded : ∃ file text rows, args.value "registry" = some file ∧ fs file = .ok text ∧
    parseRegistry text = .ok rows ∧
      ∃ id, args.value "anchor-id" = some id ∧ rows.find? (·.id = id) = some row
  asked : ∃ at', args.value "at" = some at' ∧ parseQuery at' = .ok query
  chosen : chooseFit args (computedFit row query) = .ok (g.fit, g.overridden)
  eq : g = ⟨row.anchor, g.fit, some (computedFit row query), g.overridden, row.units, row.id⟩

/-- An anchor resolved from the manual flags. -/
structure FromManual (args : Args) (g : GateAnchor) : Prop where
  measured : (args.value "anchor").bind F64.parse = some g.anchor.measured
  tol : manualTol args g.anchor.measured = .ok g.anchor.tol
  fit : (args.value "fit-override").bind parseFit = some g.fit
  eq : g = ⟨g.anchor, g.fit, none, true, (args.value "units").getD [], []⟩

theorem readToString_eq_ok {fs : FileSystem} {file text : Str} :
    readToString fs file = .ok text ↔ fs file = .ok text := by
  rw [readToString]
  cases fs file <;> simp [Exec.err]

theorem find?_conflicting_eq_none {args : Args} :
    conflicting.find? (args.has ·) = none ↔ ∀ flag ∈ conflicting, args.has flag = false := by
  simp [List.find?_eq_none]

theorem resolveRegistry_eq_ok {fs : FileSystem} {args : Args} {g : GateAnchor} :
    resolveRegistry fs args = .ok g ↔ ∃ row query, FromRegistry fs args g row query := by
  rw [resolveRegistry]
  constructor
  · intro h
    split at h
    · exact absurd h Exec.err_ne_ok
    next hconf =>
      split at h
      · next file id at' hfile hid hat =>
          simp only [Exec.bind_eq_ok, Exec.ofOption_eq_ok, Exec.pure_eq_ok, readToString_eq_ok,
            Prod.exists] at h
          obtain ⟨text, htext, rows, hrows, row, hrow, query, hquery, fit, ov, hfit, rfl⟩ := h
          exact ⟨row, query, find?_conflicting_eq_none.mp hconf,
            ⟨file, text, rows, hfile, htext, hrows, id, hid, hrow⟩, ⟨at', hat, hquery⟩, hfit, rfl⟩
      · exact absurd h Exec.err_ne_ok
  · rintro ⟨row, query, hconf, ⟨file, text, rows, hfile, htext, hrows, id, hid, hrow⟩,
      ⟨at', hat, hquery⟩, hfit, hg⟩
    rw [find?_conflicting_eq_none.mpr hconf, hfile, hid, hat]
    simp only [Exec.bind_eq_ok, Exec.ofOption_eq_ok, Exec.pure_eq_ok, readToString_eq_ok,
      Prod.exists]
    exact ⟨text, htext, rows, hrows, row, hrow, query, hquery, g.fit, g.overridden, hfit, hg.symm⟩

theorem resolveManual_eq_ok {args : Args} {g : GateAnchor} :
    resolveManual args = .ok g ↔ FromManual args g := by
  simp only [resolveManual, Exec.bind_eq_ok, Exec.ofOption_eq_ok, Exec.pure_eq_ok]
  constructor
  · rintro ⟨m, hm, measured, hmeasured, tol, htol, s, hs, fit, hfit, rfl⟩
    exact ⟨by simp [hm, hmeasured], htol, by simp [hs, hfit], rfl⟩
  · rintro ⟨hm, htol, hfit, hg⟩
    obtain ⟨m, hm, hmeasured⟩ := Option.bind_eq_some_iff.mp hm
    obtain ⟨s, hs, hfit⟩ := Option.bind_eq_some_iff.mp hfit
    exact ⟨m, hm, _, hmeasured, _, htol, s, hs, _, hfit, hg.symm⟩

/-- The three ways an anchor source can come out. -/
theorem resolveGateAnchor_eq_ok {fs : FileSystem} {args : Args} {ga : Option GateAnchor} :
    resolveGateAnchor fs args = .ok ga ↔
      (registryMode args = true ∧ ∃ g, resolveRegistry fs args = .ok g ∧ some g = ga) ∨
      (registryMode args = false ∧ anyManual args = true ∧
        ∃ g, resolveManual args = .ok g ∧ some g = ga) ∨
      (registryMode args = false ∧ anyManual args = false ∧ ga = none) := by
  rw [resolveGateAnchor]
  cases registryMode args with
  | true => simp [Exec.map_eq_ok]
  | false =>
      cases anyManual args with
      | true => simp [Exec.map_eq_ok]
      | false => simpa using eq_comm

theorem singleRun_eq_ok {args : Args} {ga : Option GateAnchor} {out : Outcome} :
    singleRun args ga = .ok out ↔ ∃ g x, ga = some g ∧ Reads args x ∧ judged args g x = out := by
  simp only [singleRun, Exec.bind_eq_ok, Exec.ofOption_eq_ok, parseReading_eq_ok,
    Exec.pure_eq_ok]
  constructor
  · rintro ⟨g, hg, x, hx, h⟩
    exact ⟨g, x, hg, hx, h⟩
  · rintro ⟨g, x, hg, hx, h⟩
    exact ⟨g, hg, x, hx, h⟩

theorem compositeAnchored_some {args : Args} {g : GateAnchor} {b : Bool} :
    compositeAnchored args (some g) = .ok b ↔
      ∃ x, Reads args x ∧ decide (g.tier x = .gate) = b := by
  simp only [compositeAnchored, Exec.bind_eq_ok, parseReading_eq_ok, Exec.pure_eq_ok]

theorem composeRun_eq_ok {args : Args} {ga : Option GateAnchor} {spec : Str} {out : Outcome} :
    composeRun args ga spec = .ok out ↔
      ∃ ta tb anchored, parseSpec spec = .ok (ta, tb) ∧
        compositeAnchored args ga = .ok anchored ∧
          composed (verdict (compose ta tb anchored)) = out := by
  simp only [composeRun, Exec.bind_eq_ok, Exec.pure_eq_ok, Prod.exists]
  constructor
  · rintro ⟨ta, tb, hs, b, hb, h⟩
    exact ⟨ta, tb, b, hs, hb, h⟩
  · rintro ⟨ta, tb, b, hs, hb, h⟩
    exact ⟨ta, tb, hs, b, hb, h⟩

theorem adjudicate_eq_ok {fs : FileSystem} {args : Args} {out : Outcome} :
    adjudicate fs args = .ok out ↔
      checkShape args = .ok () ∧ ∃ ga, resolveGateAnchor fs args = .ok ga ∧
        match args.value "compose" with
        | some spec => composeRun args ga spec = .ok out
        | none => singleRun args ga = .ok out := by
  simp only [adjudicate, Exec.bind_eq_ok]
  constructor
  · rintro ⟨_, hshape, ga, hga, h⟩
    refine ⟨hshape, ga, hga, ?_⟩
    cases hc : args.value "compose" <;> rw [hc] at h <;> exact h
  · rintro ⟨hshape, ga, hga, h⟩
    refine ⟨(), hshape, ga, hga, ?_⟩
    cases hc : args.value "compose" <;> rw [hc] at h <;> exact h

/-- A run that ends with any code but the usage one has adjudicated. -/
theorem adjudicate_of_code {fs : FileSystem} {rest : List Str} {args : Args}
    (hargs : Args.parse gateFlags rest = .ok args)
    (husage : (gate fs rest).code ≠ usageExit) (hpanic : (gate fs rest).code ≠ 101) :
    adjudicate fs args = .ok (gate fs rest) := by
  rw [gate_of_parse hargs] at *
  cases hadj : adjudicate fs args with
  | ok out => rfl
  | error e =>
      rw [hadj] at husage hpanic
      cases e with
      | err msg => exact absurd rfl husage
      | panic msg => exact absurd rfl hpanic

/-! ## Exit codes -/

@[simp] theorem composed_code (v : Verdict) : (composed v).code = exitCode v := rfl

theorem judged_of_unitsDiffer {args : Args} {g : GateAnchor} (h : unitsDiffer args g = true)
    (x : Reading) : (judged args g x).code = exitCode .refused := by
  simp [judged, h, unitsMismatch]

theorem judged_of_unitsAgree {args : Args} {g : GateAnchor} (h : unitsDiffer args g = false)
    (x : Reading) :
    judged args g x = ⟨fitLines g ++ [verdictLine g x], [], exitCode (verdict (g.tier x))⟩ := by
  simp [judged, h]

theorem verdict_eq_certified {a : Authority} : verdict a = .certified ↔ a = .gate := by
  cases a <;> simp [verdict]

theorem judged_code_eq_zero {args : Args} {g : GateAnchor} {x : Reading} :
    (judged args g x).code = 0 ↔ unitsDiffer args g = false ∧ g.tier x = .gate := by
  cases hu : unitsDiffer args g with
  | true => simp [judged_of_unitsDiffer hu]
  | false => simp [judged_of_unitsAgree hu, verdict_eq_certified]

theorem GateAnchor.tier_eq_gate {g : GateAnchor} {x : Reading} :
    g.tier x = .gate ↔ g.anchor.reproduces x.atAnchor = true ∧ g.fit = .atAnchor :=
  authority_eq_gate

/-- Manual anchors carry the units of the claim itself. -/
theorem FromManual.unitsDiffer_eq_false {args : Args} {g : GateAnchor} (h : FromManual args g) :
    unitsDiffer args g = false := by
  rw [h.eq]
  cases hu : args.value "units" <;> simp [unitsDiffer, hu]

end Gate

end CalxMill
