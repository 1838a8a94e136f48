import CalxMill.Gate.Related

/-!
# The composite claim

The composition keeps the top tier when the composite earns it from its own
anchor.  It judges that anchor as the single-claim path does, up to one test:
it never looks at the units of the claim.
-/

namespace CalxMill.Gate

open Lib Rust

/-- The same line without its `--compose` flags. -/
def withoutCompose : List Str → List Str := editWords (setFlag "compose" none)

theorem parse_withoutCompose {rest : List Str} {args : Args}
    (h : Args.parse gateFlags rest = .ok args) :
    Args.parse gateFlags (withoutCompose rest) = .ok (editArgs (setFlag "compose" none) args) := by
  rw [withoutCompose, parse_editWords, h]
  rfl

theorem value_withoutCompose (args : Args) :
    (editArgs (setFlag "compose" none) args).value "compose" = none := by
  rw [value_setFlag]
  exact Option.bind_fun_none _

/-- A composition that keeps the top tier joins two certified claims, and the
composite passes as a claim of its own. -/
def ComposesSoundly (fs : FileSystem) (rest : List Str) : Prop :=
  ∀ args spec, Args.parse gateFlags rest = .ok args → args.value "compose" = some spec →
    (gate fs rest).code = 0 →
      parseSpec spec = .ok (.gate, .gate) ∧ (gate fs (withoutCompose rest)).code = 0

/-- Two certified inputs, and a composite that reproduces a registry row in
other units than it claims. -/
structure ForeignUnits (fs : FileSystem) (args : Args) (spec : Str) (g : GateAnchor)
    (x : Reading) : Prop where
  shape : checkShape args = .ok ()
  asked : args.value "compose" = some spec
  certified : parseSpec spec = .ok (.gate, .gate)
  source : ∃ row query, FromRegistry fs args g row query
  reads : Reads args x
  tier : g.tier x = .gate
  units : ∃ u, args.value "units" = some u ∧ g.units ≠ [] ∧ u ≠ g.units

theorem unitsDiffer_iff {args : Args} {g : GateAnchor} :
    unitsDiffer args g = true ↔ ∃ u, args.value "units" = some u ∧ g.units ≠ [] ∧ u ≠ g.units := by
  rw [unitsDiffer]
  cases args.value "units" <;> simp

theorem gate_of_single {fs : FileSystem} {rest : List Str} {args : Args} {g : GateAnchor}
    {x : Reading} (hargs : Args.parse gateFlags rest = .ok args)
    (hcompose : args.value "compose" = none) (hshape : checkShape args = .ok ())
    (hg : resolveGateAnchor fs args = .ok (some g)) (hx : Reads args x) :
    gate fs rest = judged args g x := by
  have hadj : adjudicate fs args = .ok (judged args g x) := by
    refine adjudicate_eq_ok.mpr ⟨hshape, some g, hg, ?_⟩
    rw [hcompose]
    exact singleRun_eq_ok.mpr ⟨g, x, rfl, hx, rfl⟩
  rw [gate_of_parse hargs, hadj]
  rfl

theorem gate_of_compose {fs : FileSystem} {rest : List Str} {args : Args} {spec : Str}
    {ta tb : Authority} {g : GateAnchor} {x : Reading}
    (hargs : Args.parse gateFlags rest = .ok args) (hspec : args.value "compose" = some spec)
    (hshape : checkShape args = .ok ()) (htiers : parseSpec spec = .ok (ta, tb))
    (hg : resolveGateAnchor fs args = .ok (some g)) (hx : Reads args x) :
    gate fs rest = composed (verdict (compose ta tb (g.tier x = .gate))) := by
  have hrun : composeRun args (some g) spec =
      .ok (composed (verdict (compose ta tb (g.tier x = .gate)))) :=
    composeRun_eq_ok.mpr ⟨ta, tb, _, htiers, compositeAnchored_some.mpr ⟨x, hx, rfl⟩, rfl⟩
  have hadj : adjudicate fs args = .ok (composed (verdict (compose ta tb (g.tier x = .gate)))) := by
    refine adjudicate_eq_ok.mpr ⟨hshape, some g, hg, ?_⟩
    rw [hspec]
    exact hrun
  rw [gate_of_parse hargs, hadj]
  rfl

/-- What a composition that exits 0 has established. -/
theorem compose_code_eq_zero {fs : FileSystem} {rest : List Str} {args : Args} {spec : Str}
    (hargs : Args.parse gateFlags rest = .ok args) (hspec : args.value "compose" = some spec) :
    (gate fs rest).code = 0 ↔
      checkShape args = .ok () ∧ parseSpec spec = .ok (.gate, .gate) ∧
        ∃ g x, resolveGateAnchor fs args = .ok (some g) ∧ Reads args x ∧ g.tier x = .gate := by
  constructor
  · intro h
    have hadj := adjudicate_of_code hargs (by rw [h]; decide) (by rw [h]; decide)
    obtain ⟨hshape, ga, hga, hrun⟩ := adjudicate_eq_ok.mp hadj
    rw [hspec] at hrun
    obtain ⟨ta, tb, anchored, htiers, hanch, hout⟩ := composeRun_eq_ok.mp hrun
    rw [← hout, composed_code, exitCode_eq_zero, verdict_eq_certified, compose_eq_gate] at h
    obtain ⟨rfl, rfl, rfl⟩ := h
    cases ga with
    | none => cases hanch
    | some g =>
        obtain ⟨x, hx, htier⟩ := compositeAnchored_some.mp hanch
        exact ⟨hshape, htiers, g, x, hga, hx, by simpa using htier⟩
  · rintro ⟨hshape, htiers, g, x, hg, hx, htier⟩
    rw [gate_of_compose hargs hspec hshape htiers hg hx, htier]
    rfl

/-- The anchor does not depend on `--compose`. -/
theorem resolve_withoutCompose {fs : FileSystem} {args args' : Args} {g : GateAnchor}
    (hagree : AgreeExcept "compose" args args')
    (hg : resolveGateAnchor fs args = .ok (some g)) :
    resolveGateAnchor fs args' = .ok (some g) := by
  have hfit : args'.value "fit-override" = args.value "fit-override" :=
    hagree.value _ (by decide)
  rcases resolveGateAnchor_eq_some.mp hg with ⟨row, query, h⟩ | ⟨hm, h⟩
  · refine (h.transfer hagree (by decide) ?_).resolves
    rw [chooseFit, hfit]
    exact h.chosen
  · refine (h.transfer hagree (by decide) ?_).resolves ?_
    · rw [hfit]
      exact h.fit
    · rwa [hagree.registryMode (by decide) (by decide) (by decide)]

/-- A composition is sound exactly when the units of its composite agree. -/
theorem composesSoundly_iff (fs : FileSystem) (rest : List Str) :
    ComposesSoundly fs rest ↔
      ∀ args, Args.parse gateFlags rest = .ok args → ∀ spec g x, ¬ ForeignUnits fs args spec g x := by
  constructor
  · intro h args hargs spec g x hforeign
    obtain ⟨row, query, hsource⟩ := hforeign.source
    have hg := hsource.resolves
    have hzero : (gate fs rest).code = 0 :=
      (compose_code_eq_zero hargs hforeign.asked).mpr
        ⟨hforeign.shape, hforeign.certified, g, x, hg, hforeign.reads, hforeign.tier⟩
    have hagree := agreeExcept_setFlag "compose" none args
    have hsingle := (h args spec hargs hforeign.asked hzero).2
    rw [gate_of_single (parse_withoutCompose hargs) (value_withoutCompose args)
      (hagree.shape.trans hforeign.shape) (resolve_withoutCompose hagree hg)
      (hagree.reads (by decide) (by decide) hforeign.reads), judged_code_eq_zero,
      hagree.unitsDiffer (by decide), unitsDiffer_iff.mpr hforeign.units] at hsingle
    cases hsingle.1
  · intro h args spec hargs hspec hzero
    obtain ⟨hshape, htiers, g, x, hg, hx, htier⟩ := (compose_code_eq_zero hargs hspec).mp hzero
    refine ⟨htiers, ?_⟩
    have hunits : unitsDiffer args g = false := by
      rcases resolveGateAnchor_eq_some.mp hg with hsource | ⟨-, hmanual⟩
      · rw [← Bool.not_eq_true, unitsDiffer_iff]
        intro hu
        exact h args hargs spec g x ⟨hshape, hspec, htiers, hsource, hx, htier, hu⟩
      · exact hmanual.unitsDiffer_eq_false
    have hagree := agreeExcept_setFlag "compose" none args
    rw [gate_of_single (parse_withoutCompose hargs) (value_withoutCompose args)
      (hagree.shape.trans hshape) (resolve_withoutCompose hagree hg)
      (hagree.reads (by decide) (by decide) hx), judged_code_eq_zero,
      hagree.unitsDiffer (by decide)]
    exact ⟨hunits, htier⟩

/-- A registry of one anchor, measured in microseconds. -/
def microseconds : FileSystem := fun _ ↦
  .ok "id,measured,tol,tol_kind,units,at,domain\na,1,0,abs,us,k=1,k=1\n"

def foreignUnits : List Str :=
  ["--compose", "certified,certified", "--value", "1", "--registry", "r.csv", "--anchor-id", "a",
    "--at", "k=1", "--units", "tok/s"]

/-- A throughput passes for a time, but only in a composition. -/
theorem not_composesSoundly : ¬ ComposesSoundly microseconds foreignUnits := by
  intro h
  have hargs : Args.parse gateFlags foreignUnits = .ok ⟨[], [
      ("compose", some "certified,certified"), ("value", some "1"), ("registry", some "r.csv"),
      ("anchor-id", some "a"), ("at", some "k=1"), ("units", some "tok/s")]⟩ := by
    decide +kernel
  have hzero : (gate microseconds foreignUnits).code = 0 := by decide +kernel
  have hsingle : (gate microseconds (withoutCompose foreignUnits)).code = 2 := by decide +kernel
  have h0 := (h _ "certified,certified" hargs rfl hzero).2
  rw [hsingle] at h0
  cases h0

end CalxMill.Gate
