import CalxMill.Gate.Compose
import CalxMill.Gate.ExitCodes

/-!
# Declared fits

A verdict depends on a declared fit when another declaration, or none where
the registry computes one, would change the exit code.  The single-claim path
marks every verdict of this kind; the composite path marks none.
-/

namespace CalxMill.Gate

open Lib Rust

/-- The same line with another declared fit. -/
def redeclare (f : Str) : List Str → List Str := editWords (setFlag "fit-override" (some f))

/-- The same line with the fit left to the registry. -/
def undeclare : List Str → List Str := editWords (setFlag "fit-override" none)

/-- Another declaration could change the exit code. -/
def DependsOnFit (fs : FileSystem) (rest : List Str) : Prop :=
  (∃ f, parseFit f ≠ none ∧ (gate fs (redeclare f rest)).code ≠ (gate fs rest).code) ∨
  (∃ args, Args.parse gateFlags rest = .ok args ∧ registryMode args = true ∧
    (gate fs (undeclare rest)).code ≠ (gate fs rest).code)

def Tagged (out : Outcome) : Prop := ∃ line ∈ out.stdout, lit "[fit-override]" <:+: line

/-- A printed verdict that depends on a declared fit carries the tag. -/
def OverrideShown (fs : FileSystem) (rest : List Str) : Prop :=
  ∀ v, Prints (gate fs rest) v → DependsOnFit fs rest → Tagged (gate fs rest)

/-- Two certified inputs, and a composite whose declared fit decides whether
they stay certified. -/
structure HiddenOverride (fs : FileSystem) (args : Args) (spec : Str) (g : GateAnchor)
    (x : Reading) : Prop where
  shape : checkShape args = .ok ()
  asked : args.value "compose" = some spec
  certified : parseSpec spec = .ok (.gate, .gate)
  source : resolveGateAnchor fs args = .ok (some g)
  declared : g.overridden = true
  reads : Reads args x
  reproduced : g.anchor.reproduces x.atAnchor = true

/-! ## The anchor under another declaration -/

section Edit

variable {fs : FileSystem} {args : Args} {g : GateAnchor}

/-- A line without a declared fit is its own redeclaration. -/
theorem editArgs_of_value_eq_none (v : Option Str) (hshape : checkShape args = .ok ())
    (h : args.value "fit-override" = none) :
    editArgs (setFlag "fit-override" v) args = args := by
  obtain ⟨positional, flags⟩ := args
  have hvalued : ∀ f ∈ flags, f.2 ≠ none := by
    intro f hf hnone
    have hfails : ¬ (checkShape ⟨positional, flags⟩).Fails := by
      rw [hshape]
      exact Exec.fails_ok _
    obtain ⟨name, w⟩ := f
    obtain rfl : w = none := hnone
    exact hfails (checkShape_fails.mpr (Or.inl ⟨name, hf⟩))
  have habsent : ∀ f ∈ flags, f.1 ≠ lit "fit-override" := by
    intro f hf hname
    cases hfind : flags.find? (·.1 = lit "fit-override") with
    | none => simpa [hname] using List.find?_eq_none.mp hfind f hf
    | some f' =>
        have hf' := List.mem_of_find?_eq_some hfind
        simp only [Args.value, hfind, Option.bind_some] at h
        exact hvalued f' hf' h
  have hkeep : ∀ f ∈ flags, editFlag (setFlag "fit-override" v) f = some f := by
    rintro ⟨k, w⟩ hf
    cases w with
    | none => rfl
    | some w => simp [editFlag, setFlag, habsent _ hf]
  simp only [editArgs, Args.mk.injEq, true_and]
  rw [List.filterMap_congr hkeep, List.filterMap_some]

theorem overridden_iff (hg : resolveGateAnchor fs args = .ok (some g)) :
    g.overridden = true ↔ ∃ s, args.value "fit-override" = some s := by
  rcases resolveGateAnchor_eq_some.mp hg with ⟨row, query, h⟩ | ⟨-, h⟩
  · have hchosen := h.chosen
    rw [chooseFit] at hchosen
    cases hs : args.value "fit-override" with
    | none =>
        rw [hs, Exec.pure_eq_ok, Prod.mk.injEq] at hchosen
        simp [← hchosen.2]
    | some s =>
        rw [hs] at hchosen
        simp only [Exec.bind_eq_ok, Exec.pure_eq_ok, Prod.mk.injEq] at hchosen
        obtain ⟨_, -, -, hov⟩ := hchosen
        simp [← hov]
  · obtain ⟨s, hs, -⟩ := Option.bind_eq_some_iff.mp h.fit
    rw [h.eq]
    simp [hs]

/-- Another declaration gives the same anchor with another fit. -/
theorem resolve_redeclare {s : Str} {f : DomainFit}
    (hg : resolveGateAnchor fs args = .ok (some g)) (hov : g.overridden = true)
    (hf : parseFit s = some f) :
    resolveGateAnchor fs (editArgs (setFlag "fit-override" (some s)) args) =
      .ok (some { g with fit := f }) := by
  have hagree := agreeExcept_setFlag "fit-override" (some s) args
  obtain ⟨s₀, hs₀⟩ := (overridden_iff hg).mp hov
  have hvalue :
      (editArgs (setFlag "fit-override" (some s)) args).value "fit-override" = some s := by
    rw [value_setFlag, hs₀]
    rfl
  rcases resolveGateAnchor_eq_some.mp hg with ⟨row, query, h⟩ | ⟨hm, h⟩
  · have hfit : chooseFit (editArgs (setFlag "fit-override" (some s)) args)
        (computedFit row query) = .ok (f, g.overridden) := by
      rw [chooseFit, hvalue, hov]
      simp [hf]
    exact (h.transfer hagree (by decide) hfit).resolves
  · refine (h.transfer hagree (by decide) ?_).resolves ?_
    · rw [hvalue]
      exact hf
    · rwa [hagree.registryMode (by decide) (by decide) (by decide)]

/-- Without the declaration the registry gives the same anchor with the
computed fit. -/
theorem resolve_undeclare (hg : resolveGateAnchor fs args = .ok (some g))
    (hmode : registryMode args = true) :
    ∃ f, resolveGateAnchor fs (editArgs (setFlag "fit-override" none) args) =
      .ok (some { g with fit := f, overridden := false }) := by
  have hagree := agreeExcept_setFlag "fit-override" none args
  rcases resolveGateAnchor_eq_some.mp hg with ⟨row, query, h⟩ | ⟨hm, -⟩
  · refine ⟨computedFit row query, (h.transfer hagree (by decide) ?_).resolves⟩
    have hvalue : (editArgs (setFlag "fit-override" none) args).value "fit-override" = none := by
      rw [value_setFlag]
      exact Option.bind_fun_none _
    rw [chooseFit, hvalue]
    rfl
  · rw [hmode] at hm
    cases hm

end Edit

/-- What an edit of the declared fit leaves of a run that declares one. -/
theorem DependsOnFit.edited {fs : FileSystem} {rest : List Str} {args : Args} {g : GateAnchor}
    (h : DependsOnFit fs rest) (hargs : Args.parse gateFlags rest = .ok args)
    (hg : resolveGateAnchor fs args = .ok (some g)) (hov : g.overridden = true) :
    ∃ v g', resolveGateAnchor fs (editArgs (setFlag "fit-override" v) args) = .ok (some g') ∧
      g'.anchor = g.anchor ∧ g'.units = g.units ∧
        (gate fs (editWords (setFlag "fit-override" v) rest)).code ≠ (gate fs rest).code := by
  rcases h with ⟨s, hs, hne⟩ | ⟨args', hargs', hmode, hne⟩
  · obtain ⟨f, hf⟩ := Option.ne_none_iff_exists'.mp hs
    exact ⟨some s, _, resolve_redeclare hg hov hf, rfl, rfl, hne⟩
  · obtain rfl : args = args' := Except.ok.inj (hargs.symm.trans hargs')
    obtain ⟨f, hf⟩ := resolve_undeclare hg hmode
    exact ⟨none, _, hf, rfl, rfl, hne⟩

theorem parse_setFlag {rest : List Str} {args : Args} (v : Option Str)
    (hargs : Args.parse gateFlags rest = .ok args) :
    Args.parse gateFlags (editWords (setFlag "fit-override" v) rest) =
      .ok (editArgs (setFlag "fit-override" v) args) := by
  rw [parse_editWords, hargs]
  rfl

/-- A run depends on its declared fit only when it declares one. -/
theorem DependsOnFit.declares {fs : FileSystem} {rest : List Str} {args : Args}
    (h : DependsOnFit fs rest) (hargs : Args.parse gateFlags rest = .ok args)
    (hshape : checkShape args = .ok ()) : ∃ s, args.value "fit-override" = some s := by
  by_contra hnone
  have hvalue : args.value "fit-override" = none := by
    cases hs : args.value "fit-override" with
    | none => rfl
    | some s => exact absurd ⟨s, hs⟩ hnone
  have hsame (v : Option Str) :
      gate fs (editWords (setFlag "fit-override" v) rest) = gate fs rest := by
    rw [gate_of_parse (parse_setFlag v hargs), editArgs_of_value_eq_none v hshape hvalue,
      gate_of_parse hargs]
  rcases h with ⟨s, -, hne⟩ | ⟨-, -, -, hne⟩
  · apply hne
    rw [redeclare, hsame]
  · apply hne
    rw [undeclare, hsame]

/-- An anchor with a declared fit marks its verdict line. -/
theorem verdictLine_tagged {g : GateAnchor} (h : g.overridden = true) (x : Reading) :
    lit "[fit-override]" <:+: verdictLine g x := by
  have htag (s : Str) : lit "[fit-override]" <:+: s ++ overrideTag :=
    ⟨s ++ lit " ", [], by simp [overrideTag, lit]⟩
  simp only [verdictLine, h, if_true]
  cases verdict (g.tier x) <;> exact htag _

theorem not_tagged_composed (v : Verdict) : ¬ Tagged (composed v) := by
  rintro ⟨line, hline, hinfix⟩
  obtain rfl := List.mem_singleton.mp hline
  have hbracket : '[' ∈ lit "COMPOSED: " ++ composedName v :=
    hinfix.subset (by decide : '[' ∈ lit "[fit-override]")
  revert hbracket
  cases v <;> decide +kernel

theorem tier_of_not_reproduces {g : GateAnchor} {x : Reading}
    (h : g.anchor.reproduces x.atAnchor = false) : g.tier x = .advisory := by
  simp [GateAnchor.tier, h, authority]

section Iff

variable {fs : FileSystem} {rest : List Str} {args : Args} {g : GateAnchor} {x : Reading}

/-- The single-claim path marks every verdict that depends on the fit. -/
theorem tagged_of_single (hargs : Args.parse gateFlags rest = .ok args)
    (hcompose : args.value "compose" = none) (hshape : checkShape args = .ok ())
    (hg : resolveGateAnchor fs args = .ok (some g)) (hov : g.overridden = true)
    (hx : Reads args x) (hdep : DependsOnFit fs rest) : Tagged (gate fs rest) := by
  rw [gate_of_single hargs hcompose hshape hg hx]
  cases hu : unitsDiffer args g with
  | false =>
      rw [judged_of_unitsAgree hu]
      exact ⟨verdictLine g x, by simp, verdictLine_tagged hov x⟩
  | true =>
      -- the units are judged before the fit, so no declaration matters
      exfalso
      obtain ⟨v, g', hg', -, hunits, hne⟩ := hdep.edited hargs hg hov
      have hagree := agreeExcept_setFlag "fit-override" v args
      have hcompose' : (editArgs (setFlag "fit-override" v) args).value "compose" = none := by
        rw [hagree.value _ (by decide), hcompose]
      have hu' : unitsDiffer (editArgs (setFlag "fit-override" v) args) g' = true := by
        rw [hagree.unitsDiffer (by decide), ← hu, unitsDiffer, unitsDiffer, hunits]
      apply hne
      rw [gate_of_single (parse_setFlag v hargs) hcompose' (hagree.shape.trans hshape) hg'
        (hagree.reads (by decide) (by decide) hx), gate_of_single hargs hcompose hshape hg hx,
        judged_of_unitsDiffer hu', judged_of_unitsDiffer hu]

/-- The composite path depends on a declared fit only through the anchor of
the composite. -/
theorem hiddenOverride_of_compose {spec : Str} {ta tb : Authority}
    (hargs : Args.parse gateFlags rest = .ok args) (hspec : args.value "compose" = some spec)
    (hshape : checkShape args = .ok ()) (htiers : parseSpec spec = .ok (ta, tb))
    (hg : resolveGateAnchor fs args = .ok (some g)) (hov : g.overridden = true)
    (hx : Reads args x) (hdep : DependsOnFit fs rest) : HiddenOverride fs args spec g x := by
  obtain ⟨v, g', hg', hanchor, -, hne⟩ := hdep.edited hargs hg hov
  have hagree := agreeExcept_setFlag "fit-override" v args
  have hspec' : (editArgs (setFlag "fit-override" v) args).value "compose" = some spec := by
    rw [hagree.value _ (by decide), hspec]
  rw [gate_of_compose (parse_setFlag v hargs) hspec' (hagree.shape.trans hshape) htiers hg'
    (hagree.reads (by decide) (by decide) hx), gate_of_compose hargs hspec hshape htiers hg hx]
    at hne
  have hboth : ta = .gate ∧ tb = .gate := by
    by_contra h
    apply hne
    rw [compose_of_not_both_gate h]
  have hrep : g.anchor.reproduces x.atAnchor = true := by
    by_contra h
    have h := Bool.not_eq_true _ ▸ h
    apply hne
    rw [tier_of_not_reproduces h, tier_of_not_reproduces (hanchor ▸ h)]
  obtain ⟨rfl, rfl⟩ := hboth
  exact ⟨hshape, hspec, htiers, hg, hov, hx, hrep⟩

/-- Such a composition moves between certified and provisional with the
declared fit, and does not say so. -/
theorem HiddenOverride.unmarked {spec : Str} (h : HiddenOverride fs args spec g x)
    (hargs : Args.parse gateFlags rest = .ok args) : ¬ OverrideShown fs rest := by
  intro hshown
  have hrun := gate_of_compose hargs h.asked h.shape h.certified h.source h.reads
  have hredeclared {s : Str} {f : DomainFit} (hf : parseFit s = some f) :
      gate fs (redeclare s rest) = composed (verdict (compose .gate .gate
        (({ g with fit := f } : GateAnchor).tier x = .gate))) := by
    have hagree := agreeExcept_setFlag "fit-override" (some s) args
    refine gate_of_compose (parse_setFlag _ hargs) ?_ (hagree.shape.trans h.shape) h.certified
      (resolve_redeclare h.source h.declared hf) (hagree.reads (by decide) (by decide) h.reads)
    rw [hagree.value _ (by decide), h.asked]
  have htier (f : DomainFit) :
      ({ g with fit := f } : GateAnchor).tier x = .gate ↔ f = .atAnchor := by
    rw [GateAnchor.tier_eq_gate]
    exact ⟨fun h ↦ h.2, fun hf ↦ ⟨h.reproduced, hf⟩⟩
  have hdep : DependsOnFit fs rest := by
    left
    by_cases hfit : g.fit = .atAnchor
    · refine ⟨"out", by decide, ?_⟩
      have hg : g.tier x = .gate := GateAnchor.tier_eq_gate.mpr ⟨h.reproduced, hfit⟩
      rw [hredeclared (f := .outOfDomain) (by decide), hrun]
      simp only [htier, hg]
      decide
    · refine ⟨"at-anchor", by decide, ?_⟩
      rw [hredeclared (f := .atAnchor) (by decide), hrun]
      simp only [htier, hfit]
      decide
  have htagged := hshown _ (by rw [hrun]; exact composed_prints _) hdep
  rw [hrun] at htagged
  exact not_tagged_composed _ htagged

end Iff

/-- A declared fit is shown wherever it matters, except in a composition of
two certified claims whose composite reproduces its anchor. -/
theorem overrideShown_iff (fs : FileSystem) (rest : List Str) :
    OverrideShown fs rest ↔
      ∀ args, Args.parse gateFlags rest = .ok args →
        ∀ spec g x, ¬ HiddenOverride fs args spec g x := by
  constructor
  · intro hshown args hargs spec g x h
    exact h.unmarked hargs hshown
  · intro hnone v hprints hdep
    cases hargs : Args.parse gateFlags rest with
    | error e =>
        obtain ⟨line, hline, -⟩ := hprints
        rw [(gate_of_parse_fails fs ⟨e, hargs⟩).2] at hline
        cases hline
    | ok args =>
        cases hadj : adjudicate fs args with
        | error e =>
            obtain ⟨msg, hmsg⟩ := gate_of_operatorError hargs (adjudicate_fails.mp ⟨e, hadj⟩)
            rw [hmsg] at hprints
            exact absurd hprints (not_prints_nil _ _ v)
        | ok out =>
            obtain ⟨hshape, ga, hga, hrun⟩ := adjudicate_eq_ok.mp hadj
            obtain ⟨s, hs⟩ := hdep.declares hargs hshape
            have hany : anyManual args = true := by
              simp [anyManual, has_of_value hs]
            obtain ⟨g, rfl⟩ :=
              Option.isSome_iff_exists.mp ((isSome_resolveGateAnchor hga).mpr (Or.inr hany))
            have hov := (overridden_iff hga).mpr ⟨s, hs⟩
            obtain ⟨x, hx⟩ := reads_of_adjudicate hadj hga
            cases hc : args.value "compose" with
            | none => exact tagged_of_single hargs hc hshape hga hov hx hdep
            | some spec =>
                rw [hc] at hrun
                obtain ⟨ta, tb, _, htiers, -, -⟩ := composeRun_eq_ok.mp hrun
                have h := hiddenOverride_of_compose hargs hc hshape htiers hga hov hx hdep
                exact absurd h (hnone args hargs spec g x)

def declaredComposite : List Str :=
  ["--compose", "certified,certified", "--value", "1", "--anchor", "1", "--tol", "0",
    "--fit-override", "at-anchor"]

/-- A composite that is certified by declaration alone. -/
theorem not_overrideShown : ¬ OverrideShown noFiles declaredComposite := by
  have hargs : Args.parse gateFlags declaredComposite = .ok ⟨[], [
      ("compose", some "certified,certified"), ("value", some "1"), ("anchor", some "1"),
      ("tol", some "0"), ("fit-override", some "at-anchor")]⟩ := by
    decide +kernel
  have hhidden : HiddenOverride noFiles ⟨[], [("compose", some "certified,certified"),
      ("value", some "1"), ("anchor", some "1"), ("tol", some "0"),
      ("fit-override", some "at-anchor")]⟩ "certified,certified"
      ⟨⟨.fin 1, .fin 0⟩, .atAnchor, none, true, [], []⟩ ⟨.fin 1, .fin 1⟩ := by
    constructor
    · decide +kernel
    · decide +kernel
    · decide +kernel
    · decide +kernel
    · rfl
    · constructor <;> decide +kernel
    · decide +kernel
  exact hhidden.unmarked hargs

end CalxMill.Gate
