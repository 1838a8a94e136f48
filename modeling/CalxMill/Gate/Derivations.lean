import CalxMill.Gate.Compose
import CalxMill.Lib.Meets

/-!
# Chains of gate runs

A verdict may be composed of verdicts that were composed before.  However the
runs are chained, the last verdict is the meet of the claims, and it is capped
once unless every composite has passed its own anchor.
-/

namespace CalxMill.Gate

open Lib Rust

/-- One run of the command, on the files there were at the time. -/
structure GateRun where
  fs : FileSystem
  words : List Str

namespace GateRun

def code (r : GateRun) : ℕ := (gate r.fs r.words).code

/-- The tier that the exit code of a claim stands for. -/
def tier (r : GateRun) : Authority :=
  if r.code = 0 then .gate else if r.code = 3 then .crossChecked else .advisory

/-- The run earns the top tier from the anchor on its line. -/
def Reanchored (r : GateRun) : Prop :=
  ∃ args g x, Args.parse gateFlags r.words = .ok args ∧ resolveGateAnchor r.fs args = .ok (some g) ∧
    Reads args x ∧ g.tier x = .gate

end GateRun

/-- How a verdict came about: each leaf judges a claim, and each node composes
the verdicts of its two sides, as they were printed. -/
inductive Derives : Compound GateRun → Authority → Prop
  | claim {r : GateRun} {args : Args} {a : Authority}
      (hargs : Args.parse gateFlags r.words = .ok args)
      (hsingle : args.value "compose" = none) (hcode : r.code = exitCode (verdict a)) :
      Derives (.leaf r) a
  | composite {r : GateRun} {args : Args} {spec : Str} {a ta tb : Authority}
      {left right : Compound GateRun} (hleft : Derives left ta) (hright : Derives right tb)
      (hargs : Args.parse gateFlags r.words = .ok args) (hspec : args.value "compose" = some spec)
      (hparts : parseSpec spec = .ok (ta, tb)) (hcode : r.code = exitCode (verdict a)) :
      Derives (.node r left right) a

theorem verdict_injective : Function.Injective verdict := by
  intro a b h
  cases a <;> cases b <;> first | rfl | cases h

theorem GateRun.tier_eq {r : GateRun} {a : Authority} (h : r.code = exitCode (verdict a)) :
    r.tier = a := by
  rw [GateRun.tier, h]
  cases a <;> rfl

/-- A composition that prints a verdict took the tiers of its parts and its own anchor. -/
theorem composite_eq {r : GateRun} {args : Args} {spec : Str} {a ta tb : Authority}
    (hargs : Args.parse gateFlags r.words = .ok args) (hspec : args.value "compose" = some spec)
    (hparts : parseSpec spec = .ok (ta, tb)) (hcode : r.code = exitCode (verdict a)) :
    ∃ anchored, a = compose ta tb anchored ∧ (anchored = true ↔ r.Reanchored) := by
  have husage : (gate r.fs r.words).code ≠ usageExit := by
    rw [← GateRun.code, hcode]
    exact exitCode_ne_usageExit _
  have hpanic : (gate r.fs r.words).code ≠ 101 := by
    rw [← GateRun.code, hcode]
    cases a <;> decide
  obtain ⟨-, ga, hga, hrun⟩ := adjudicate_eq_ok.mp (adjudicate_of_code hargs husage hpanic)
  rw [hspec] at hrun
  obtain ⟨ta', tb', anchored, hparts', hanchored, hout⟩ := composeRun_eq_ok.mp hrun
  obtain ⟨rfl, rfl⟩ := Prod.mk.inj (Except.ok.inj (hparts.symm.trans hparts'))
  refine ⟨anchored, ?_, ?_⟩
  · rw [GateRun.code, ← hout, composed_code] at hcode
    exact (verdict_injective (exitCode_injective hcode)).symm
  · constructor
    · intro htrue
      cases ga with
      | none =>
          rw [htrue] at hanchored
          cases hanchored
      | some g =>
          obtain ⟨x, hx, htier⟩ := compositeAnchored_some.mp hanchored
          exact ⟨args, g, x, hargs, hga, hx, of_decide_eq_true (htier.trans htrue)⟩
    · rintro ⟨args', g, x, hargs', hg, hx, htier⟩
      obtain rfl := Except.ok.inj (hargs.symm.trans hargs')
      obtain rfl := Except.ok.inj (hga.symm.trans hg)
      obtain ⟨y, hy, rfl⟩ := compositeAnchored_some.mp hanchored
      rw [hy.unique hx]
      exact decide_eq_true htier

/-- The verdict of a chain is the value of its tree. -/
theorem derives_eq_value {t : Compound GateRun} {a : Authority} (h : Derives t a) :
    a = t.value GateRun.tier GateRun.Reanchored .crossChecked := by
  induction h with
  | claim _ _ hcode => exact (GateRun.tier_eq hcode).symm
  | @composite r _ _ _ _ _ _ _ _ _ hargs hspec hparts hcode ihleft ihright =>
      obtain ⟨anchored, rfl, hiff⟩ := composite_eq hargs hspec hparts hcode
      rw [Compound.value, ← ihleft, ← ihright, compose]
      by_cases hr : r.Reanchored
      · rw [if_pos hr, if_pos (hiff.mpr hr)]
      · rw [if_neg hr, if_neg (mt hiff.mp hr)]

theorem le_of_derives {t : Compound GateRun} {a x : Authority} (h : Derives t a) :
    x ≤ a ↔ (∀ r ∈ t.leaves, x ≤ r.tier) ∧ (x ≤ .crossChecked ∨ ∀ r ∈ t.nodes, r.Reanchored) := by
  rw [derives_eq_value h, Compound.le_value_iff]

theorem GateRun.gate_le_tier {r : GateRun} : .gate ≤ r.tier ↔ r.code = 0 := by
  rw [GateRun.tier]
  split
  · next h => exact iff_of_true le_rfl h
  · next h =>
      refine iff_of_false ?_ h
      split <;> decide

theorem GateRun.crossChecked_le_tier {r : GateRun} :
    .crossChecked ≤ r.tier ↔ r.code = 0 ∨ r.code = 3 := by
  rw [GateRun.tier]
  split
  · next h => exact iff_of_true (by decide) (.inl h)
  · next h =>
      split
      · next h' => exact iff_of_true le_rfl (.inr h')
      · next h' => exact iff_of_false (by decide) (not_or.mpr ⟨h, h'⟩)

theorem code_of_leaf {t : Compound GateRun} {a : Authority} (h : Derives t a) :
    ∀ r ∈ t.leaves, ∃ b, r.code = exitCode (verdict b) := by
  induction h with
  | claim _ _ hcode =>
      intro r hr
      rw [Compound.leaves, List.mem_singleton] at hr
      exact ⟨_, hr ▸ hcode⟩
  | composite _ _ _ _ _ _ ihleft ihright =>
      rw [Compound.leaves, List.forall_mem_append]
      exact ⟨ihleft, ihright⟩

theorem gate_le_iff {a : Authority} : .gate ≤ a ↔ a = .gate := by
  cases a <;> decide

theorem crossChecked_le_iff {a : Authority} : .crossChecked ≤ a ↔ a ≠ .advisory := by
  cases a <;> decide

/-- However verdicts are chained, the last one is certified exactly when every
claim was and every composite passed an anchor of its own, and it is refused
exactly when some claim was. -/
theorem derives_verdict {t : Compound GateRun} {a : Authority} (h : Derives t a) :
    (a = .gate ↔ (∀ r ∈ t.leaves, r.code = 0) ∧ ∀ r ∈ t.nodes, r.Reanchored) ∧
      (a = .advisory ↔ ∃ r ∈ t.leaves, r.code = 2) := by
  constructor
  · have hcap : ¬ Authority.gate ≤ .crossChecked := by decide
    rw [← gate_le_iff, le_of_derives h]
    simp only [GateRun.gate_le_tier, hcap, false_or]
  · have hrefused : ∀ r ∈ t.leaves, (¬ Authority.crossChecked ≤ r.tier) ↔ r.code = 2 := by
      intro r hr
      obtain ⟨b, hb⟩ := code_of_leaf h r hr
      rw [GateRun.crossChecked_le_tier, hb]
      cases b <;> decide
    rw [← not_iff_not, ← ne_eq, ← crossChecked_le_iff, le_of_derives h]
    simp only [le_refl, true_or, and_true, not_exists, not_and]
    exact forall₂_congr fun r hr ↦ by rw [← hrefused r hr, not_not]

/-- A claim that reproduces its anchor. -/
def certifiedRun : GateRun where
  fs := noFiles
  words := ["--value", "1", "--anchor", "1", "--tol", "0", "--fit-override", "at-anchor"]

/-- The same claim with two certified parts. -/
def compositeRun : GateRun where
  fs := noFiles
  words := ["--compose", "certified,certified", "--value", "1", "--anchor", "1", "--tol", "0",
    "--fit-override", "at-anchor"]

theorem parse_certifiedRun : Args.parse gateFlags certifiedRun.words = .ok ⟨[], [
    ("value", some "1"), ("anchor", some "1"), ("tol", some "0"),
    ("fit-override", some "at-anchor")]⟩ := by
  decide +kernel

theorem parse_compositeRun : Args.parse gateFlags compositeRun.words = .ok ⟨[], [
    ("compose", some "certified,certified"), ("value", some "1"), ("anchor", some "1"),
    ("tol", some "0"), ("fit-override", some "at-anchor")]⟩ := by
  decide +kernel

theorem derives_certifiedRun : Derives (.leaf certifiedRun) .gate :=
  .claim parse_certifiedRun rfl (by decide +kernel)

theorem derives_compositeRun {t t' : Compound GateRun} (h : Derives t .gate)
    (h' : Derives t' .gate) : Derives (.node compositeRun t t') .gate :=
  .composite h h' parse_compositeRun rfl (by decide +kernel) (by decide +kernel)

/-- A composite over a claim and a composite of claims. -/
def nestedRuns : Compound GateRun :=
  .node compositeRun (.leaf certifiedRun)
    (.node compositeRun (.leaf certifiedRun) (.leaf certifiedRun))

theorem derives_nestedRuns : Derives nestedRuns .gate :=
  derives_compositeRun derives_certifiedRun
    (derives_compositeRun derives_certifiedRun derives_certifiedRun)

theorem derives_verdict_nestedRuns :
    (∀ r ∈ nestedRuns.leaves, r.code = 0) ∧ ∀ r ∈ nestedRuns.nodes, r.Reanchored :=
  (derives_verdict derives_nestedRuns).1.mp rfl

/-- Neither the order nor the grouping nor a repeated claim changes the verdict
of a chain: only the claims that it rests on, and whether every composite of it
passed its own anchor. -/
theorem derives_reorder {t t' : Compound GateRun} {a a' : Authority} (h : Derives t a)
    (h' : Derives t' a') (hleaves : ∀ r, r ∈ t.leaves ↔ r ∈ t'.leaves)
    (hnodes : (∀ r ∈ t.nodes, r.Reanchored) ↔ ∀ r ∈ t'.nodes, r.Reanchored) : a = a' := by
  rw [derives_eq_value h, derives_eq_value h', Compound.value_congr hleaves hnodes]

/-- Two claims on one level are not provisional either. -/
theorem derives_reorder_nestedRuns :
    ¬ Derives (.node compositeRun (.leaf certifiedRun) (.leaf certifiedRun)) .crossChecked := by
  intro h
  have hnested := derives_nestedRuns
  have hequal := derives_reorder hnested h (by simp [nestedRuns, Compound.leaves])
    (by simp [nestedRuns, Compound.nodes])
  cases hequal

end CalxMill.Gate
