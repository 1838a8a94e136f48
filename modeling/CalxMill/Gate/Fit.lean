import CalxMill.Gate.Run
import CalxMill.Lib.Assoc

/-!
# The computed fit as membership

A domain is a box: one bound for each axis.  A query lies in it when both
name the same axes and every value given for an axis satisfies its bound.
`computedFit` decides this by first matches and a length comparison, which is
membership for distinct keys and ordinary numbers.
-/

namespace CalxMill

open Lib Assoc Rust

/-- A value satisfies a bound. -/
def DomainBound.Holds (v : Str) : DomainBound → Prop
  | .range lo hi => ∃ x, F64.parse v = some x ∧ lo ≤ x ∧ x ≤ hi
  | .exact s => valueEq v s = true

structure Member (row : AnchorRow) (query : List (Str × Str)) : Prop where
  covered : ∀ q ∈ query, ∃ d ∈ row.domain, d.1 = q.1
  supplied : ∀ d ∈ row.domain, ∃ q ∈ query, q.1 = d.1
  holds : ∀ d ∈ row.domain, ∀ q ∈ query, q.1 = d.1 → d.2.Holds q.2

/-- The query is the anchor's own point. -/
def SamePoint (row : AnchorRow) (query : List (Str × Str)) : Prop :=
  SameAssignment (fun qv av ↦ valueEq av qv = true) query row.at'

/-- The fit is membership in the box, and the anchor fit is the anchor point. -/
structure FitIsMembership (row : AnchorRow) (query : List (Str × Str)) : Prop where
  inDomain : computedFit row query ≠ .outOfDomain → Member row query
  atAnchor : computedFit row query = .atAnchor → Member row query ∧ SamePoint row query
  complete : (keys query).Nodup → (keys row.domain).Nodup → (keys row.at').Nodup →
    Member row query → computedFit row query ≠ .outOfDomain ∧
      (SamePoint row query → computedFit row query = .atAnchor)

/-! ## What the code tests -/

/-- The key tests, and the bound of each axis on the first value given. -/
structure Passes (row : AnchorRow) (query : List (Str × Str)) : Prop where
  covered : ∀ q ∈ query, ∃ d ∈ row.domain, d.1 = q.1
  supplied : ∀ d ∈ row.domain, ∃ q, query.find? (·.1 = d.1) = some q ∧ d.2.admits q.2 = true

/-- The test for the anchor point. -/
def AtPoint (row : AnchorRow) (query : List (Str × Str)) : Prop :=
  query.length = row.at'.length ∧ ∀ q ∈ query, ∃ a ∈ row.at', a.1 = q.1 ∧ valueEq a.2 q.2 = true

theorem computedFit_cases (row : AnchorRow) (query : List (Str × Str)) :
    (¬ Passes row query ∧ computedFit row query = .outOfDomain) ∨
    (Passes row query ∧ AtPoint row query ∧ computedFit row query = .atAnchor) ∨
    (Passes row query ∧ ¬ AtPoint row query ∧ computedFit row query = .inDomain) := by
  have hpoint : (query.length = row.at'.length ∧
      query.all (fun q ↦ row.at'.any fun a ↦ a.1 = q.1 && valueEq a.2 q.2)) ↔
        AtPoint row query := by
    simp [AtPoint]
  rw [computedFit]
  split
  · next h =>
      obtain ⟨q, hq, hno⟩ := List.any_eq_true.mp h
      refine Or.inl ⟨fun hp ↦ ?_, rfl⟩
      obtain ⟨d, hd, hkey⟩ := hp.covered q hq
      simp only [Bool.not_eq_true', List.any_eq_false, decide_eq_true_eq] at hno
      exact hno d hd hkey
  next hcov =>
    split
    · next h =>
        obtain ⟨d, hd, hbad⟩ := List.any_eq_true.mp h
        refine Or.inl ⟨fun hp ↦ ?_, rfl⟩
        obtain ⟨q, hq, hadmits⟩ := hp.supplied d hd
        simp [hq, hadmits] at hbad
    next hsup =>
      have hp : Passes row query := by
        constructor
        · intro q hq
          by_contra hno
          refine hcov (List.any_eq_true.mpr ⟨q, hq, ?_⟩)
          rw [Bool.not_eq_true', List.any_eq_false]
          intro d hd hkey
          exact hno ⟨d, hd, by simpa using hkey⟩
        · intro d hd
          by_contra hno
          apply hsup
          refine List.any_eq_true.mpr ⟨d, hd, ?_⟩
          cases hq : query.find? (·.1 = d.1) with
          | none => rfl
          | some q =>
              have hbad : d.2.admits q.2 = false := by simpa [hq] using hno
              simp [hbad]
      split
      · next h => exact Or.inr (Or.inl ⟨hp, hpoint.mp h, rfl⟩)
      · next h => exact Or.inr (Or.inr ⟨hp, mt hpoint.mpr h, rfl⟩)

theorem computedFit_ne_outOfDomain {row : AnchorRow} {query : List (Str × Str)} :
    computedFit row query ≠ .outOfDomain ↔ Passes row query := by
  rcases computedFit_cases row query with ⟨hp, h⟩ | ⟨hp, -, h⟩ | ⟨hp, -, h⟩ <;> simp [h, hp]

theorem computedFit_eq_atAnchor {row : AnchorRow} {query : List (Str × Str)} :
    computedFit row query = .atAnchor ↔ Passes row query ∧ AtPoint row query := by
  rcases computedFit_cases row query with ⟨hp, h⟩ | ⟨hp, ha, h⟩ | ⟨hp, ha, h⟩
  · simp [h, hp]
  · simp [h, hp, ha]
  · simp [h, hp, ha]

/-! ## Where the tests and membership part -/

theorem DomainBound.Holds.admits {b : DomainBound} {v : Str} (h : b.Holds v) :
    b.admits v = true := by
  cases b with
  | range lo hi =>
      obtain ⟨x, hx, hlo, hhi⟩ := h
      simp [DomainBound.admits, hx, ExtNum.not_lt_of_le hlo, ExtNum.not_lt_of_le hhi]
  | exact s => exact h

/-- A range test with NaN on one side or the other. -/
def NanTest (v : Str) (b : DomainBound) : Prop :=
  ∃ lo hi x, b = .range lo hi ∧ F64.parse v = some x ∧ (x = .nan ∨ lo = .nan ∨ hi = .nan)

theorem NanTest.not_holds {b : DomainBound} {v : Str} (h : NanTest v b) : ¬ b.Holds v := by
  obtain ⟨lo, hi, x, rfl, hx, hnan⟩ := h
  rintro ⟨y, hy, hlo, hhi⟩
  obtain rfl : x = y := Option.some.inj (hx.symm.trans hy)
  rcases hnan with rfl | rfl | rfl
  · exact ExtNum.not_nan_le _ hhi
  · exact ExtNum.not_nan_le _ hlo
  · exact ExtNum.not_le_nan _ hhi

/-- Off NaN the code's test is the bound. -/
theorem holds_of_admits {b : DomainBound} {v : Str} (h : b.admits v = true)
    (hnan : ¬ NanTest v b) : b.Holds v := by
  cases b with
  | range lo hi =>
      simp only [DomainBound.admits] at h
      cases hx : F64.parse v with
      | none => simp [hx] at h
      | some x =>
          have hne : x ≠ .nan ∧ lo ≠ .nan ∧ hi ≠ .nan := by
            refine ⟨fun h' ↦ hnan ?_, fun h' ↦ hnan ?_, fun h' ↦ hnan ?_⟩
            · exact ⟨lo, hi, x, rfl, hx, Or.inl h'⟩
            · exact ⟨lo, hi, x, rfl, hx, Or.inr (Or.inl h')⟩
            · exact ⟨lo, hi, x, rfl, hx, Or.inr (Or.inr h')⟩
          have hlt : ¬ x < lo ∧ ¬ hi < x := by simpa [hx] using h
          exact ⟨x, hx, (ExtNum.not_lt_iff_le hne.1 hne.2.1).mp hlt.1,
            (ExtNum.not_lt_iff_le hne.2.2 hne.1).mp hlt.2⟩
  | exact s => exact h

/-- Some axis is tested with NaN. -/
def NanInRange (row : AnchorRow) (query : List (Str × Str)) : Prop :=
  ∃ d ∈ row.domain, ∃ q, query.find? (·.1 = d.1) = some q ∧ NanTest q.2 d.2

/-- A repeated entry, which no test looks at, breaks its bound. -/
def UntestedRepeat (row : AnchorRow) (query : List (Str × Str)) : Prop :=
  ∃ d ∈ row.domain, ∃ q, Repeats query q ∧ q.1 = d.1 ∧ ¬ d.2.Holds q.2

/-- Repeated entries make up for an axis of the anchor point that the query
leaves out or gives another value. -/
def FooledPoint (row : AnchorRow) (query : List (Str × Str)) : Prop :=
  AtPoint row query ∧
    ∃ a ∈ row.at', a.1 ∉ keys query ∨ ∃ q ∈ query, q.1 = a.1 ∧ valueEq a.2 q.2 = false

theorem samePoint_iff {row : AnchorRow} {query : List (Str × Str)} (h : AtPoint row query) :
    SamePoint row query ↔ ¬ FooledPoint row query := by
  constructor
  · rintro hsame ⟨-, a, ha, hmissing | ⟨q, hq, hkey, hne⟩⟩
    · exact hmissing (mem_keys.mpr (hsame.right a ha))
    · have hv := hsame.values q hq a ha hkey
      rw [hne] at hv
      cases hv
  · intro hno
    refine ⟨fun q hq ↦ ?_, fun a ha ↦ ?_, fun q hq a ha hkey ↦ ?_⟩
    · obtain ⟨a, ha, hkey, -⟩ := h.2 q hq
      exact ⟨a, ha, hkey⟩
    · by_contra hmissing
      exact hno ⟨h, a, ha, Or.inl (mt mem_keys.mp hmissing)⟩
    · by_contra hne
      exact hno ⟨h, a, ha, Or.inr ⟨q, hq, hkey, Bool.not_eq_true _ ▸ hne⟩⟩

/-- Only a repeated key can fool the length comparison. -/
theorem FooledPoint.not_nodup {row : AnchorRow} {query : List (Str × Str)}
    (h : FooledPoint row query) : ¬ (keys query).Nodup := by
  intro hnodup
  exact (samePoint_iff h.1).mp (sameAssignment_of_length_eq hnodup h.1.1 h.1.2) h

theorem Passes.member_iff {row : AnchorRow} {query : List (Str × Str)} (h : Passes row query) :
    Member row query ↔ ¬ NanInRange row query ∧ ¬ UntestedRepeat row query := by
  constructor
  · intro hmem
    constructor
    · rintro ⟨d, hd, q, hq, hnan⟩
      obtain ⟨hq, hkey⟩ := find?_key_eq_some hq
      exact hnan.not_holds (hmem.holds d hd q hq hkey)
    · rintro ⟨d, hd, q, hrep, hkey, hbad⟩
      exact hbad (hmem.holds d hd q hrep.mem hkey)
  · rintro ⟨hnan, hrep⟩
    refine ⟨h.covered, fun d hd ↦ ?_, fun d hd q hq hkey ↦ ?_⟩
    · obtain ⟨q, hq, -⟩ := h.supplied d hd
      exact ⟨q, find?_key_eq_some hq⟩
    · rcases first_or_repeats hq with hfirst | hrepeats
      · obtain ⟨q', hq', hadmits⟩ := h.supplied d hd
        rw [← hkey] at hq'
        obtain rfl : q = q' := Option.some.inj (hfirst.symm.trans hq')
        exact holds_of_admits hadmits fun hn ↦ hnan ⟨d, hd, q, hkey ▸ hfirst, hn⟩
      · by_contra hbad
        exact hrep ⟨d, hd, q, hrepeats, hkey, hbad⟩

theorem Member.passes {row : AnchorRow} {query : List (Str × Str)} (h : Member row query) :
    Passes row query := by
  refine ⟨h.covered, fun d hd ↦ ?_⟩
  obtain ⟨q, hq, hkey⟩ := h.supplied d hd
  cases hfind : query.find? (·.1 = d.1) with
  | none => simpa [hkey] using List.find?_eq_none.mp hfind q hq
  | some q' =>
      obtain ⟨hq', hkey'⟩ := find?_key_eq_some hfind
      exact ⟨q', rfl, (h.holds d hd q' hq' hkey').admits⟩

theorem SamePoint.atPoint {row : AnchorRow} {query : List (Str × Str)}
    (hq : (keys query).Nodup) (ha : (keys row.at').Nodup) (h : SamePoint row query) :
    AtPoint row query := by
  refine ⟨h.length_eq hq ha, fun q hmem ↦ ?_⟩
  obtain ⟨a, hmem', hkey⟩ := h.left q hmem
  exact ⟨a, hmem', hkey, h.values q hmem a hmem' hkey.symm⟩

/-- The fit is membership exactly when a query that passes the code's tests
meets none of the three defects. -/
theorem fitIsMembership_iff (row : AnchorRow) (query : List (Str × Str)) :
    FitIsMembership row query ↔
      (Passes row query →
        ¬ NanInRange row query ∧ ¬ UntestedRepeat row query ∧ ¬ FooledPoint row query) := by
  constructor
  · intro h hp
    have hmem := h.inDomain (computedFit_ne_outOfDomain.mpr hp)
    obtain ⟨hnan, hrep⟩ := hp.member_iff.mp hmem
    refine ⟨hnan, hrep, fun hfooled ↦ ?_⟩
    have hpoint := hfooled.1
    have hsame := (h.atAnchor (computedFit_eq_atAnchor.mpr ⟨hp, hpoint⟩)).2
    exact (samePoint_iff hpoint).mp hsame hfooled
  · intro h
    refine ⟨fun hne ↦ ?_, fun hat ↦ ?_, fun hq _ ha hmem ↦ ⟨?_, fun hsame ↦ ?_⟩⟩
    · have hp := computedFit_ne_outOfDomain.mp hne
      exact hp.member_iff.mpr ⟨(h hp).1, (h hp).2.1⟩
    · obtain ⟨hp, hpoint⟩ := computedFit_eq_atAnchor.mp hat
      exact ⟨hp.member_iff.mpr ⟨(h hp).1, (h hp).2.1⟩, (samePoint_iff hpoint).mpr (h hp).2.2⟩
    · exact computedFit_ne_outOfDomain.mpr hmem.passes
    · exact computedFit_eq_atAnchor.mpr ⟨hmem.passes, hsame.atPoint hq ha⟩

/-- One axis `k` in `1..2`, measured at `k=1`. -/
def oneAxis : AnchorRow :=
  ⟨"a", ⟨.fin 1, .fin 0⟩, "us", [("k", "1")], [("k", .range (.fin 1) (.fin 2))]⟩

/-- The query `k=nan` is accepted, and it lies in every range. -/
theorem not_fitIsMembership :
    Gate.parseQuery "k=nan" = .ok [("k", "nan")] ∧
      ¬ FitIsMembership oneAxis [("k", "nan")] := by
  refine ⟨by decide +kernel, fun h ↦ ?_⟩
  have hfit : computedFit oneAxis [("k", "nan")] ≠ .outOfDomain := by decide +kernel
  have hholds := (h.inDomain hfit).holds _ List.mem_cons_self _ List.mem_cons_self rfl
  have hnan : NanTest "nan" (.range (.fin 1) (.fin 2)) :=
    ⟨.fin 1, .fin 2, .nan, rfl, by decide +kernel, Or.inl rfl⟩
  exact hnan.not_holds hholds

end CalxMill
