import CalxMill.Gate.Words

/-!
# Runs on related lines

Two command lines that differ in one flag resolve the same anchor, up to what
that flag contributes.  The frame is `AgreeExcept`: every other flag reads the
same on both lines.
-/

namespace CalxMill.Gate

open Lib Rust

/-- Every flag but `skip` reads the same. -/
structure AgreeExcept (skip : Str) (args args' : Args) : Prop where
  value : ∀ name, name ≠ skip → args'.value name = args.value name
  has : ∀ name, name ≠ skip → args'.has name = args.has name
  shape : checkShape args' = checkShape args

theorem agreeExcept_setFlag (name : Str) (v : Option Str) (args : Args) :
    AgreeExcept name args (editArgs (setFlag name v) args) where
  value _ hk := value_editArgs (setFlag_of_ne hk v) args
  has _ hk := has_editArgs (setFlag_of_ne hk v) args
  shape := checkShape_editArgs args

section Frame

variable {skip : Str} {fs : FileSystem} {args args' : Args} {g : GateAnchor} {x : Reading}

theorem AgreeExcept.reads (h : AgreeExcept skip args args') (hv : lit "value" ≠ skip)
    (ha : lit "at-anchor" ≠ skip) (hx : Reads args x) : Reads args' x where
  value := by rw [h.value _ hv, hx.value]
  atAnchor := by rw [h.value _ ha, hx.atAnchor]

theorem AgreeExcept.registryMode (h : AgreeExcept skip args args') (hr : lit "registry" ≠ skip)
    (hi : lit "anchor-id" ≠ skip) (ha : lit "at" ≠ skip) :
    registryMode args' = registryMode args := by
  unfold Gate.registryMode
  rw [h.has _ hr, h.has _ hi, h.has _ ha]

/-- A flag with a value is there. -/
theorem has_of_value {args : Args} {name v : Str} (h : args.value name = some v) :
    args.has name = true := by
  obtain ⟨f, hf, -⟩ := Option.bind_eq_some_iff.mp h
  have hname : f.1 = name := by simpa using List.find?_some hf
  exact List.any_eq_true.mpr ⟨f, List.mem_of_find?_eq_some hf, by simpa using hname⟩

theorem FromRegistry.registryMode {row : AnchorRow} {query : List (Str × Str)}
    (h : FromRegistry fs args g row query) : registryMode args = true := by
  obtain ⟨file, -, -, hfile, -⟩ := h.loaded
  rw [Gate.registryMode]
  rw [has_of_value hfile]
  rfl

theorem FromManual.anyManual (h : FromManual args g) : anyManual args = true := by
  obtain ⟨m, hm, -⟩ := Option.bind_eq_some_iff.mp h.measured
  rw [Gate.anyManual]
  rw [has_of_value hm]
  rfl

theorem FromRegistry.resolves {row : AnchorRow} {query : List (Str × Str)}
    (h : FromRegistry fs args g row query) : resolveGateAnchor fs args = .ok (some g) := by
  rw [resolveGateAnchor, h.registryMode, if_pos rfl]
  exact Exec.map_eq_ok.mpr ⟨g, resolveRegistry_eq_ok.mpr ⟨row, query, h⟩, rfl⟩

theorem FromManual.resolves (h : FromManual args g) (hmode : Gate.registryMode args = false) :
    resolveGateAnchor fs args = .ok (some g) := by
  rw [resolveGateAnchor, hmode, h.anyManual]
  exact Exec.map_eq_ok.mpr ⟨g, resolveManual_eq_ok.mpr h, rfl⟩

/-- The two sources of a resolved anchor. -/
theorem resolveGateAnchor_eq_some :
    resolveGateAnchor fs args = .ok (some g) ↔
      (∃ row query, FromRegistry fs args g row query) ∨
      (Gate.registryMode args = false ∧ FromManual args g) := by
  constructor
  · intro h
    rcases resolveGateAnchor_eq_ok.mp h with ⟨-, g', hg', heq⟩ | ⟨hm, -, g', hg', heq⟩ | ⟨-, -, h⟩
    · obtain rfl := Option.some.inj heq
      exact Or.inl (resolveRegistry_eq_ok.mp hg')
    · obtain rfl := Option.some.inj heq
      exact Or.inr ⟨hm, resolveManual_eq_ok.mp hg'⟩
    · cases h
  · rintro (⟨row, query, h⟩ | ⟨hm, h⟩)
    · exact h.resolves
    · exact h.resolves hm

/-- The flags that name the registry row and its query. -/
def rowFlags : List Str := ["registry", "anchor-id", "at", "anchor", "tol", "tol-rel"]

/-- The flags that spell a manual anchor, its fit aside. -/
def manualFlags : List Str := ["anchor", "tol", "tol-rel", "units"]

theorem FromRegistry.transfer {row : AnchorRow} {query : List (Str × Str)} {f : DomainFit}
    {overridden : Bool} (h : FromRegistry fs args g row query)
    (hagree : AgreeExcept skip args args') (hskip : skip ∉ rowFlags)
    (hfit : chooseFit args' (computedFit row query) = .ok (f, overridden)) :
    FromRegistry fs args' { g with fit := f, overridden := overridden } row query := by
  have hne (name : Str) (hname : name ∈ rowFlags) : name ≠ skip := fun h ↦ hskip (h ▸ hname)
  constructor
  · intro flag hflag
    have hmem : flag ∈ rowFlags := by
      simp only [conflicting, List.mem_cons, List.not_mem_nil, or_false] at hflag
      rcases hflag with rfl | rfl | rfl <;> simp [rowFlags]
    rw [hagree.has flag (hne flag hmem)]
    exact h.noConflict flag hflag
  · rw [hagree.value _ (hne "registry" (by simp [rowFlags])),
      hagree.value _ (hne "anchor-id" (by simp [rowFlags]))]
    exact h.loaded
  · rw [hagree.value _ (hne "at" (by simp [rowFlags]))]
    exact h.asked
  · exact hfit
  · rw [h.eq]

theorem FromManual.transfer {f : DomainFit} (h : FromManual args g)
    (hagree : AgreeExcept skip args args') (hskip : skip ∉ manualFlags)
    (hfit : (args'.value "fit-override").bind parseFit = some f) :
    FromManual args' { g with fit := f } := by
  have hne (name : Str) (hname : name ∈ manualFlags) : name ≠ skip := fun h ↦ hskip (h ▸ hname)
  constructor
  · rw [hagree.value _ (hne "anchor" (by simp [manualFlags]))]
    exact h.measured
  · rw [manualTol]
    rw [hagree.value _ (hne "tol" (by simp [manualFlags])),
      hagree.value _ (hne "tol-rel" (by simp [manualFlags]))]
    exact h.tol
  · exact hfit
  · rw [h.eq, hagree.value _ (hne "units" (by simp [manualFlags]))]

theorem AgreeExcept.unitsDiffer (h : AgreeExcept skip args args') (hu : lit "units" ≠ skip) :
    unitsDiffer args' g = unitsDiffer args g := by
  unfold Gate.unitsDiffer
  rw [h.value _ hu]

end Frame

end CalxMill.Gate
