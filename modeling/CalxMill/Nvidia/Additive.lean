import CalxMill.Nvidia.DemandVector

/-!
# Additivity of the projection

The demand vector of two censuses together is the sum of their demand vectors,
however the entries are grouped, so the predicted cycles lie between the larger
prediction and the sum of the two and scale with the warps.
-/

namespace CalxMill.Nvidia

open Lib Rust

namespace Census

def append (c₁ c₂ : Census) : Census := ⟨c₁.items ++ c₂.items⟩

/-- The counts of `c₂` added to those of `c₁`. -/
def merge (c₁ c₂ : Census) : Census := c₂.items.foldl (fun c e ↦ c.add e.1 e.2) c₁

theorem regroups_merge (c₁ c₂ : Census) : Regroups (c₁.append c₂).items (c₁.merge c₂).items := by
  have hitems : (c₁.merge c₂).items = c₂.items.foldl
      (fun l e ↦ Assoc.alter (fun c ↦ c.getD 0 + e.2) e.1 l) c₁.items :=
    (List.foldl_hom Census.items fun _ _ ↦ rfl).symm
  rw [hitems]
  exact regroups_foldl_alter c₂.items c₁.items

end Census

/-! ## Sums over regrouped entries -/

variable {rates : Rates} {memClass : MemClass} {items items' : List (Str × ℕ)}

theorem entryBytes_eq (e : Str × ℕ) : entryBytes e = e.2 * entryBytes (e.1, 1) := by
  unfold entryBytes
  cases opClass e.1 <;> simp

theorem traffic_append : traffic (items ++ items') = traffic items + traffic items' := by
  simp [traffic]

theorem traffic_regroups (h : Regroups items items') : traffic items' = traffic items := by
  have hsum := h.sum_map_count_mul fun mn ↦ entryBytes (mn, 1)
  simpa only [traffic, Nat.cast_id, ← entryBytes_eq] using hsum

theorem demandOf_append (b : ℚ) (name : Str) :
    demandOf rates b (items ++ items') name =
      demandOf rates b items name + demandOf rates b items' name := by
  simp [demandOf]

theorem demandOf_regroups (h : Regroups items items') (b : ℚ) (name : Str) :
    demandOf rates b items' name = demandOf rates b items name :=
  h.sum_map_count_mul fun mn ↦ tally (opUse rates b mn) name

theorem Fits.left (h : Fits (items ++ items')) : Fits items := by
  obtain ⟨hcounts, hbytes⟩ := h
  rw [List.map_append, List.sum_append] at hcounts
  rw [traffic_append] at hbytes
  exact ⟨by omega, by omega⟩

theorem Fits.right (h : Fits (items ++ items')) : Fits items' := by
  obtain ⟨hcounts, hbytes⟩ := h
  rw [List.map_append, List.sum_append] at hcounts
  rw [traffic_append] at hbytes
  exact ⟨by omega, by omega⟩

theorem Fits.regroups (hfits : Fits items) (h : Regroups items items') : Fits items' := by
  have hcounts := h.sum_map_count_mul fun _ ↦ 1
  simp only [Nat.cast_id, mul_one] at hcounts
  exact ⟨hcounts ▸ hfits.counts, traffic_regroups h ▸ hfits.bytes⟩

/-- The rows that other entries read, of the same mnemonics. -/
theorem UsedPositive.mono (h : UsedPositive rates memClass items)
    (hkeys : ∀ e ∈ items', e.1 ∈ Assoc.keys items)
    (htraffic : traffic items' ≠ 0 → traffic items ≠ 0) : UsedPositive rates memClass items' := by
  refine ⟨fun e he ↦ ?_, fun hclass hne ↦ h.l1 hclass (htraffic hne)⟩
  obtain ⟨e', he', hkey⟩ := Assoc.mem_keys.mp (hkeys e he)
  rw [← hkey]
  exact h.rows e' he'

/-! ## The projection of two censuses -/

/-- The demands of two censuses add up, and the prediction follows them. -/
structure Additive (run : ℚ → Census → Exec Str ProjectResult) (w : ℚ) (c₁ c₂ : Census)
    (r₁ r₂ r : ProjectResult) : Prop where
  demand : ∀ name, r.demand name = r₁.demand name + r₂.demand name
  merged : ∃ r', run w (c₁.merge c₂) = .ok r' ∧
    ∀ name, r'.demand name = r₁.demand name + r₂.demand name
  regrouped : ∀ c : Census, Regroups (c₁.append c₂).items c.items → ∃ r', run w c = .ok r' ∧
    r'.demand = r.demand ∧ r'.ppmCycles = r.ppmCycles
  bounds : ∃ m₁ m₂ m, r₁.ppmCycles = .fin m₁ ∧ r₂.ppmCycles = .fin m₂ ∧ r.ppmCycles = .fin m ∧
    m₁ ≤ m ∧ m₂ ≤ m ∧ m ≤ m₁ + m₂
  scales : ∀ k, 0 ≤ k → ∃ r', run (k * w) (c₁.append c₂) = .ok r' ∧
    r'.ppmCycles = .fin k * r.ppmCycles

theorem project_additive {c₁ c₂ : Census} {w dramBudget : ℚ}
    (hrates : UsedPositive rates memClass (c₁.append c₂).items)
    (hfits : Fits (c₁.append c₂).items) (hw : 0 ≤ w) (hdram : 0 < dramBudget) :
    ∃ r₁ r₂ r, project c₁ (.fin w) memClass rates (.fin dramBudget) = .ok r₁ ∧
      project c₂ (.fin w) memClass rates (.fin dramBudget) = .ok r₂ ∧
      project (c₁.append c₂) (.fin w) memClass rates (.fin dramBudget) = .ok r ∧
      Additive (fun w c ↦ project c (.fin w) memClass rates (.fin dramBudget)) w c₁ c₂
        r₁ r₂ r := by
  have htraffic : traffic (c₁.append c₂).items = traffic c₁.items + traffic c₂.items :=
    traffic_append
  have hrates₁ : UsedPositive rates memClass c₁.items :=
    hrates.mono (fun e he ↦ Assoc.mem_keys_of_mem (List.mem_append_left _ he)) (by omega)
  have hrates₂ : UsedPositive rates memClass c₂.items :=
    hrates.mono (fun e he ↦ Assoc.mem_keys_of_mem (List.mem_append_right _ he)) (by omega)
  obtain ⟨r₁, hrun₁, hdemand₁, hnonneg₁, m₁, hm₁, hpeak₁⟩ :=
    project_spec hrates₁ hfits.left hw hdram
  obtain ⟨r₂, hrun₂, hdemand₂, hnonneg₂, m₂, hm₂, hpeak₂⟩ :=
    project_spec hrates₂ hfits.right hw hdram
  obtain ⟨r, hrun, hdemand, -, m, hm, hpeak⟩ := project_spec hrates hfits hw hdram
  have hsum : ∀ name, r.demand name = r₁.demand name + r₂.demand name := by
    intro name
    rw [hdemand, hdemand₁, hdemand₂, Census.append, demandOf_append, mul_add]
  have hregrouped : ∀ c : Census, Regroups (c₁.append c₂).items c.items →
      ∃ r', project c (.fin w) memClass rates (.fin dramBudget) = .ok r' ∧
        r'.demand = r.demand ∧ r'.ppmCycles = r.ppmCycles := by
    intro c hc
    obtain ⟨r', hrun', hdemand', -, m', hm', hpeak'⟩ :=
      project_spec (hrates.mono hc.keys_subset fun h ↦ traffic_regroups hc ▸ h)
        (hfits.regroups hc) hw hdram
    have heq : r'.demand = r.demand := by
      funext name
      rw [hdemand', hdemand, demandOf_regroups hc]
    have hpeak : IsPeak r'.demand m := heq ▸ hpeak
    exact ⟨r', hrun', heq, by rw [hm', hm, hpeak'.unique hpeak]⟩
  refine ⟨r₁, r₂, r, hrun₁, hrun₂, hrun, hsum, ?_, hregrouped, ?_, ?_⟩
  · obtain ⟨r', hrun', heq, -⟩ := hregrouped _ (Census.regroups_merge c₁ c₂)
    exact ⟨r', hrun', fun name ↦ by rw [heq, hsum]⟩
  · refine ⟨m₁, m₂, m, hm₁, hm₂, hm, ?_, ?_, ?_⟩
    · exact hpeak₁.mono hpeak fun name ↦ hsum name ▸ le_add_of_nonneg_right (hnonneg₂ name)
    · exact hpeak₂.mono hpeak fun name ↦ hsum name ▸ le_add_of_nonneg_left (hnonneg₁ name)
    · exact hpeak₁.le_add hpeak₂ (funext hsum ▸ hpeak)
  · intro k hk
    obtain ⟨r', hrun', hdemand', -, m', hm', hpeak'⟩ :=
      project_spec hrates hfits (mul_nonneg hk hw) hdram
    have hscaled : r'.demand = fun name ↦ k * r.demand name := by
      funext name
      rw [hdemand', hdemand, mul_assoc]
    have hpeak : IsPeak r'.demand (k * m) := hscaled ▸ hpeak.mul_left hk
    exact ⟨r', hrun', by rw [hm', hm, ExtNum.fin_mul, hpeak'.unique hpeak]⟩

/-- A table with one measured rate and a measured L1 bandwidth. -/
def twoRates : Rates := [("alu.ffma.tput", ⟨"2.0", "fma"⟩), ("mem.l1.bw", ⟨"32.5", []⟩)]

theorem project_additive_twoRates :
    ∃ r₁ r₂ r, project ⟨[("FFMA", 128), ("LDG.E.128", 4)]⟩ (.fin 8) .l1 twoRates (.fin 5.82) =
        .ok r₁ ∧
      project ⟨[("LOP3.LUT", 64), ("FFMA", 2), ("LDS.32", 8)]⟩ (.fin 8) .l1 twoRates
        (.fin 5.82) = .ok r₂ ∧
      project (Census.append ⟨[("FFMA", 128), ("LDG.E.128", 4)]⟩
        ⟨[("LOP3.LUT", 64), ("FFMA", 2), ("LDS.32", 8)]⟩) (.fin 8) .l1 twoRates (.fin 5.82) =
        .ok r ∧
      Additive (fun w c ↦ project c (.fin w) .l1 twoRates (.fin 5.82)) 8
        ⟨[("FFMA", 128), ("LDG.E.128", 4)]⟩ ⟨[("LOP3.LUT", 64), ("FFMA", 2), ("LDS.32", 8)]⟩
        r₁ r₂ r := by
  have hffma : ∀ r ∈ measuredRow twoRates "FFMA", PositiveValue r := by
    rintro r hr
    obtain rfl := Option.some.inj hr
    exact ⟨2, by norm_num, by decide +kernel⟩
  have hlop3 : ∀ r ∈ measuredRow twoRates "LOP3.LUT", PositiveValue r := by
    rintro r hr
    cases hr
  have hl1 : ∀ r ∈ twoRates.get "mem.l1.bw", PositiveValue r := by
    rintro r hr
    obtain rfl := Option.some.inj hr
    exact ⟨32.5, by norm_num, by decide +kernel⟩
  refine project_additive ⟨?_, fun _ _ ↦ hl1⟩ ⟨by decide, by decide⟩ (by norm_num) (by norm_num)
  simp only [Census.append, List.cons_append, List.nil_append, List.forall_mem_cons]
  exact ⟨fun _ ↦ hffma, fun h ↦ absurd h (by decide), fun _ ↦ hlop3, fun _ ↦ hffma,
    fun h ↦ absurd h (by decide), List.forall_mem_nil _⟩

end CalxMill.Nvidia
