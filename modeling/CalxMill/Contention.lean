import CalxMill.Lib.Tally
import CalxMill.SteadyState

/-!
# Overlapped lanes

Two overlapped lanes add their demands on every resource that they share.  A
demand vector without repeated kinds is a function on the resources, merging
is the addition of these functions, and the projected cycles are the peak.
-/

namespace CalxMill

open Lib Rust

/-- An entry of `b` is added to the first entry of its kind, or appended. -/
def mergeDemands (a b : List (ResourceKind × F64)) : List (ResourceKind × F64) :=
  b.foldl (fun out e ↦ Assoc.alter (fun c ↦ c.elim e.2 (· + e.2)) e.1 out) a

def overlappedContended (memLane computeLane : List (ResourceKind × F64)) : F64 :=
  (selectBound (mergeDemands memLane computeLane)).ppmCycles

/-- Shared memory bandwidth binds above both lanes' own bounds. -/
example : overlappedContended [(.memoryBw, .fin 65)] [(.pipe 0, .fin 103), (.memoryBw, .fin 80)] =
    .fin 145 := by decide +kernel

/-- One lane's demands: no kind repeats and no demand is negative. -/
structure LaneDemands where
  entries : List (ResourceKind × ℚ)
  nodup : (Assoc.keys entries).Nodup
  nonneg : ∀ e ∈ entries, 0 ≤ e.2

namespace LaneDemands

def vector (d : LaneDemands) : List (ResourceKind × F64) := d.entries.map fun e ↦ (e.1, .fin e.2)

def kinds (d : LaneDemands) : List ResourceKind := Assoc.keys d.entries

/-- The demand on a resource, zero when the lane does not list it. -/
def demand (d : LaneDemands) (kind : ResourceKind) : ℚ := tally d.entries kind

def empty : LaneDemands := ⟨[], List.nodup_nil, List.forall_mem_nil _⟩

theorem demand_nonneg (d : LaneDemands) (kind : ResourceKind) : 0 ≤ d.demand kind :=
  tally_nonneg d.nonneg kind

theorem demand_eq_zero {d : LaneDemands} {kind : ResourceKind} (h : kind ∉ d.kinds) :
    d.demand kind = 0 :=
  tally_eq_zero h

/-- The projected cycles of a lane are the peak of its demands. -/
theorem ppmCycles_isPeak (d : LaneDemands) :
    ∃ m, (selectBound d.vector).ppmCycles = .fin m ∧ IsPeak d.demand m := by
  have hvalues : d.vector.map (·.2) = (d.entries.map (·.2)).map ExtNum.fin := by
    rw [vector, List.map_map, List.map_map]
    rfl
  rcases List.eq_nil_or_concat d.entries with hnil | hne
  · refine ⟨0, ?_, ⟨.issue, ?_⟩, ?_⟩
    · rw [vector, hnil]
      rfl
    · rw [demand, hnil, tally_nil]
    · rintro _ ⟨kind, rfl⟩
      rw [demand, hnil, tally_nil]
  · have hmap : d.entries.map (·.2) ≠ [] := by
      obtain ⟨l, e, hl⟩ := hne
      simp [hl]
    obtain ⟨m, hmem, hmax, hm⟩ := firstMax_map_fin hmap
    refine ⟨m, ?_, isPeak_tally d.nodup d.nonneg hmem hmax⟩
    rw [selectBound, hvalues, hm]

end LaneDemands

/-! ## The merge is an addition -/

theorem elim_add_map_fin (x : ℚ) (c : Option ℚ) :
    (c.map ExtNum.fin).elim (.fin x : F64) (· + .fin x) = .fin (c.getD 0 + x) := by
  cases c with
  | none => simp
  | some y => rfl

theorem nonneg_foldl_alter {a b : List (ResourceKind × ℚ)} (ha : ∀ e ∈ a, 0 ≤ e.2)
    (hb : ∀ e ∈ b, 0 ≤ e.2) :
    ∀ e ∈ b.foldl (fun out e ↦ Assoc.alter (fun c ↦ c.getD 0 + e.2) e.1 out) a, 0 ≤ e.2 := by
  refine List.foldlRecOn (motive := fun out : List (ResourceKind × ℚ) ↦ ∀ e ∈ out, 0 ≤ e.2) _ _
    ha ?_
  intro out hout e he e' he'
  rcases Assoc.mem_alter he' with he' | ⟨-, he' | ⟨c, hc, he'⟩⟩
  · exact hout e' he'
  · rw [he', Option.getD_none, zero_add]
    exact hb e he
  · rw [he', Option.getD_some]
    exact add_nonneg (hout _ hc) (hb e he)

namespace LaneDemands

def merge (a b : LaneDemands) : LaneDemands where
  entries := b.entries.foldl (fun out e ↦ Assoc.alter (fun c ↦ c.getD 0 + e.2) e.1 out) a.entries
  nodup := Assoc.nodup_keys_foldl_alter _ _ _ a.nodup
  nonneg := nonneg_foldl_alter a.nonneg b.nonneg

theorem mergeDemands_vector (a b : LaneDemands) :
    mergeDemands a.vector b.vector = (a.merge b).vector := by
  rw [mergeDemands, vector, vector, vector, merge, List.foldl_map]
  refine List.foldl_hom (fun l : List (ResourceKind × ℚ) ↦ l.map fun e ↦ (e.1, ExtNum.fin e.2)) fun out e ↦ ?_
  exact Assoc.alter_map (elim_add_map_fin e.2) e.1 out

theorem demand_merge (a b : LaneDemands) (kind : ResourceKind) :
    (a.merge b).demand kind = a.demand kind + b.demand kind :=
  ((regroups_foldl_alter b.entries a.entries).tally_eq kind).trans (tally_append _ _ _)

theorem mem_kinds_merge {a b : LaneDemands} {kind : ResourceKind} :
    kind ∈ (a.merge b).kinds ↔ kind ∈ a.kinds ∨ kind ∈ b.kinds :=
  Assoc.mem_keys_foldl_alter _ _ _

/-- The overlapped cycles are the peak of the summed demands. -/
theorem overlappedContended_isPeak (a b : LaneDemands) :
    ∃ m, overlappedContended a.vector b.vector = .fin m ∧
      IsPeak (fun kind ↦ a.demand kind + b.demand kind) m := by
  obtain ⟨m, hm, hpeak⟩ := (a.merge b).ppmCycles_isPeak
  refine ⟨m, ?_, ?_⟩
  · rw [overlappedContended, mergeDemands_vector, hm]
  · rwa [funext (demand_merge a b)] at hpeak

/-- Lanes with the same demands project to the same cycles. -/
theorem ppmCycles_congr {a b : LaneDemands} (h : ∀ kind, a.demand kind = b.demand kind) :
    (selectBound a.vector).ppmCycles = (selectBound b.vector).ppmCycles := by
  obtain ⟨m, hm, hpeak⟩ := a.ppmCycles_isPeak
  obtain ⟨m', hm', hpeak'⟩ := b.ppmCycles_isPeak
  rw [funext h] at hpeak
  rw [hm, hm', hpeak.unique hpeak']

theorem overlappedContended_congr {a b a' b' : LaneDemands}
    (h : ∀ kind, a.demand kind + b.demand kind = a'.demand kind + b'.demand kind) :
    overlappedContended a.vector b.vector = overlappedContended a'.vector b'.vector := by
  rw [overlappedContended, overlappedContended, mergeDemands_vector, mergeDemands_vector]
  apply ppmCycles_congr
  intro kind
  rw [demand_merge, demand_merge, h]

theorem demand_perm {a a' : LaneDemands} (h : a.entries.Perm a'.entries) (kind : ResourceKind) :
    a'.demand kind = a.demand kind :=
  (Regroups.of_perm h).tally_eq kind

theorem disjoint_peak {a b : LaneDemands} (hdisj : ∀ kind ∈ a.kinds, kind ∉ b.kinds) {x y z : ℚ}
    (hx : IsPeak a.demand x) (hy : IsPeak b.demand y)
    (hz : IsPeak (fun kind ↦ a.demand kind + b.demand kind) z) : z ≤ max x y := by
  obtain ⟨kind, rfl⟩ := hz.1
  dsimp only
  by_cases hmem : kind ∈ a.kinds
  · rw [demand_eq_zero (hdisj kind hmem), add_zero]
    exact (hx.2 ⟨kind, rfl⟩).trans (le_max_left x y)
  · rw [demand_eq_zero hmem, zero_add]
    exact (hy.2 ⟨kind, rfl⟩).trans (le_max_right x y)

end LaneDemands

/-! ## The vectors of the projection -/

def mixEntries (concurrency : ℚ) (pipeCycles : List ℚ) (localStoreCycles memBytes memBytesPerCycle
    totalOps issueCap : ℚ) : List (ResourceKind × ℚ) :=
  (pipeCycles.zipIdx.map fun c ↦ (.pipe c.2, concurrency * c.1)) ++
    (if localStoreCycles = 0 then [] else [(.localStoreBw, concurrency * localStoreCycles)]) ++
    (if memBytes = 0 then [] else [(.memoryBw, concurrency * memBytes / memBytesPerCycle)]) ++
    [(.issue, concurrency * totalOps / issueCap)]

section Mix

variable {w localStore bytes bytesPerCycle ops cap : ℚ} {pipes : List ℚ}

theorem mixDemands_fin (hrate : bytesPerCycle ≠ 0) (hcap : cap ≠ 0) :
    mixDemands (.fin w) (pipes.map .fin) (.fin localStore) (.fin bytes) (.fin bytesPerCycle)
        (.fin ops) (.fin cap) =
      (mixEntries w pipes localStore bytes bytesPerCycle ops cap).map fun e ↦ (e.1, .fin e.2) := by
  simp only [mixDemands, mixEntries, List.map_append, ExtNum.zero_def, ExtNum.fin.injEq,
    ExtNum.fin_mul, ExtNum.fin_div _ hrate, ExtNum.fin_div _ hcap, List.zipIdx_map, List.map_map]
  split_ifs <;> rfl

theorem nodup_keys_mixEntries :
    (Assoc.keys (mixEntries w pipes localStore bytes bytesPerCycle ops cap)).Nodup := by
  have hpipes : Assoc.keys (pipes.zipIdx.map fun c ↦ (ResourceKind.pipe c.2, w * c.1)) =
      (List.range' 0 pipes.length).map .pipe := by
    rw [← List.zipIdx_map_snd, List.map_map, Assoc.keys, List.map_map]
    rfl
  have hinj : ((List.range' 0 pipes.length).map ResourceKind.pipe).Nodup :=
    List.Nodup.map (fun i j h ↦ ResourceKind.pipe.inj h) List.nodup_range'
  rw [mixEntries, Assoc.keys_append, Assoc.keys_append, Assoc.keys_append, hpipes]
  split_ifs <;> simp [Assoc.keys, List.nodup_append, hinj]

theorem nonneg_mixEntries (hw : 0 ≤ w) (hpipes : ∀ c ∈ pipes, 0 ≤ c) (hlocal : 0 ≤ localStore)
    (hbytes : 0 ≤ bytes) (hrate : 0 ≤ bytesPerCycle) (hops : 0 ≤ ops) (hcap : 0 ≤ cap) :
    ∀ e ∈ mixEntries w pipes localStore bytes bytesPerCycle ops cap, 0 ≤ e.2 := by
  intro e he
  simp only [mixEntries, List.mem_append, List.mem_map, List.mem_singleton] at he
  rcases he with ((he | he) | he) | rfl
  · obtain ⟨c, hc, rfl⟩ := he
    exact mul_nonneg hw (hpipes c.1 (List.fst_mem_of_mem_zipIdx hc))
  · split at he
    · cases he
    · obtain rfl := List.mem_singleton.mp he
      exact mul_nonneg hw hlocal
  · split at he
    · cases he
    · obtain rfl := List.mem_singleton.mp he
      exact div_nonneg (mul_nonneg hw hbytes) hrate
  · exact div_nonneg (mul_nonneg hw hops) hcap

/-- The vector that the projection builds from finite costs is a lane. -/
theorem mixDemands_lane (hw : 0 ≤ w) (hpipes : ∀ c ∈ pipes, 0 ≤ c) (hlocal : 0 ≤ localStore)
    (hbytes : 0 ≤ bytes) (hrate : 0 < bytesPerCycle) (hops : 0 ≤ ops) (hcap : 0 < cap) :
    ∃ d : LaneDemands, mixDemands (.fin w) (pipes.map .fin) (.fin localStore) (.fin bytes)
      (.fin bytesPerCycle) (.fin ops) (.fin cap) = d.vector :=
  ⟨⟨_, nodup_keys_mixEntries, nonneg_mixEntries hw hpipes hlocal hbytes hrate.le hops hcap.le⟩,
    mixDemands_fin hrate.ne' hcap.ne'⟩

end Mix

/-! ## Any number of lanes -/

/-- Lanes overlapped in pairs, in any grouping. -/
inductive Overlap where
  | none
  | lane (d : LaneDemands)
  | pair (l r : Overlap)

namespace Overlap

def vector : Overlap → List (ResourceKind × F64)
  | none => []
  | lane d => d.vector
  | pair l r => mergeDemands l.vector r.vector

def lanes : Overlap → List LaneDemands
  | none => []
  | lane d => [d]
  | pair l r => l.lanes ++ r.lanes

theorem exists_vector (t : Overlap) : ∃ d : LaneDemands, t.vector = d.vector ∧
    ∀ kind, d.demand kind = (t.lanes.map fun d ↦ d.demand kind).sum := by
  induction t with
  | none => exact ⟨.empty, rfl, fun kind ↦ rfl⟩
  | lane d => exact ⟨d, rfl, fun kind ↦ by simp [lanes]⟩
  | pair l r ihl ihr =>
      obtain ⟨d, hd, hdemand⟩ := ihl
      obtain ⟨d', hd', hdemand'⟩ := ihr
      refine ⟨d.merge d', ?_, fun kind ↦ ?_⟩
      · rw [vector, hd, hd', LaneDemands.mergeDemands_vector]
      · rw [LaneDemands.demand_merge, hdemand, hdemand', lanes, List.map_append, List.sum_append]

/-- The lanes merged one after another. -/
def chain (lanes : List LaneDemands) : Overlap :=
  lanes.foldl (fun t d ↦ pair t (lane d)) none

theorem vector_chain (lanes : List LaneDemands) :
    (chain lanes).vector = lanes.foldl (fun v d ↦ mergeDemands v d.vector) [] :=
  (List.foldl_hom vector fun _ _ ↦ rfl).symm

theorem lanes_chain (l : List LaneDemands) : (chain l).lanes = l := by
  suffices hfold : ∀ t : Overlap, (l.foldl (fun t d ↦ pair t (lane d)) t).lanes = t.lanes ++ l from
    hfold none
  induction l with
  | nil => exact fun t ↦ (List.append_nil t.lanes).symm
  | cons d l ih =>
      intro t
      rw [List.foldl_cons, ih, lanes, lanes, List.append_assoc, List.singleton_append]

theorem ppmCycles_perm {t t' : Overlap} (h : t.lanes.Perm t'.lanes) :
    (selectBound t.vector).ppmCycles = (selectBound t'.vector).ppmCycles := by
  obtain ⟨d, hd, hdemand⟩ := t.exists_vector
  obtain ⟨d', hd', hdemand'⟩ := t'.exists_vector
  rw [hd, hd']
  apply LaneDemands.ppmCycles_congr
  intro kind
  rw [hdemand, hdemand', (h.map fun d ↦ d.demand kind).sum_eq]

end Overlap

/-! ## The laws -/

structure ContentionLaws : Prop where
  merged : ∀ a b : LaneDemands, ∃ m : LaneDemands, mergeDemands a.vector b.vector = m.vector ∧
    (∀ kind, m.demand kind = a.demand kind + b.demand kind) ∧
    ∀ kind, kind ∈ m.kinds ↔ kind ∈ a.kinds ∨ kind ∈ b.kinds
  comm : ∀ a b : LaneDemands,
    overlappedContended a.vector b.vector = overlappedContended b.vector a.vector
  reordered : ∀ a a' b b' : LaneDemands, a.entries.Perm a'.entries → b.entries.Perm b'.entries →
    overlappedContended a.vector b.vector = overlappedContended a'.vector b'.vector
  emptyLane : ∀ a : LaneDemands,
    overlappedContended a.vector [] = (selectBound a.vector).ppmCycles ∧
      overlappedContended [] a.vector = (selectBound a.vector).ppmCycles
  /-- Any grouping of any order of the lanes gives what the fold in sequence gives. -/
  grouped : ∀ (t : Overlap) (lanes : List LaneDemands), t.lanes.Perm lanes →
    (selectBound t.vector).ppmCycles =
      (selectBound (lanes.foldl (fun v d ↦ mergeDemands v d.vector) [])).ppmCycles
  mono : ∀ a a' b b' : LaneDemands, (∀ kind, a.demand kind ≤ a'.demand kind) →
    (∀ kind, b.demand kind ≤ b'.demand kind) →
    overlappedContended a.vector b.vector ≤ overlappedContended a'.vector b'.vector
  max_le : ∀ a b : LaneDemands,
    (selectBound a.vector).ppmCycles.fmax (selectBound b.vector).ppmCycles ≤
      overlappedContended a.vector b.vector
  le_add : ∀ a b : LaneDemands, overlappedContended a.vector b.vector ≤
    (selectBound a.vector).ppmCycles + (selectBound b.vector).ppmCycles
  disjoint : ∀ a b : LaneDemands, (∀ kind ∈ a.kinds, kind ∉ b.kinds) →
    overlappedContended a.vector b.vector =
      (selectBound a.vector).ppmCycles.fmax (selectBound b.vector).ppmCycles

theorem max_le_overlappedContended (a b : LaneDemands) :
    (selectBound a.vector).ppmCycles.fmax (selectBound b.vector).ppmCycles ≤
      overlappedContended a.vector b.vector := by
  obtain ⟨x, hx, hpeakx⟩ := a.ppmCycles_isPeak
  obtain ⟨y, hy, hpeaky⟩ := b.ppmCycles_isPeak
  obtain ⟨z, hz, hpeakz⟩ := LaneDemands.overlappedContended_isPeak a b
  rw [hx, hy, hz, ExtNum.fmax_fin, ExtNum.fin_le_fin]
  apply max_le
  · exact hpeakx.mono hpeakz fun kind ↦ le_add_of_nonneg_right (b.demand_nonneg kind)
  · exact hpeaky.mono hpeakz fun kind ↦ le_add_of_nonneg_left (a.demand_nonneg kind)

theorem contention_laws : ContentionLaws where
  merged := fun a b ↦ ⟨a.merge b, LaneDemands.mergeDemands_vector a b,
    LaneDemands.demand_merge a b, fun kind ↦ LaneDemands.mem_kinds_merge⟩
  comm := fun a b ↦ LaneDemands.overlappedContended_congr fun kind ↦ add_comm _ _
  reordered := by
    intro a a' b b' ha hb
    apply LaneDemands.overlappedContended_congr
    intro kind
    rw [LaneDemands.demand_perm ha, LaneDemands.demand_perm hb]
  emptyLane := by
    intro a
    refine ⟨rfl, ?_⟩
    have hempty : ([] : List (ResourceKind × F64)) = LaneDemands.empty.vector := rfl
    rw [overlappedContended, hempty, LaneDemands.mergeDemands_vector]
    apply LaneDemands.ppmCycles_congr
    intro kind
    exact (LaneDemands.demand_merge .empty a kind).trans (zero_add _)
  grouped := by
    intro t lanes hlanes
    rw [← Overlap.vector_chain]
    apply Overlap.ppmCycles_perm
    rwa [Overlap.lanes_chain]
  mono := by
    intro a a' b b' ha hb
    obtain ⟨x, hx, hpeakx⟩ := LaneDemands.overlappedContended_isPeak a b
    obtain ⟨y, hy, hpeaky⟩ := LaneDemands.overlappedContended_isPeak a' b'
    rw [hx, hy, ExtNum.fin_le_fin]
    exact hpeakx.mono hpeaky fun kind ↦ add_le_add (ha kind) (hb kind)
  max_le := max_le_overlappedContended
  le_add := by
    intro a b
    obtain ⟨x, hx, hpeakx⟩ := a.ppmCycles_isPeak
    obtain ⟨y, hy, hpeaky⟩ := b.ppmCycles_isPeak
    obtain ⟨z, hz, hpeakz⟩ := LaneDemands.overlappedContended_isPeak a b
    rw [hx, hy, hz, ExtNum.fin_add, ExtNum.fin_le_fin]
    exact hpeakx.le_add hpeaky hpeakz
  disjoint := by
    intro a b hdisj
    obtain ⟨x, hx, hpeakx⟩ := a.ppmCycles_isPeak
    obtain ⟨y, hy, hpeaky⟩ := b.ppmCycles_isPeak
    obtain ⟨z, hz, hpeakz⟩ := LaneDemands.overlappedContended_isPeak a b
    have hle := max_le_overlappedContended a b
    rw [hx, hy, hz, ExtNum.fmax_fin, ExtNum.fin_le_fin] at hle
    rw [hx, hy, hz, ExtNum.fmax_fin]
    exact congrArg _ (le_antisymm (LaneDemands.disjoint_peak hdisj hpeakx hpeaky hpeakz) hle)

end CalxMill
