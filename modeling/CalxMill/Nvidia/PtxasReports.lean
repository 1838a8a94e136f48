import CalxMill.Nvidia.PtxasLines

/-!
# Reports and their kernels

A report prints, for every kernel, its entry line, its properties block and
its `Used` line, with notes and the blocks of other functions in between.  The
parser gives a kernel the properties of the last block in its stretch of the
report, whichever function that block names.
-/

namespace CalxMill.Nvidia

open Rust

/-! ## Sections -/

/-- An info line that is none of the three lines the parser looks for. -/
structure PtxasNote where
  line : Str
  rest : Str
  info : infoText line = some rest
  notEntry : ¬ lit "Compiling entry function '" <+: rest
  notHeader : ¬ lit "Function properties for " <+: rest
  notUsed : ¬ lit "Used " <+: rest

inductive PtxasExtra where
  | note (n : PtxasNote)
  | block (function : Str) (q : Properties)

def propertiesBlock (function : Str) (q : Properties) : List Str :=
  [infoLine (headerBody function), q.line]

namespace PtxasExtra

def lines : PtxasExtra → List Str
  | note n => [n.line]
  | block function q => propertiesBlock function q

def block? : PtxasExtra → Option (Str × Properties)
  | note _ => none
  | block function q => some (function, q)

end PtxasExtra

/-- The printed value of a figure: one clause, or none for a zero. -/
def PrintedOnce (printed : List UInt32) (n : UInt32) : Prop := printed = [n] ∨ (printed = [] ∧ n = 0)

def UsedClause.figure? (f : UsedFigure) : UsedClause → Option UInt32
  | figure g n => if g = f then some n else none
  | cmem _ _ => none

def UsedClause.cmem? : UsedClause → Option (UInt32 × UInt32)
  | figure _ _ => none
  | cmem bank n => some (bank, n)

/-- One kernel's stretch of the report. -/
structure PtxasSection where
  kernel : KernelUsage
  used : List UsedClause
  beforeBlock : List PtxasExtra
  beforeUsed : List PtxasExtra
  afterUsed : List PtxasExtra
  name_quoteFree : '\'' ∉ kernel.name
  arch_quoteFree : '\'' ∉ kernel.arch
  figures : ∀ f, PrintedOnce (used.filterMap (·.figure? f)) (kernel.figure f)
  cmem : used.filterMap (·.cmem?) = kernel.cmemBytes

namespace PtxasSection

def lines (s : PtxasSection) : List Str :=
  infoLine (entryBody s.kernel.name s.kernel.arch) :: s.beforeBlock.flatMap PtxasExtra.lines ++
    (propertiesBlock s.kernel.name s.kernel.properties ++ s.beforeUsed.flatMap PtxasExtra.lines) ++
    infoLine (usedBody s.used) :: s.afterUsed.flatMap PtxasExtra.lines

/-- The properties blocks behind the kernel's entry line, in order. -/
def blocks (s : PtxasSection) : List (Str × Properties) :=
  s.beforeBlock.filterMap PtxasExtra.block? ++ (s.kernel.name, s.kernel.properties) ::
    s.beforeUsed.filterMap PtxasExtra.block? ++ s.afterUsed.filterMap PtxasExtra.block?

/-- The figures of the last block whose header keeps a function name. -/
def lastProperties (s : PtxasSection) : Properties :=
  ((s.blocks.filter fun b ↦ PtxasParser.named b.1).getLast?.map (·.2)).getD ⟨0, 0, 0⟩

end PtxasSection

structure PtxasReport where
  leading : List PtxasExtra
  sections : List PtxasSection

def PtxasReport.lines (r : PtxasReport) : List Str :=
  r.leading.flatMap PtxasExtra.lines ++ r.sections.flatMap PtxasSection.lines

/-! ## The run over a report -/

namespace PtxasParser

variable (p : PtxasParser)

theorem step_note (n : PtxasNote) : p.step n.line = ⟨p.out, false⟩ := by
  rw [step, n.info]
  dsimp only
  rw [info, dropPrefix?_eq_none.mpr n.notEntry]
  dsimp only
  rw [if_neg n.notHeader, dropPrefix?_eq_none.mpr n.notUsed]

end PtxasParser

open PtxasParser (named step_entry step_header step_line step_used step_note)

/-- What a properties block leaves on the last kernel, whatever it names. -/
def KernelUsage.withBlock (k : KernelUsage) (b : Str × Properties) : KernelUsage :=
  if named b.1 then k.withProperties b.2 else k

theorem foldl_propertiesBlock (p : PtxasParser) (function : Str) (q : Properties) :
    (propertiesBlock function q).foldl PtxasParser.step p =
      ⟨p.out.modifyLast fun k ↦ k.withBlock (function, q), false⟩ := by
  rw [propertiesBlock, List.foldl_cons, List.foldl_cons, List.foldl_nil, step_header, step_line]
  unfold KernelUsage.withBlock
  cases named function with
  | false => simp [modifyLast_id]
  | true => simp

theorem foldl_extras (extras : List PtxasExtra) (out : List KernelUsage) :
    (extras.flatMap PtxasExtra.lines).foldl PtxasParser.step ⟨out, false⟩ =
      ⟨out.modifyLast fun k ↦ (extras.filterMap PtxasExtra.block?).foldl KernelUsage.withBlock k,
        false⟩ := by
  induction extras generalizing out with
  | nil => exact congrArg (PtxasParser.mk · false) (modifyLast_id out).symm
  | cons e extras ih =>
      rw [List.flatMap_cons, List.foldl_append]
      cases e with
      | note n =>
          rw [PtxasExtra.lines, List.foldl_cons, List.foldl_nil, step_note, ih]
          rfl
      | block function q =>
          rw [PtxasExtra.lines, foldl_propertiesBlock, ih, modifyLast_modifyLast]
          rfl

/-- Blocks in sequence leave the figures of the last one that is read. -/
theorem foldl_withBlock (bs : List (Str × Properties)) (k : KernelUsage) :
    bs.foldl KernelUsage.withBlock k =
      k.withProperties (((bs.filter fun b ↦ named b.1).getLast?.map (·.2)).getD k.properties) := by
  induction bs using List.reverseRecOn with
  | nil => rfl
  | append_singleton bs b ih =>
      rw [List.foldl_append, List.foldl_cons, List.foldl_nil, ih, KernelUsage.withBlock]
      by_cases hnamed : named b.1
      · simp [hnamed]
      · simp [hnamed]

/-! ### The figures of the `Used` line -/

theorem figure_foldl_withClause (f : UsedFigure) (cs : List UsedClause) (k : KernelUsage) :
    (cs.foldl KernelUsage.withClause k).figure f =
      ((cs.filterMap (·.figure? f)).getLast?).getD (k.figure f) := by
  induction cs using List.reverseRecOn with
  | nil => rfl
  | append_singleton cs c ih =>
      rw [List.foldl_append, List.foldl_cons, List.foldl_nil, List.filterMap_append]
      rcases c with ⟨g, n⟩ | ⟨bank, n⟩
      · by_cases hg : g = f
        · subst hg
          cases g <;> simp [UsedClause.figure?, KernelUsage.withClause, KernelUsage.figure]
        · have hfigure : ((cs.foldl KernelUsage.withClause k).withClause (.figure g n)).figure f =
              (cs.foldl KernelUsage.withClause k).figure f := by
            cases g <;> cases f <;> first | rfl | exact absurd rfl hg
          simp [UsedClause.figure?, hg, hfigure, ih]
      · have hfigure : ((cs.foldl KernelUsage.withClause k).withClause (.cmem bank n)).figure f =
            (cs.foldl KernelUsage.withClause k).figure f := by cases f <;> rfl
        simp [UsedClause.figure?, hfigure, ih]

theorem cmemBytes_foldl_withClause (cs : List UsedClause) (k : KernelUsage) :
    (cs.foldl KernelUsage.withClause k).cmemBytes =
      k.cmemBytes ++ cs.filterMap (·.cmem?) := by
  induction cs generalizing k with
  | nil => exact (List.append_nil _).symm
  | cons c cs ih =>
      rw [List.foldl_cons, ih]
      rcases c with ⟨_ | _ | _ | _, n⟩ | ⟨bank, n⟩ <;>
        simp [KernelUsage.withClause, UsedClause.cmem?]

theorem frame_foldl_withClause (cs : List UsedClause) (k : KernelUsage) :
    (cs.foldl KernelUsage.withClause k).name = k.name ∧
      (cs.foldl KernelUsage.withClause k).arch = k.arch ∧
      (cs.foldl KernelUsage.withClause k).properties = k.properties := by
  induction cs generalizing k with
  | nil => exact ⟨rfl, rfl, rfl⟩
  | cons c cs ih =>
      rw [List.foldl_cons]
      rcases c with ⟨_ | _ | _ | _, n⟩ | ⟨bank, n⟩ <;> exact ih _

theorem PrintedOnce.getD_eq {printed : List UInt32} {n : UInt32} (h : PrintedOnce printed n) :
    printed.getLast?.getD 0 = n := by
  rcases h with rfl | ⟨rfl, rfl⟩ <;> rfl

namespace PtxasSection

theorem foldl_used (s : PtxasSection) :
    s.used.foldl KernelUsage.withClause (.opened s.kernel.name s.kernel.arch) =
      s.kernel.withProperties ⟨0, 0, 0⟩ := by
  obtain ⟨hname, harch, hprops⟩ :=
    frame_foldl_withClause s.used (.opened s.kernel.name s.kernel.arch)
  have hcmem := cmemBytes_foldl_withClause s.used (.opened s.kernel.name s.kernel.arch)
  rw [s.cmem] at hcmem
  refine KernelUsage.ext_figures hname harch hcmem hprops fun f ↦ ?_
  have hfigure : (s.kernel.withProperties ⟨0, 0, 0⟩).figure f = s.kernel.figure f := by
    cases f <;> rfl
  rw [figure_foldl_withClause, hfigure, ← (s.figures f).getD_eq]
  cases f <;> rfl

/-- The section leaves its kernel with the figures of the last block read. -/
theorem foldl_lines (s : PtxasSection) (out : List KernelUsage) :
    s.lines.foldl PtxasParser.step ⟨out, false⟩ =
      ⟨out ++ [s.kernel.withProperties s.lastProperties], false⟩ := by
  let before := s.beforeBlock.filterMap PtxasExtra.block? ++
    (s.kernel.name, s.kernel.properties) :: s.beforeUsed.filterMap PtxasExtra.block?
  have hused : s.used.foldl KernelUsage.withClause
      (before.foldl KernelUsage.withBlock (.opened s.kernel.name s.kernel.arch)) =
        before.foldl KernelUsage.withBlock (s.kernel.withProperties ⟨0, 0, 0⟩) := by
    rw [foldl_withBlock, KernelUsage.foldl_withClause_withProperties, s.foldl_used,
      foldl_withBlock]
    rfl
  have hall : s.blocks.foldl KernelUsage.withBlock (s.kernel.withProperties ⟨0, 0, 0⟩) =
      s.kernel.withProperties s.lastProperties := foldl_withBlock s.blocks _
  rw [lines, List.foldl_append, List.foldl_append, List.foldl_append, List.foldl_cons,
    List.foldl_cons, step_entry _ s.name_quoteFree s.arch_quoteFree, foldl_extras,
    foldl_propertiesBlock, foldl_extras, step_used, foldl_extras]
  simp only [List.modifyLast_concat]
  rw [← hall, blocks, List.foldl_append, ← hused, List.foldl_append, List.foldl_cons]

end PtxasSection

/-- Every section leaves one kernel. -/
theorem foldl_sections (sections : List PtxasSection) (out : List KernelUsage) :
    (sections.flatMap PtxasSection.lines).foldl PtxasParser.step ⟨out, false⟩ =
      ⟨out ++ sections.map fun s ↦ s.kernel.withProperties s.lastProperties, false⟩ := by
  induction sections generalizing out with
  | nil => rw [List.flatMap_nil, List.foldl_nil, List.map_nil, List.append_nil]
  | cons s sections ih =>
      rw [List.flatMap_cons, List.foldl_append, s.foldl_lines, ih, List.append_assoc,
        List.singleton_append, List.map_cons]

theorem parsePtxasV_eq (r : PtxasReport) {text : Str} (h : lines text = r.lines) :
    parsePtxasV text = r.sections.map fun s ↦ s.kernel.withProperties s.lastProperties := by
  rw [parsePtxasV, h, PtxasReport.lines, List.foldl_append, PtxasParser.start, foldl_extras]
  exact congrArg PtxasParser.out (foldl_sections r.sections [])

/-- The parser reports every kernel with its own figures exactly when, in each
kernel's stretch, the last block carries them. -/
theorem parsePtxasV_iff (r : PtxasReport) {text : Str} (h : lines text = r.lines) :
    parsePtxasV text = r.sections.map PtxasSection.kernel ↔
      ∀ s ∈ r.sections, s.lastProperties = s.kernel.properties := by
  rw [parsePtxasV_eq r h, List.map_inj_left]
  refine forall₂_congr fun s _ ↦ ⟨fun heq ↦ ?_, fun heq ↦ ?_⟩
  · rw [← heq, KernelUsage.properties_withProperties]
  · rw [heq, KernelUsage.withProperties_properties]

def twoKernelText : Str :=
  "ptxas info    : 0 bytes gmem\n" ++
  lit "ptxas info    : Compiling entry function '_Z11tile_reducePKfPf' for 'sm_75'\n" ++
  lit "ptxas info    : Function properties for _Z11tile_reducePKfPf\n" ++
  lit "    0 bytes stack frame, 0 bytes spill stores, 0 bytes spill loads\n" ++
  lit "ptxas info    : Used 29 registers, used 1 barriers, 8448 bytes smem, 368 bytes cmem[0]\n" ++
  lit "ptxas info    : Compiling entry function 'axpy' for 'sm_75'\n" ++
  lit "ptxas info    : Function properties for axpy\n" ++
  lit "    0 bytes stack frame, 0 bytes spill stores, 0 bytes spill loads\n" ++
  lit "ptxas info    : Used 10 registers, used 0 barriers, 380 bytes cmem[0]\n"

def twoKernelReport : PtxasReport where
  leading := [.note ⟨infoLine "0 bytes gmem", "0 bytes gmem", by decide +kernel, by decide,
    by decide, by decide⟩]
  sections := [
    { kernel := ⟨"_Z11tile_reducePKfPf", "sm_75", 29, 1, 8448, [(0, 368)], 0, 0, 0, 0⟩
      used := [.figure .registers 29, .figure .barriers 1, .figure .smem 8448, .cmem 0 368]
      beforeBlock := []
      beforeUsed := []
      afterUsed := []
      name_quoteFree := by decide
      arch_quoteFree := by decide
      figures := by rintro (_ | _ | _ | _) <;> simp [PrintedOnce, UsedClause.figure?,
        KernelUsage.figure]
      cmem := rfl },
    { kernel := ⟨"axpy", "sm_75", 10, 0, 0, [(0, 380)], 0, 0, 0, 0⟩
      used := [.figure .registers 10, .figure .barriers 0, .cmem 0 380]
      beforeBlock := []
      beforeUsed := []
      afterUsed := []
      name_quoteFree := by decide
      arch_quoteFree := by decide
      figures := by rintro (_ | _ | _ | _) <;> simp [PrintedOnce, UsedClause.figure?,
        KernelUsage.figure]
      cmem := rfl }]

theorem parsePtxasV_iff_twoKernels : parsePtxasV twoKernelText =
    [⟨"_Z11tile_reducePKfPf", "sm_75", 29, 1, 8448, [(0, 368)], 0, 0, 0, 0⟩,
      ⟨"axpy", "sm_75", 10, 0, 0, [(0, 380)], 0, 0, 0, 0⟩] := by
  apply (parsePtxasV_iff twoKernelReport (by decide +kernel)).mpr
  intro s hs
  rcases List.mem_cons.mp hs with rfl | hs
  · rfl
  · obtain rfl := List.mem_singleton.mp hs
    rfl

def calleeText : Str :=
  "ptxas info    : Compiling entry function 'axpy' for 'sm_75'\n" ++
  lit "ptxas info    : Function properties for axpy\n" ++
  lit "    0 bytes stack frame, 0 bytes spill stores, 0 bytes spill loads\n" ++
  lit "ptxas info    : Used 10 registers\n" ++
  lit "ptxas info    : Function properties for helper\n" ++
  lit "    16 bytes stack frame, 8 bytes spill stores, 8 bytes spill loads\n"

def calleeSection : PtxasSection where
  kernel := ⟨"axpy", "sm_75", 10, 0, 0, [], 0, 0, 0, 0⟩
  used := [.figure .registers 10]
  beforeBlock := []
  beforeUsed := []
  afterUsed := [.block "helper" ⟨16, 8, 8⟩]
  name_quoteFree := by decide
  arch_quoteFree := by decide
  figures := by rintro (_ | _ | _ | _) <;> simp [PrintedOnce, UsedClause.figure?,
    KernelUsage.figure]
  cmem := rfl

/-- The kernel is reported with the stack frame and the spills of the device
function that it calls. -/
theorem not_parsePtxasV : lines calleeText = (PtxasReport.mk [] [calleeSection]).lines ∧
    parsePtxasV calleeText = [⟨"axpy", "sm_75", 10, 0, 0, [], 0, 16, 8, 8⟩] ∧
    parsePtxasV calleeText ≠ [calleeSection.kernel] := by
  decide +kernel

end CalxMill.Nvidia
