import CalxMill.Cli.Commands
import CalxMill.Nvidia.ProjMeas

/-!
# What a command reads and writes

The files that a command reads are named by its words, or lie below a
directory that these name.  A command prints as it goes; only a census and a
table are written to a file.
-/

namespace CalxMill.Cli

open Lib Rust Nvidia World

/-! ## The words that name files -/

/-- The flags whose value names a file to read. -/
def pathFlags : List Str := ["table", "priors", "na", "registry"]

/-- The positional words that name files; a spec names one in front of its pattern. -/
def operands (command : Str) (args : Args) : List Str :=
  if command = "check-sass" ∧ args.has "census-match" then
    args.positional.map fun spec ↦ (specParts spec).1
  else args.positional

def inputs : List Str → List Str
  | [] => []
  | command :: rest =>
      match Args.parse (valueFlags command) rest with
      | .error _ => []
      | .ok args => operands command args ++ pathFlags.filterMap args.value

theorem inputs_cons {command : Str} {rest : List Str} {args : Args}
    (h : Args.parse (valueFlags command) rest = .ok args) :
    inputs (command :: rest) = operands command args ++ pathFlags.filterMap args.value := by
  simp only [inputs, h]

theorem mem_inputs_of_flag {command flag path : Str} {rest : List Str} {args : Args}
    (h : Args.parse (valueFlags command) rest = .ok args) (hflag : flag ∈ pathFlags)
    (hpath : args.value flag = some path) : path ∈ inputs (command :: rest) := by
  rw [inputs_cons h]
  exact List.mem_append_right _ (List.mem_filterMap.mpr ⟨flag, hflag, hpath⟩)

theorem mem_inputs_of_positional {command path : Str} {rest : List Str} {args : Args}
    (h : Args.parse (valueFlags command) rest = .ok args)
    (hmatch : command ≠ lit "check-sass" ∨ ¬ args.has "census-match")
    (hpath : path ∈ args.positional) : path ∈ inputs (command :: rest) := by
  rw [inputs_cons h, operands, if_neg (not_and_or.mpr hmatch)]
  exact List.mem_append_left _ hpath

/-! ## Effects -/

/-- A computation on the files at the paths in `P`. -/
def LooksAt (P : Str → Prop) (α : Type) (f : Console → Exec Str α) : Prop :=
  ∃ g : World → Exec Str α, (f = fun c ↦ g c.world) ∧ ∀ w w', FilesOn P w w' → g w = g w'

/-- A computation on the files and the directories at the paths in `P`. -/
def ListsAt (P : Str → Prop) (α : Type) (f : Console → Exec Str α) : Prop :=
  ∃ g : World → Exec Str α, (f = fun c ↦ g c.world) ∧ ∀ w w', AgreeOn P w w' → g w = g w'

/-- Something is printed. -/
def Speaks (f : Console → Console) : Prop :=
  ∃ out err, f = fun c ↦ { c with stdout := c.stdout ++ out, stderr := c.stderr ++ err }

/-- A file is written. -/
def Records (f : Console → Console) : Prop :=
  ∃ path text, f = fun c ↦ c.record path text

/-- The effects of a program that only prints. -/
abbrev Prints {α : Type} (P : Str → Prop) (p : Command α) : Prop := Prog.Uses (LooksAt P) Speaks p

/-- The effects of a program that prints and writes files. -/
abbrev Writes {α : Type} (P : Str → Prop) (p : Command α) : Prop :=
  Prog.Uses (LooksAt P) (fun f ↦ Speaks f ∨ Records f) p

/-- The effects of a program that lists directories as well. -/
abbrev Lists {α : Type} (P : Str → Prop) (p : Command α) : Prop :=
  Prog.Uses (ListsAt P) (fun f ↦ Speaks f ∨ Records f) p

section

variable {α β : Type} {P : Str → Prop}

theorem Prints.writes {p : Command α} (h : Prints P p) : Writes P p :=
  h.mono (fun _ _ hf ↦ hf) fun _ ↦ Or.inl

theorem Writes.lists {p : Command α} (h : Writes P p) : Lists P p := by
  apply h.mono
  · rintro α f ⟨g, hf, hg⟩
    exact ⟨g, hf, fun w w' hw ↦ hg w w' hw.toFilesOn⟩
  · exact fun _ hf ↦ hf

theorem prints_print (text : Str) : Prints P (print text) := by
  apply Prog.Uses.act
  exact ⟨text, [], by simp only [List.append_nil]⟩

theorem prints_println (line : Str) : Prints P (println line) := prints_print _

theorem prints_eprintln (line : Str) : Prints P (eprintln line) := by
  apply Prog.Uses.act
  exact ⟨[], line ++ lit "\n", by simp only [List.append_nil]⟩

theorem prints_fail (msg : Str) : Prints P (fail msg : Command α) := Prog.Uses.fail _

theorem prints_pure (a : α) : Prints P (pure a : Command α) := Prog.Uses.pure a

theorem prints_files {f : World → Exec Str α} (h : ∀ w w', FilesOn P w w' → f w = f w') :
    Prints P (files f) := by
  apply Prog.Uses.look
  exact ⟨f, rfl, h⟩

theorem prints_read {path : Str} (h : P path) : Prints P (read path) :=
  prints_files fun w w' hw ↦ by rw [hw.read path h]

theorem writes_write (path text : Str) : Writes P (write path text) := by
  apply Prog.Uses.bind
  · apply Prints.writes
    apply prints_files
    intro w w' hw
    rw [hw.writable]
  · intro _
    apply Prog.Uses.act
    exact Or.inr ⟨path, text, rfl⟩

/-- What follows a computation may rely on its value. -/
theorem prints_lift_bind {x : Exec Str α} {f : α → Command β}
    (h : ∀ a, x = .ok a → Prints P (f a)) :
    Prints P (lift x >>= f) := Prog.Uses.bind_const h

theorem writes_lift_bind {x : Exec Str α} {f : α → Command β}
    (h : ∀ a, x = .ok a → Writes P (f a)) :
    Writes P (lift x >>= f) := Prog.Uses.bind_const h

theorem lists_lift_bind {x : Exec Str α} {f : α → Command β} (h : ∀ a, x = .ok a → Lists P (f a)) :
    Lists P (lift x >>= f) := Prog.Uses.bind_const h

theorem lists_entries {dir : Str} (h : P dir) :
    Lists P (files fun w ↦ World.report (w.entries dir)) := by
  apply Prog.Uses.look
  exact ⟨fun w ↦ World.report (w.entries dir), rfl, fun w w' hw ↦
    congrArg World.report (hw.entries dir h)⟩

end

/-! ## The commands -/

section

variable {P : Str → Prop}

theorem prints_printOccupancy (args : Args) : Prints P (printOccupancy args) := by
  apply prints_lift_bind
  intro registers _
  apply prints_lift_bind
  intro smem _
  apply prints_lift_bind
  intro blockThreads _
  apply prints_lift_bind
  intro w _
  apply prints_lift_bind
  intro text _
  exact prints_println _

end

theorem projectArgs_paths {args : Args} {a : ProjectArgs} (h : projectArgs args = .ok a) :
    a.censusPath ∈ args.positional ∧ args.value "table" = some a.tablePath := by
  simp only [projectArgs, Exec.bind_eq_ok, Exec.pure_eq_ok] at h
  obtain ⟨censusPath, hcensus, tablePath, htable, -, -, -, -, -, -, -, -, rfl⟩ := h
  exact ⟨Args.mem_of_only hcensus, Exec.ofOption_eq_ok.mp htable⟩

theorem prints_project (rest : List Str) :
    Prints (Reaches (inputs (lit "project" :: rest))) (runProject rest) := by
  apply prints_lift_bind
  intro args hargs
  apply prints_lift_bind
  intro a ha
  obtain ⟨hcensus, htable⟩ := projectArgs_paths ha
  have hcensus' := mem_inputs_of_positional hargs (.inl (by decide)) hcensus
  have htable' := mem_inputs_of_flag hargs (by decide) htable
  apply Prog.Uses.bind (prints_read (reaches_of_mem htable'))
  intro table
  apply prints_lift_bind
  intro rates _
  apply Prog.Uses.bind (prints_read (reaches_of_mem hcensus'))
  intro text
  apply prints_lift_bind
  intro census _
  split
  · exact Prog.Uses.bind (prints_eprintln _) fun _ ↦ prints_pure 1
  · apply prints_lift_bind
    intro r _
    apply prints_lift_bind
    intro text _
    apply Prog.Uses.bind (prints_print _)
    intro _
    split
    · exact Prog.Uses.bind (prints_printOccupancy args) fun _ ↦ prints_pure 0
    · exact prints_pure 0

theorem prints_warnDrops {P : Str → Prop} (drops : ℕ) : Prints P (warnDrops drops) := by
  rw [warnDrops]
  split
  · exact prints_eprintln _
  · exact prints_pure ()

theorem writes_census (rest : List Str) :
    Writes (Reaches (inputs (lit "census" :: rest))) (runCensus rest) := by
  apply writes_lift_bind
  intro args hargs
  apply writes_lift_bind
  intro path hpath
  have hpath' := mem_inputs_of_positional hargs (.inl (by decide)) (Args.mem_of_only hpath)
  apply writes_lift_bind
  intro kernel _
  apply Prog.Uses.bind
  · exact (prints_files fun w w' hw ↦ hw.sassText (reaches_of_mem hpath')).writes
  intro sass
  apply writes_lift_bind
  intro drops _
  apply Prog.Uses.bind (prints_warnDrops drops).writes
  intro _
  apply writes_lift_bind
  intro counts _
  split
  · exact Prints.writes (Prog.Uses.bind (prints_eprintln _) fun _ ↦ prints_pure 1)
  · apply writes_lift_bind
    intro csv _
    split
    · exact Prog.Uses.bind (writes_write _ _) fun _ ↦ (prints_pure 0).writes
    · exact Prints.writes (Prog.Uses.bind (prints_print _) fun _ ↦ prints_pure 0)

theorem shares_congr {w w' : World} {spec : Str}
    (h : w.sassText (specParts spec).1 = w'.sassText (specParts spec).1) :
    shares w spec = shares w' spec := by
  rw [shares, shares, h]

theorem censusMatch_congr {w w' : World} {a b : Str} (tol : F64)
    (ha : w.sassText (specParts a).1 = w'.sassText (specParts a).1)
    (hb : w.sassText (specParts b).1 = w'.sassText (specParts b).1) :
    censusMatch w a b tol = censusMatch w' a b tol := by
  simp only [censusMatch, withShares, shares_congr ha, shares_congr hb]

theorem prints_censusMatch {rest : List Str} {args : Args}
    (hargs : Args.parse (valueFlags "check-sass") rest = .ok args)
    (hmatch : args.has "census-match") :
    Prints (Reaches (inputs (lit "check-sass" :: rest))) (runCensusMatch args) := by
  rw [runCensusMatch]
  split
  · next a b hwords =>
      have hspec : ∀ spec ∈ [a, b], (specParts spec).1 ∈ inputs (lit "check-sass" :: rest) := by
        intro spec hspec
        rw [inputs_cons hargs, operands, if_pos ⟨rfl, hmatch⟩, hwords]
        exact List.mem_append_left _ (List.mem_map_of_mem hspec)
      apply prints_lift_bind
      intro tol _
      apply Prog.Uses.bind
      · apply prints_files
        intro w w' hw
        apply censusMatch_congr tol
        · exact hw.sassText (reaches_of_mem (hspec a (by simp)))
        · exact hw.sassText (reaches_of_mem (hspec b (by simp)))
      intro r
      exact Prog.Uses.bind (prints_print _) fun _ ↦ prints_pure _
  · exact prints_fail _

theorem prints_checkSass (rest : List Str) :
    Prints (Reaches (inputs (lit "check-sass" :: rest))) (runCheckSass rest) := by
  apply prints_lift_bind
  intro args hargs
  split
  · next hmatch => exact prints_censusMatch hargs hmatch
  · next hmatch =>
      apply prints_lift_bind
      intro path hpath
      have hpath' := mem_inputs_of_positional hargs (.inr hmatch) (Args.mem_of_only hpath)
      apply prints_lift_bind
      intro opts _
      apply prints_lift_bind
      intro name _
      apply Prog.Uses.bind
      · exact prints_files fun w w' hw ↦ hw.sassText (reaches_of_mem hpath')
      intro sass
      apply prints_lift_bind
      intro r _
      exact Prog.Uses.bind (prints_print _) fun _ ↦ prints_pure _

theorem prints_readResults {P : Str → Prop} {dir : Str} (h : ∀ name, P (joinPath dir name))
    (entries : List (Except Str Str)) : Prints P (readResults dir entries) := by
  apply Prog.Uses.foldlM
  intro results entry _
  apply prints_lift_bind
  intro name _
  split
  · exact Prog.Uses.bind (prints_read (h name)) fun _ ↦ prints_pure _
  · exact prints_pure _

theorem lists_mkTable (rest : List Str) :
    Lists (Reaches (inputs (lit "mk-table" :: rest))) (runMkTable rest) := by
  apply lists_lift_bind
  intro args hargs
  apply lists_lift_bind
  intro dir hdir
  have hdir' := mem_inputs_of_positional hargs (.inl (by decide)) (Args.mem_of_only hdir)
  have hreach := reaches_of_mem hdir'
  apply lists_lift_bind
  intro priorsPath hpriors
  have hpriors' := mem_inputs_of_flag hargs (by decide) (Exec.ofOption_eq_ok.mp hpriors)
  apply Prog.Uses.bind (prints_read (reaches_of_mem hpriors')).writes.lists
  intro priors
  apply Prog.Uses.bind
  · apply Writes.lists
    apply Prints.writes
    cases hna : args.value "na" with
    | none => exact prints_pure none
    | some na =>
        have hna' := mem_inputs_of_flag hargs (by decide) hna
        exact Prog.Uses.bind (prints_read (reaches_of_mem hna')) fun _ ↦ prints_pure _
  intro na
  apply lists_lift_bind
  intro out _
  apply Prog.Uses.bind (lists_entries hreach)
  intro entries
  apply Prog.Uses.bind
    (prints_readResults (fun name ↦ hreach.joinPath name) entries).writes.lists
  intro results
  apply lists_lift_bind
  intro r _
  apply Prog.Uses.bind (writes_write _ _).lists
  intro _
  exact (Prints.writes (Prog.Uses.bind (prints_println _) fun _ ↦ prints_pure 0)).lists

theorem prints_verifyProjection (rest : List Str) :
    Prints (Reaches (inputs (lit "verify-projection" :: rest))) (runVerifyProjection rest) := by
  apply prints_lift_bind
  intro args hargs
  apply prints_lift_bind
  intro root hroot
  have hroot' := mem_inputs_of_positional hargs (.inl (by decide)) (Args.mem_of_only hroot)
  apply Prog.Uses.bind
  · exact prints_files fun w w' hw ↦ verifyProjection_agree hw hroot'
  intro r
  exact Prog.Uses.bind (prints_print _) fun _ ↦ prints_pure _

theorem prints_printLaunch {P : Str → Prop} (l : Launch) (k : KernelUsage) :
    Prints P (printLaunch l k) := by
  rw [printLaunch]
  split
  · exact prints_pure true
  · apply prints_lift_bind
    intro w _
    apply prints_lift_bind
    intro text _
    apply Prog.Uses.bind (prints_print _)
    intro _
    split
    · exact prints_pure true
    · apply prints_lift_bind
      intro b _
      exact Prog.Uses.bind (prints_print _) fun _ ↦ prints_pure _

theorem prints_printUsage {P : Str → Prop} (l : Launch) (k : KernelUsage) :
    Prints P (printUsage l k) := by
  apply Prog.Uses.bind (prints_print _)
  intro _
  apply Prog.Uses.bind (prints_printLaunch l k)
  intro fits
  exact Prog.Uses.bind (prints_println _) fun _ ↦ prints_pure _

theorem prints_ptxas (rest : List Str) :
    Prints (Reaches (inputs (lit "ptxas" :: rest))) (runPtxas rest) := by
  apply prints_lift_bind
  intro args hargs
  apply prints_lift_bind
  intro path hpath
  have hpath' := mem_inputs_of_positional hargs (.inl (by decide)) (Args.mem_of_only hpath)
  apply Prog.Uses.bind (prints_read (reaches_of_mem hpath'))
  intro text
  dsimp only
  split
  · exact Prog.Uses.bind (prints_eprintln _) fun _ ↦ prints_pure 1
  · apply prints_lift_bind
    intro l _
    apply Prog.Uses.bind (Prog.Uses.mapM fun k _ ↦ prints_printUsage l k)
    intro fits
    exact prints_pure _

theorem prints_ncu (rest : List Str) :
    Prints (Reaches (inputs (lit "ncu" :: rest))) (runNcu rest) := by
  apply prints_lift_bind
  intro args hargs
  apply prints_lift_bind
  intro path hpath
  have hpath' := mem_inputs_of_positional hargs (.inl (by decide)) (Args.mem_of_only hpath)
  apply Prog.Uses.bind (prints_read (reaches_of_mem hpath'))
  intro text
  apply prints_lift_bind
  intro rows _
  apply Prog.Uses.bind (Prog.Uses.forM fun r _ ↦ prints_println _)
  intro _
  apply Prog.Uses.bind (Prog.Uses.forM fun a _ ↦ prints_println _)
  intro _
  exact prints_pure 0

theorem prints_latency {P : Str → Prop} (rest : List Str) : Prints P (runLatency rest) := by
  apply prints_lift_bind
  intro args _
  apply prints_lift_bind
  intro t _
  apply Prog.Uses.bind (prints_print _)
  intro _
  apply prints_lift_bind
  intro budget _
  split
  · apply prints_lift_bind
    intro base _
    apply prints_lift_bind
    intro per _
    apply prints_lift_bind
    intro spend _
    apply Prog.Uses.bind (prints_print _)
    intro _
    split
    · exact Prog.Uses.bind (prints_println _) fun _ ↦ prints_pure 0
    · exact prints_pure 0
  · exact prints_pure 0

theorem prints_compose {P : Str → Prop} (rest : List Str) : Prints P (runCompose rest) := by
  apply prints_lift_bind
  intro args _
  apply prints_lift_bind
  intro mem _
  apply prints_lift_bind
  intro cmp _
  apply Prog.Uses.bind (prints_print _)
  intro _
  apply prints_lift_bind
  intro budget _
  split
  · apply prints_lift_bind
    intro t _
    apply prints_lift_bind
    intro base _
    apply prints_lift_bind
    intro per _
    apply prints_lift_bind
    intro spend _
    exact Prog.Uses.bind (prints_println _) fun _ ↦ prints_pure 0
  · exact prints_pure 0

/-- The arbiter reads the registry file alone. -/
theorem gateRun_congr {fs fs' : Gate.FileSystem} {rest : List Str}
    (h : ∀ args, Args.parse Gate.gateFlags rest = .ok args →
      ∀ file, args.value "registry" = some file → fs file = fs' file) :
    Gate.run fs rest = Gate.run fs' rest := by
  rw [Gate.run, Gate.run]
  cases hargs : Args.parse Gate.gateFlags rest with
  | error e => rfl
  | ok args =>
      have hresolve : Gate.resolveRegistry fs args = Gate.resolveRegistry fs' args := by
        rw [Gate.resolveRegistry, Gate.resolveRegistry]
        split
        · rfl
        · split
          · next file _ _ hfile _ _ =>
              rw [Gate.readToString, Gate.readToString, h args hargs file hfile]
          · rfl
      have hadjudicate : Gate.adjudicate fs args = Gate.adjudicate fs' args := by
        rw [Gate.adjudicate, Gate.adjudicate, Gate.resolveGateAnchor, Gate.resolveGateAnchor,
          hresolve]
      simp only [bind, Except.bind, hadjudicate]

theorem prints_gate (rest : List Str) :
    Prints (Reaches (inputs (lit "gate" :: rest))) (runGate rest) := by
  apply Prog.Uses.bind
  · apply prints_files
    intro w w' hw
    apply gateRun_congr
    intro args hargs file hfile
    have hargs' : Args.parse (valueFlags "gate") rest = .ok args := hargs
    exact hw.read file (reaches_of_mem (mem_inputs_of_flag hargs' (by decide) hfile))
  intro out
  apply Prog.Uses.bind (Prog.Uses.forM fun line _ ↦ prints_println line)
  intro _
  apply Prog.Uses.bind (Prog.Uses.forM fun line _ ↦ prints_eprintln line)
  intro _
  exact prints_pure _

theorem prints_printSummary {P : Str → Prop} (path : Str) (recs : List TeleRecord) :
    Prints P (printSummary path recs) := by
  apply prints_lift_bind
  intro derived _
  apply prints_lift_bind
  intro ctx _
  apply prints_lift_bind
  intro totals _
  apply Prog.Uses.bind (prints_print _)
  intro _
  apply Prog.Uses.bind (prints_print _)
  intro _
  exact prints_print _

theorem prints_warnSkipped {P : Str → Prop} (skipped : ℕ) : Prints P (warnSkipped skipped) := by
  rw [warnSkipped]
  split
  · exact prints_eprintln _
  · exact prints_pure ()

theorem prints_reportRows {P : Str → Prop} (args : Args) (path : Str) (recs : List TeleRecord)
    (skipped : ℕ) : Prints P (reportRows args path recs skipped) := by
  apply Prog.Uses.bind (prints_warnSkipped skipped)
  intro _
  split
  · exact prints_fail _
  · exact Prog.Uses.bind (prints_printSummary path recs) fun _ ↦ prints_pure _

theorem prints_telemetry (rest : List Str) :
    Prints (Reaches (inputs (lit "telemetry" :: rest))) (runTelemetry rest) := by
  apply prints_lift_bind
  intro args hargs
  apply prints_lift_bind
  intro path hpath
  have hmem := List.mem_of_mem_head? (Exec.ofOption_eq_ok.mp hpath)
  have hpath' := mem_inputs_of_positional hargs (.inl (by decide)) hmem
  apply Prog.Uses.bind (prints_read (reaches_of_mem hpath'))
  intro text
  exact prints_reportRows args path _ _

/-- Every command but the two that write a table. -/
theorem prints_runCommand {command : Str} (hcensus : command ≠ lit "census")
    (htable : command ≠ lit "mk-table") (rest : List Str) :
    Prints (Reaches (inputs (command :: rest))) (runCommand command rest) := by
  rw [runCommand]
  split
  next h => exact h ▸ prints_project rest
  split
  next h => exact h ▸ prints_checkSass rest
  split
  next h => exact h ▸ prints_verifyProjection rest
  split
  next h => exact h ▸ prints_ptxas rest
  split
  next h => exact h ▸ prints_ncu rest
  split
  next => exact prints_latency rest
  split
  next => exact prints_compose rest
  split
  next h => exact h ▸ prints_gate rest
  split
  next h => exact h ▸ prints_telemetry rest
  split
  next => exact Prog.Uses.bind (prints_println _) fun _ ↦ prints_pure 0
  next => exact prints_fail _

/-- Every command but the one that lists a directory. -/
theorem writes_run {argv : List Str} (h : argv.head? ≠ some (lit "mk-table")) :
    Writes (Reaches (inputs argv)) (run argv) := by
  cases argv with
  | nil => exact Prints.writes (Prog.Uses.bind (prints_eprintln _) fun _ ↦ prints_pure 2)
  | cons command rest =>
      by_cases hcensus : command = lit "census"
      · rw [hcensus]
        exact writes_census rest
      · have htable : command ≠ lit "mk-table" := fun htable ↦ h (congrArg some htable)
        exact (prints_runCommand hcensus htable rest).writes

theorem lists_run (argv : List Str) : Lists (Reaches (inputs argv)) (run argv) := by
  by_cases htable : argv.head? = some (lit "mk-table")
  · obtain ⟨rest, rfl⟩ := List.head?_eq_some_iff.mp htable
    exact lists_mkTable rest
  · exact (writes_run htable).lists

end CalxMill.Cli
