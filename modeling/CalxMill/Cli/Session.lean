import CalxMill.Cli.Footprint
import CalxMill.Lib.Assoc

/-!
# Sessions

A session runs commands one after the other, each on the files that the ones
before it left.  A command that fails leaves the files alone, and one that
succeeds writes at most the file that it was told to.  So commands that do not
write each other's files may run in any order.
-/

namespace CalxMill.Cli

open Lib Rust Nvidia World

/-- The file that a command is told to write. -/
def outFile : List Str → Option Str
  | [] => none
  | command :: rest =>
      match Args.parse (valueFlags command) rest with
      | .error _ => none
      | .ok args =>
          if command = "census" then (args.value "o").filter (· ≠ lit "-")
          else if command = "mk-table" then args.value "o"
          else none

/-! ## The files of one run -/

/-- Nothing was written. -/
structure Quiet (c c' : Console) : Prop where
  world : c'.world = c.world
  written : c'.written = c.written

/-- One file was written. -/
structure Wrote (path text : Str) (c c' : Console) : Prop where
  world : c'.world = c.world.write path text
  written : c'.written = c.written ++ [(path, text)]

/-- A run that exits with zero has written the file `out`, when there is one;
every other run has written nothing. -/
def FilesTo (out : Option Str) (p : Command ℕ) : Prop :=
  ∀ c, (Quiet c (p.exec c).2 ∧ ∀ code, (p.exec c).1 = .ok code → code % 256 = 0 → out = none) ∨
    ∃ path text, out = some path ∧ c.world.writable path = .ok () ∧ (p.exec c).1 = .ok 0 ∧
      Wrote path text c (p.exec c).2

theorem Prints.quiet {α : Type} {P : Str → Prop} {p : Command α} (h : Prints P p) (c : Console) :
    Quiet c (p.exec c).2 := by
  refine Prog.Uses.keeps (fun c ↦ ⟨rfl, rfl⟩) (fun a b c hab hbc ↦ ?_) (fun f hf c ↦ ?_) h c
  · exact ⟨hbc.world.trans hab.world, hbc.written.trans hab.written⟩
  · obtain ⟨out, err, rfl⟩ := hf
    exact ⟨rfl, rfl⟩

namespace FilesTo

variable {α : Type} {P : Str → Prop} {out : Option Str}

theorem of_prints {p : Command ℕ} (h : Prints P p) : FilesTo none p :=
  fun c ↦ .inl ⟨h.quiet c, fun _ _ _ ↦ rfl⟩

theorem exit {p : Command Unit} (h : Prints P p) (code : ℕ) (hcode : code % 256 = 0 → out = none) :
    FilesTo out (p >>= fun _ ↦ pure code) := by
  intro c
  left
  have hquiet := h.quiet c
  rcases hrun : p.exec c with ⟨e | _, c'⟩
  · rw [hrun] at hquiet
    rw [Prog.exec_bind_error hrun]
    exact ⟨hquiet, nofun⟩
  · rw [hrun] at hquiet
    rw [Prog.exec_bind_ok hrun]
    refine ⟨hquiet, fun code' h' hzero ↦ hcode ?_⟩
    obtain rfl := Except.ok.inj h'
    exact hzero

theorem bind {p : Command α} {f : α → Command ℕ} (hp : ∀ c, Quiet c (p.exec c).2)
    (hf : ∀ a, FilesTo out (f a)) : FilesTo out (p >>= f) := by
  intro c
  have hquiet := hp c
  rcases hrun : p.exec c with ⟨e | a, c'⟩
  · rw [hrun] at hquiet
    rw [Prog.exec_bind_error hrun]
    exact .inl ⟨hquiet, nofun⟩
  · rw [hrun] at hquiet
    rw [Prog.exec_bind_ok hrun]
    rcases hf a c' with ⟨hquiet', hcode⟩ | ⟨path, text, hout, hwritable, hcode, hwrote⟩
    · refine .inl ⟨⟨?_, ?_⟩, hcode⟩
      · exact hquiet'.world.trans hquiet.world
      · exact hquiet'.written.trans hquiet.written
    · refine .inr ⟨path, text, hout, hquiet.world ▸ hwritable, hcode, ⟨?_, ?_⟩⟩
      · rw [hwrote.world, hquiet.world]
      · rw [hwrote.written, hquiet.written]

theorem lift_bind {x : Exec Str α} {f : α → Command ℕ} (h : ∀ a, x = .ok a → FilesTo out (f a)) :
    FilesTo out (lift x >>= f) := by
  cases x with
  | error e => exact fun c ↦ .inl ⟨⟨rfl, rfl⟩, nofun⟩
  | ok a => exact h a rfl

/-- The file is written last; what is printed behind it cannot fail. -/
theorem write {path text : Str} {p : Command Unit} (hp : Prints P p)
    (hok : ∀ c, (p.exec c).1 = .ok ()) :
    FilesTo (some path) (Cli.write path text >>= fun _ ↦ p >>= fun _ ↦ pure 0) := by
  intro c
  cases hwritable : c.world.writable path with
  | error e =>
      have hrun : (Cli.write path text).exec c = (.error (.err e), c) := by
        have hcheck : World.report (c.world.writable path) = .error (.err e) := by
          rw [hwritable]
          rfl
        exact Prog.exec_bind_error (Prod.ext hcheck rfl)
      rw [Prog.exec_bind_error hrun]
      exact .inl ⟨⟨rfl, rfl⟩, nofun⟩
  | ok u =>
      have hrun : (Cli.write path text).exec c = (.ok (), c.record path text) := by
        have hcheck : World.report (c.world.writable path) = .ok () := by
          rw [hwritable]
          rfl
        exact Prog.exec_bind_ok (Prod.ext hcheck rfl)
      rw [Prog.exec_bind_ok hrun]
      rcases hprint : p.exec (c.record path text) with ⟨r, c'⟩
      have hr := hok (c.record path text)
      have hquiet := hp.quiet (c.record path text)
      rw [hprint] at hr hquiet
      obtain rfl : r = .ok () := hr
      rw [Prog.exec_bind_ok hprint]
      exact .inr ⟨path, text, rfl, hwritable, rfl, ⟨hquiet.world, hquiet.written⟩⟩

end FilesTo

theorem outFile_cons {command : Str} {rest : List Str} {args : Args}
    (h : Args.parse (valueFlags command) rest = .ok args) :
    outFile (command :: rest) =
      if command = "census" then (args.value "o").filter (· ≠ lit "-")
      else if command = "mk-table" then args.value "o"
      else none := by
  simp only [outFile, h]

theorem filesTo_census (rest : List Str) :
    FilesTo (outFile (lit "census" :: rest)) (runCensus rest) := by
  apply FilesTo.lift_bind
  intro args hargs
  have hout : outFile (lit "census" :: rest) = (args.value "o").filter (· ≠ lit "-") := by
    rw [outFile_cons hargs, if_pos rfl]
  apply FilesTo.lift_bind
  intro path _
  apply FilesTo.lift_bind
  intro kernel _
  apply FilesTo.bind fun c ↦ ⟨rfl, rfl⟩
  intro sass
  apply FilesTo.lift_bind
  intro drops _
  apply FilesTo.bind (prints_warnDrops (P := fun _ ↦ True) drops).quiet
  intro _
  apply FilesTo.lift_bind
  intro counts _
  split
  · exact FilesTo.exit (P := fun _ ↦ True) (prints_eprintln _) 1 (by simp)
  · apply FilesTo.lift_bind
    intro csv _
    rw [hout]
    split
    · next out heq =>
        rw [heq]
        exact FilesTo.write (P := fun _ ↦ True) (prints_pure ()) fun _ ↦ rfl
    · next heq =>
        exact FilesTo.exit (P := fun _ ↦ True) (prints_print _) 0 fun _ ↦ heq

theorem filesTo_mkTable (rest : List Str) :
    FilesTo (outFile (lit "mk-table" :: rest)) (runMkTable rest) := by
  apply FilesTo.lift_bind
  intro args hargs
  have hout : outFile (lit "mk-table" :: rest) = args.value "o" := by
    rw [outFile_cons hargs]
    rfl
  apply FilesTo.lift_bind
  intro dir _
  apply FilesTo.lift_bind
  intro priorsPath _
  apply FilesTo.bind fun c ↦ ⟨rfl, rfl⟩
  intro priors
  apply FilesTo.bind
  · apply Prints.quiet (P := fun _ ↦ True)
    cases args.value "na" with
    | none => exact prints_pure none
    | some na => exact Prog.Uses.bind (prints_read trivial) fun _ ↦ prints_pure _
  intro na
  apply FilesTo.lift_bind
  intro out hvalue
  rw [hout, Exec.ofOption_eq_ok.mp hvalue]
  apply FilesTo.bind fun c ↦ ⟨rfl, rfl⟩
  intro entries
  apply FilesTo.bind (prints_readResults (P := fun _ ↦ True) (fun _ ↦ trivial) entries).quiet
  intro results
  apply FilesTo.lift_bind
  intro r _
  exact FilesTo.write (P := fun _ ↦ True) (prints_println _) fun _ ↦ rfl

theorem filesTo_run (argv : List Str) : FilesTo (outFile argv) (run argv) := by
  cases argv with
  | nil =>
      exact FilesTo.of_prints (P := fun _ ↦ True)
        (Prog.Uses.bind (prints_eprintln _) fun _ ↦ prints_pure 2)
  | cons command rest =>
      by_cases hcensus : command = lit "census"
      · rw [hcensus]
        exact filesTo_census rest
      · by_cases htable : command = lit "mk-table"
        · rw [htable]
          exact filesTo_mkTable rest
        · have hout : outFile (command :: rest) = none := by
            rw [outFile]
            split
            · rfl
            · rw [if_neg hcensus, if_neg htable]
          rw [hout]
          exact FilesTo.of_prints (prints_runCommand hcensus htable rest)

/-- The files that a run leaves. -/
def Outcome.world (o : Outcome) : World := o.console.world

def Outcome.written (o : Outcome) : List (Str × Str) := o.console.written

/-- What a run says, writes and exits with. -/
def Outcome.visible (o : Outcome) : Str × Str × List (Str × Str) × ℕ :=
  (o.console.stdout, o.console.stderr, o.written, o.code)

/-- A run writes one file and succeeds, or it writes none. -/
theorem invoke_files (w : World) (argv : List Str) :
    ((invoke w argv).world = w ∧ (invoke w argv).written = [] ∧
        ((invoke w argv).code = 0 → outFile argv = none)) ∨
      ∃ path text, outFile argv = some path ∧ w.writable path = .ok () ∧
        (invoke w argv).code = 0 ∧ (invoke w argv).written = [(path, text)] ∧
          (invoke w argv).world = w.write path text := by
  have hfiles := filesTo_run argv (.start w)
  simp only [Outcome.world, Outcome.written, invoke]
  rcases hrun : (run argv).exec (.start w) with ⟨(e | e) | code, c⟩
  · rw [hrun] at hfiles
    rcases hfiles with ⟨hquiet, -⟩ | ⟨_, _, -, -, hcode, -⟩
    · exact .inl ⟨hquiet.world, hquiet.written, nofun⟩
    · cases hcode
  · rw [hrun] at hfiles
    rcases hfiles with ⟨hquiet, -⟩ | ⟨_, _, -, -, hcode, -⟩
    · exact .inl ⟨hquiet.world, hquiet.written, nofun⟩
    · cases hcode
  · rw [hrun] at hfiles
    rcases hfiles with ⟨hquiet, hnone⟩ | ⟨path, text, hout, hwritable, hcode, hwrote⟩
    · exact .inl ⟨hquiet.world, hquiet.written, hnone code rfl⟩
    · obtain rfl : code = 0 := Except.ok.inj hcode
      exact .inr ⟨path, text, hout, hwritable, rfl, hwrote.written, hwrote.world⟩

theorem invoke_world (w : World) (argv : List Str) :
    (invoke w argv).world = w.writeAll (invoke w argv).written := by
  rcases invoke_files w argv with ⟨hworld, hwritten, -⟩ | ⟨path, text, -, -, -, hwritten, hworld⟩
  · rw [hworld, hwritten]
    rfl
  · rw [hworld, hwritten]
    rfl

/-- The paths that a run wrote. -/
theorem invoke_written (w : World) (argv : List Str) :
    (invoke w argv).written.map (·.1) =
      if (invoke w argv).code = 0 then (outFile argv).toList else [] := by
  rcases invoke_files w argv with ⟨-, hwritten, hnone⟩ | ⟨path, text, hout, -, hcode, hwritten, -⟩
  · rw [hwritten]
    split
    · next hcode => rw [hnone hcode]; rfl
    · rfl
  · rw [hwritten, if_pos hcode, hout]
    rfl

/-! ## Sessions -/

/-- The outcomes of the commands, each run on the files that the last one left. -/
def session (w : World) : List (List Str) → List Outcome
  | [] => []
  | argv :: rest => invoke w argv :: session (invoke w argv).world rest

/-- The files that a session leaves. -/
def afterSession (w : World) (argvs : List (List Str)) : World :=
  argvs.foldl (fun w argv ↦ (invoke w argv).world) w

/-- The files that a command of a session wrote: the one that it was told to,
when it succeeded. -/
def writtenBy (run : List Str × Outcome) : List Str :=
  if run.2.code = 0 then (outFile run.1).toList else []

theorem afterSession_eq (w : World) (argvs : List (List Str)) :
    afterSession w argvs = w.writeAll ((session w argvs).flatMap Outcome.written) := by
  induction argvs generalizing w with
  | nil => rfl
  | cons argv argvs ih =>
      have hafter : afterSession w (argv :: argvs) =
          afterSession (invoke w argv).world argvs := rfl
      rw [hafter, ih, session, List.flatMap_cons, World.writeAll, World.writeAll, List.foldl_append,
        invoke_world w argv]
      rfl

theorem written_session (w : World) (argvs : List (List Str)) :
    ((session w argvs).flatMap Outcome.written).map (·.1) =
      (argvs.zip (session w argvs)).flatMap writtenBy := by
  induction argvs generalizing w with
  | nil => rfl
  | cons argv argvs ih =>
      rw [session, List.flatMap_cons, List.map_append, invoke_written, List.zip_cons_cons,
        List.flatMap_cons, ih]
      rfl

/-- A session leaves what its own commands wrote, in their order: the files that
the successful ones were told to write.  All other files stay as they were. -/
theorem session_files (w : World) (argvs : List (List Str)) :
    let written := (session w argvs).flatMap Outcome.written
    afterSession w argvs = w.writeAll written ∧
      written.map (·.1) = (argvs.zip (session w argvs)).flatMap writtenBy ∧
        ∀ path, path ∉ (argvs.zip (session w argvs)).flatMap writtenBy →
          (afterSession w argvs).read path = w.read path := by
  have hpaths := written_session w argvs
  refine ⟨afterSession_eq w argvs, hpaths, fun path hpath ↦ ?_⟩
  rw [afterSession_eq]
  exact World.writeAll_read_of_not_mem w (hpaths ▸ hpath)

/-! ## Independent commands -/

/-- The same was done, on files that agree. -/
structure Alike (P : Str → Prop) (c c' : Console) : Prop where
  world : AgreeOn P c.world c'.world
  written : c.written = c'.written
  stdout : c.stdout = c'.stdout
  stderr : c.stderr = c'.stderr

theorem Lists.alike {α : Type} {P : Str → Prop} {p : Command α} (h : Lists P p) {c c' : Console}
    (hc : Alike P c c') :
    (p.exec c).1 = (p.exec c').1 ∧ Alike P (p.exec c).2 (p.exec c').2 := by
  refine Prog.Uses.agree (fun α f hf c c' hc ↦ ?_) (fun f hf c c' hc ↦ ?_) h c c' hc
  · obtain ⟨g, rfl, hg⟩ := hf
    exact hg _ _ hc.world
  · rcases hf with ⟨out, err, rfl⟩ | ⟨path, text, rfl⟩
    · refine ⟨hc.world, hc.written, ?_, ?_⟩
      · exact congrArg (· ++ out) hc.stdout
      · exact congrArg (· ++ err) hc.stderr
    · refine ⟨hc.world.write path text, ?_, hc.stdout, hc.stderr⟩
      exact congrArg (· ++ [(path, text)]) hc.written

/-- A run depends on the files that its words name, and on no others. -/
theorem invoke_agree {w w' : World} {argv : List Str} (h : AgreeOn (Reaches (inputs argv)) w w') :
    (invoke w argv).visible = (invoke w' argv).visible := by
  have hstart : Alike (Reaches (inputs argv)) (.start w) (.start w') := ⟨h, rfl, rfl, rfl⟩
  obtain ⟨hend, -, hwritten, hout, herr⟩ := (lists_run argv).alike hstart
  simp only [Outcome.visible, Outcome.written, invoke]
  rcases hrun : (run argv).exec (.start w) with ⟨r, c⟩
  rcases hrun' : (run argv).exec (.start w') with ⟨r', c'⟩
  rw [hrun, hrun'] at hend hwritten hout herr
  dsimp only at hend hwritten hout herr
  obtain rfl := hend
  rcases r with (e | e) | code
  · simp only [hwritten, hout, herr]
  · simp only [hwritten, hout, herr]
  · simp only [hwritten, hout, herr]

theorem session_agree {w w' : World} {argvs : List (List Str)}
    (h : AgreeOn (Reaches (argvs.flatMap inputs)) w w') :
    (session w argvs).map Outcome.visible = (session w' argvs).map Outcome.visible := by
  induction argvs generalizing w w' with
  | nil => rfl
  | cons argv argvs ih =>
      rw [List.flatMap_cons] at h
      have hhead := invoke_agree (h.mono fun _ ↦ Reaches.append_left _)
      have hwritten : (invoke w argv).written = (invoke w' argv).written :=
        congrArg (fun v ↦ v.2.2.1) hhead
      have hrest : AgreeOn (Reaches (argvs.flatMap inputs)) (invoke w argv).world
          (invoke w' argv).world := by
        rw [invoke_world w argv, invoke_world w' argv, hwritten]
        exact (h.mono fun _ ↦ Reaches.append_right _).writeAll _
      rw [session, session, List.map_cons, List.map_cons, hhead, ih hrest]

/-- A census of each side of `twoLoops`. -/
def twoCensuses : List (List Str) :=
  [[lit "census", lit "a.sass", lit "-o", lit "a.csv"],
    [lit "census", lit "b.sass", lit "-o", lit "b.csv"]]

/-- `twoLoops` with a table of one rate. -/
def ratedLoops : World := twoLoops.write "t.csv" "row_id,value,pipe\nalu.ffma.tput,2,fma\n"

/-- A file that no census names is not looked at. -/
theorem session_agree_twoCensuses :
    (session (twoLoops.write "notes.txt" "no kernel") twoCensuses).map Outcome.visible =
      (session twoLoops twoCensuses).map Outcome.visible :=
  session_agree (agreeOn_write twoLoops (by decide) "no kernel")

/-- Neither command writes what the other one reads or writes. -/
structure Independent (a b : List Str) : Prop where
  left : ∀ path, outFile a = some path → ¬ Reaches (inputs b) path
  right : ∀ path, outFile b = some path → ¬ Reaches (inputs a) path
  apart : ∀ path, outFile a = some path → outFile b ≠ some path

theorem Independent.symm {a b : List Str} (h : Independent a b) : Independent b a :=
  ⟨h.right, h.left, fun path hb ha ↦ h.apart path ha hb⟩

theorem invoke_after {w : World} {a b : List Str} (h : Independent a b) :
    (invoke (invoke w a).world b).visible = (invoke w b).visible := by
  rcases invoke_files w a with ⟨hworld, -⟩ | ⟨path, text, hout, -, -, -, hworld⟩
  · rw [hworld]
  · rw [hworld]
    exact invoke_agree (agreeOn_write w (h.left path hout) text)

/-- In a session of independent commands each one ends as if it ran alone. -/
theorem session_visible (w : World) {argvs : List (List Str)} (h : argvs.Pairwise Independent) :
    (session w argvs).map Outcome.visible = argvs.map fun argv ↦ (invoke w argv).visible := by
  induction argvs generalizing w with
  | nil => rfl
  | cons a argvs ih =>
      obtain ⟨ha, hrest⟩ := List.pairwise_cons.mp h
      rw [session, List.map_cons, List.map_cons, ih _ hrest]
      congr 1
      apply List.map_congr_left
      intro b hb
      exact invoke_after (ha b hb)

theorem written_of_visible {os os' : List Outcome}
    (h : os.map Outcome.visible = os'.map Outcome.visible) :
    os.flatMap Outcome.written = os'.flatMap Outcome.written := by
  have hproj : ∀ l : List Outcome, l.flatMap Outcome.written =
      (l.map Outcome.visible).flatMap fun v ↦ v.2.2.1 := by
    intro l
    rw [List.flatMap_map]
    rfl
  rw [hproj, hproj, h]

theorem written_alone (w : World) {argvs : List (List Str)} (h : argvs.Pairwise Independent) :
    (session w argvs).flatMap Outcome.written =
      argvs.flatMap fun argv ↦ (invoke w argv).written := by
  have hvisible : (session w argvs).map Outcome.visible =
      (argvs.map (invoke w)).map Outcome.visible := by
    rw [session_visible w h, List.map_map]
    rfl
  rw [written_of_visible hvisible, List.flatMap_map]

theorem nodup_written (w : World) {argvs : List (List Str)} (h : argvs.Pairwise Independent) :
    ((argvs.flatMap fun argv ↦ (invoke w argv).written).map (·.1)).Nodup := by
  rw [List.map_flatMap, List.nodup_flatMap]
  constructor
  · intro argv _
    rw [invoke_written]
    split
    · cases outFile argv <;> simp
    · exact List.nodup_nil
  · refine h.imp fun {a b} hab ↦ ?_
    rw [Function.onFun, List.disjoint_left]
    intro path ha hb
    rw [invoke_written] at ha hb
    split at ha
    · split at hb
      · have ha' := Option.mem_toList.mp ha
        exact hab.apart path ha' (Option.mem_toList.mp hb)
      · cases hb
    · cases ha

/-- Independent commands may run in any order: each one ends as if it ran alone
on the files of the start, and the same files are left. -/
theorem session_reorder (w : World) {argvs order : List (List Str)}
    (h : argvs.Pairwise Independent) (hperm : order.Perm argvs) :
    (session w order).map Outcome.visible = order.map (fun argv ↦ (invoke w argv).visible) ∧
      ∀ path, (afterSession w order).read path = (afterSession w argvs).read path := by
  have horder : order.Pairwise Independent := hperm.symm.pairwise h Independent.symm
  refine ⟨session_visible w horder, fun path ↦ ?_⟩
  rw [afterSession_eq, afterSession_eq, written_alone w horder, written_alone w h,
    World.writeAll_read w (nodup_written w horder), World.writeAll_read w (nodup_written w h),
    Assoc.lookup_perm (hperm.flatMap_right _) (nodup_written w horder)]

theorem pairwise_twoCensuses : twoCensuses.Pairwise Independent := by
  have hout : outFile [lit "census", lit "a.sass", lit "-o", lit "a.csv"] = some (lit "a.csv") := by
    decide
  have hout' : outFile [lit "census", lit "b.sass", lit "-o", lit "b.csv"] =
      some (lit "b.csv") := by decide
  rw [twoCensuses, List.pairwise_pair]
  refine ⟨fun path h ↦ ?_, fun path h ↦ ?_, fun path h h' ↦ ?_⟩
  · obtain rfl := Option.some.inj (hout.symm.trans h)
    decide
  · obtain rfl := Option.some.inj (hout'.symm.trans h)
    decide
  · obtain rfl := Option.some.inj (hout.symm.trans h)
    exact absurd (hout'.symm.trans h') (by decide)

theorem session_reorder_twoCensuses :
    (session twoLoops twoCensuses.reverse).map Outcome.visible =
        twoCensuses.reverse.map (fun argv ↦ (invoke twoLoops argv).visible) ∧
      ∀ path, (afterSession twoLoops twoCensuses.reverse).read path =
        (afterSession twoLoops twoCensuses).read path :=
  session_reorder twoLoops pairwise_twoCensuses (List.reverse_perm _)

end CalxMill.Cli
