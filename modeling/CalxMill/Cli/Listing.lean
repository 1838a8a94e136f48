import CalxMill.Cli.Session
import CalxMill.Nvidia.Aggregation

/-!
# The order of a directory

A system lists a directory in an order of its own, with other files between the
results.  No run of the tool depends on either: what a session prints, writes
and exits with is the same, up to the text of an error.
-/

namespace CalxMill.Cli

open Lib Rust Nvidia World

/-- An entry that is read, or that stops the command. -/
def isListed : Except Str Str → Bool
  | .ok name => decide (lit ".csv" <:+ name)
  | .error _ => true

/-- The same results, in any order. -/
def SameNames (names names' : List (Except Str Str)) : Prop :=
  (names.filter isListed).Perm (names'.filter isListed)

/-- The same results are listed. -/
inductive SameListing :
    Except Str (List (Except Str Str)) → Except Str (List (Except Str Str)) → Prop
  | error (e : Str) : SameListing (.error e) (.error e)
  | ok {names names' : List (Except Str Str)} (h : SameNames names names') :
      SameListing (.ok names) (.ok names')

/-- The worlds have the same files, and list the same results. -/
structure Relisted (w w' : World) : Prop extends FilesOn (fun _ ↦ True) w w' where
  entries : ∀ dir, SameListing (w.entries dir) (w'.entries dir)

theorem SameNames.named {names names' : List (Except Str Str)} (h : SameNames names names')
    (path dir : Str) : SameNames (World.named path dir names) (World.named path dir names') := by
  have hmem : ∀ e, isListed e = true → (e ∈ names ↔ e ∈ names') := by
    intro e he
    have hiff := h.mem_iff (a := e)
    rwa [List.mem_filter, List.mem_filter, and_iff_left he, and_iff_left he] at hiff
  set name := (path.splitOn '/').getLastD [] with hname
  by_cases hlisted : isListed (.ok name) = true
  · simp only [World.named, ← hname, hmem _ hlisted]
    split
    · rw [SameNames, List.filter_append, List.filter_append]
      exact List.Perm.append_right _ h
    · exact h
  · have hskip : ∀ names, (World.named path dir names).filter isListed = names.filter isListed := by
      intro names
      simp only [World.named, ← hname]
      split
      · rw [List.filter_append, List.filter_singleton, cond_eq_ite, if_neg hlisted,
          List.append_nil]
      · rfl
    rwa [SameNames, hskip, hskip]

theorem Relisted.write {w w' : World} (h : Relisted w w') (path text : Str) :
    Relisted (w.write path text) (w'.write path text) where
  toFilesOn := h.toFilesOn.write path text
  entries dir := by
    have hdir := h.entries dir
    simp only [World.write]
    revert hdir
    generalize w.entries dir = x
    generalize w'.entries dir = y
    rintro (e | hperm)
    · exact .error e
    · exact .ok (hperm.named path dir)

/-! ## Reading a directory -/

/-- A result with its text. -/
def readEntry (w : World) (dir : Str) (entry : Except Str Str) : Exec Str (Str × Str) := do
  let name ← World.report entry
  let content ← Exec.mapErr (fun e ↦ joinPath dir name ++ ": " ++ e)
    (World.report (w.read (joinPath dir name)))
  pure (name, content)

theorem report_safe {α : Type} (x : Except Str α) : (World.report x).Safe := by
  cases x with
  | ok a => exact Exec.Safe.ok a
  | error e => exact Exec.Safe.err e

theorem mapErr_safe {α : Type} {f : Str → Str} {x : Exec Str α} (h : x.Safe) :
    (Exec.mapErr f x).Safe := by
  rcases x with (e | msg) | a
  · exact Exec.Safe.err _
  · exact absurd rfl (h msg)
  · exact Exec.Safe.ok a

theorem readEntry_safe (w : World) (dir : Str) (entry : Except Str Str) :
    (readEntry w dir entry).Safe := by
  apply Exec.Safe.bind (report_safe entry)
  intro name _
  apply Exec.Safe.bind (mapErr_safe (report_safe _))
  exact fun _ _ ↦ Exec.Safe.ok _

theorem exec_readResult_of_listed {entry : Except Str Str} (h : isListed entry = true) (dir : Str)
    (results : List (Str × Str)) (c : Console) : (readResult dir results entry).exec c =
      ((fun r ↦ results ++ [r]) <$> readEntry c.world dir entry, c) := by
  cases entry with
  | error e => rfl
  | ok name =>
      have hcsv : lit ".csv" <:+ name := of_decide_eq_true h
      have hname : World.report (.ok name : Except Str Str) = .ok name := rfl
      rw [readResult, exec_lift_bind hname, if_pos hcsv, Prog.exec_bind]
      simp only [readEntry, hname, bind, Except.bind, read, files, Prog.exec_look]
      cases c.world.read (joinPath dir name) with
      | error e => rfl
      | ok content => rfl

theorem exec_readResult_of_not_listed {entry : Except Str Str} (h : ¬ isListed entry = true)
    (dir : Str) (results : List (Str × Str)) (c : Console) :
    (readResult dir results entry).exec c = (.ok results, c) := by
  cases entry with
  | error e => exact absurd rfl h
  | ok name =>
      have hcsv : ¬ lit ".csv" <:+ name := fun hcsv ↦ h (decide_eq_true hcsv)
      have hname : World.report (.ok name : Except Str Str) = .ok name := rfl
      rw [readResult, exec_lift_bind hname, if_neg hcsv]
      rfl

theorem exec_foldlM_readResult (dir : Str) (c : Console) (entries : List (Except Str Str)) :
    ∀ results, (entries.foldlM (readResult dir) results).exec c =
      ((results ++ ·) <$> (entries.filter isListed).mapM (readEntry c.world dir), c) := by
  induction entries with
  | nil =>
      intro results
      exact Prod.ext (congrArg Except.ok (List.append_nil results).symm) rfl
  | cons entry entries ih =>
      intro results
      rw [List.foldlM_cons]
      by_cases hlisted : isListed entry = true
      · rw [List.filter_cons_of_pos hlisted, List.mapM_cons, Prog.exec_bind,
          exec_readResult_of_listed hlisted]
        cases readEntry c.world dir entry with
        | error e => rfl
        | ok r =>
            have hrest := ih (results ++ [r])
            simp only [Functor.map, Except.map, bind, Except.bind] at hrest ⊢
            rw [hrest]
            cases (entries.filter isListed).mapM (readEntry c.world dir) with
            | error e => rfl
            | ok rs => simp [pure, Except.pure]
      · rw [List.filter_cons_of_neg hlisted,
          Prog.exec_bind_ok (exec_readResult_of_not_listed hlisted dir results c)]
        exact ih results

theorem exec_readResults (dir : Str) (c : Console) (entries : List (Except Str Str)) :
    (readResults dir entries).exec c =
      ((entries.filter isListed).mapM (readEntry c.world dir), c) := by
  rw [readResults, exec_foldlM_readResult]
  cases (entries.filter isListed).mapM (readEntry c.world dir) with
  | error e => rfl
  | ok rs => rfl

/-! ## The results of a directory -/

/-- The same results, and one text for each name. -/
structure SameResults (results results' : List (Str × Str)) : Prop where
  perm : results.Perm results'
  single : ∀ a ∈ results, ∀ b ∈ results, a.1 = b.1 → a = b

/-- The table is made from the results in the order of their names. -/
theorem mkTable_sameResults {results results' : List (Str × Str)} (h : SameResults results results')
    (priors : Str) (na : Option Str) : mkTable results priors na = mkTable results' priors na := by
  have hsort : results.insertionSort (fun a b ↦ a.1 ≤ b.1) =
      results'.insertionSort fun a b ↦ a.1 ≤ b.1 := by
    apply List.Perm.eq_of_pairwise
    · intro a b ha hb hab hba
      rw [List.mem_insertionSort] at ha hb
      exact h.single a ha b (h.perm.mem_iff.mpr hb) (le_antisymm hab hba)
    · exact pairwise_insertionSort (fun _ _ _ ↦ le_trans) fun a _ b _ ↦ le_total a.1 b.1
    · exact pairwise_insertionSort (fun _ _ _ ↦ le_trans) fun a _ b _ ↦ le_total a.1 b.1
    · exact (List.perm_insertionSort _ _).trans (h.perm.trans (List.perm_insertionSort _ _).symm)
  simp only [mkTable, tableRows, tableGroups, measurements, hsort]

theorem read_of_readEntry {w : World} {dir : Str} {entry : Except Str Str} {r : Str × Str}
    (h : readEntry w dir entry = .ok r) : w.read (joinPath dir r.1) = .ok r.2 := by
  obtain ⟨name, -, h⟩ := Exec.bind_eq_ok.mp h
  obtain ⟨content, hcontent, h⟩ := Exec.bind_eq_ok.mp h
  obtain rfl := Exec.pure_eq_ok.mp h
  rwa [Exec.mapErr_eq_ok, World.report_eq_ok] at hcontent

/-- The errors are the same, or both are reported. -/
def SameFail (e e' : Fail Str) : Prop :=
  e = e' ∨ ∃ msg msg', e = .err msg ∧ e' = .err msg'

theorem sameFail_of_safe {α : Type} {x y : Exec Str α} (hx : x.Safe) (hy : y.Safe) {e e' : Fail Str}
    (he : x = .error e) (he' : y = .error e') : SameFail e e' := by
  cases e with
  | panic msg => exact absurd he (hx msg)
  | err msg =>
      cases e' with
      | panic msg' => exact absurd he' (hy msg')
      | err msg' => exact .inr ⟨msg, msg', rfl, rfl⟩

theorem sameEnd_readEntries (w : World) (dir : Str) {names names' : List (Except Str Str)}
    (h : names.Perm names') :
    Prog.SameEnd SameFail SameResults (names.mapM (readEntry w dir))
      (names'.mapM (readEntry w dir)) := by
  cases hread : names.mapM (readEntry w dir) with
  | ok rs =>
      obtain ⟨rs', hread', hperm⟩ := Exec.mapM_perm h hread
      rw [hread']
      refine .ok ⟨hperm, fun a ha b hb hab ↦ ?_⟩
      obtain ⟨_, -, ha⟩ := Exec.mem_of_mapM_eq_ok hread ha
      obtain ⟨_, -, hb⟩ := Exec.mem_of_mapM_eq_ok hread hb
      have hsame := read_of_readEntry hb
      rw [← hab, read_of_readEntry ha] at hsame
      exact Prod.ext hab (Except.ok.inj hsame)
  | error e =>
      cases hread' : names'.mapM (readEntry w dir) with
      | ok rs' =>
          obtain ⟨rs, hrs, -⟩ := Exec.mapM_perm h.symm hread'
          cases hrs.symm.trans hread
      | error e' =>
          have hsafe : ∀ l : List (Except Str Str), (l.mapM (readEntry w dir)).Safe :=
            fun l ↦ Exec.Safe.mapM fun entry _ ↦ readEntry_safe w dir entry
          exact .error (sameFail_of_safe (hsafe _) (hsafe _) hread hread')

/-! ## Two runs -/

/-- The same was said and written so far. -/
structure SameRun (c c' : Console) : Prop where
  world : Relisted c.world c'.world
  written : c.written = c'.written
  stdout : c.stdout = c'.stdout
  stderr : c.stderr = c'.stderr

/-- The runs end alike, wherever the same results are listed. -/
abbrev Follows {α β : Type} (V : α → β → Prop) (p : Command α) (q : Command β) : Prop :=
  Prog.Sim SameRun SameFail V p q

theorem sameFail_refl (e : Fail Str) : SameFail e e := .inl rfl

theorem Writes.follows {α : Type} {P : Str → Prop} {p : Command α} (h : Writes P p) :
    Follows Eq p p := by
  intro c c' hc
  have hagree := Prog.Uses.agree (R := SameRun) ?_ ?_ h c c' hc
  · rw [hagree.1]
    exact ⟨.refl sameFail_refl _, hagree.2⟩
  · rintro α f ⟨g, rfl, hg⟩ c c' hc
    exact hg _ _ (hc.world.toFilesOn.mono fun _ _ ↦ trivial)
  · intro f hf c c' hc
    rcases hf with ⟨out, err, rfl⟩ | ⟨path, text, rfl⟩
    · refine ⟨hc.world, hc.written, ?_, ?_⟩
      · exact congrArg (· ++ out) hc.stdout
      · exact congrArg (· ++ err) hc.stderr
    · refine ⟨hc.world.write path text, ?_, hc.stdout, hc.stderr⟩
      exact congrArg (· ++ [(path, text)]) hc.written

theorem follows_lift {α : Type} (x : Exec Str α) : Follows Eq (lift x) (lift x) :=
  Prog.Sim.look fun _ _ _ ↦ .refl sameFail_refl x

theorem follows_entries (dir : Str) :
    Follows SameNames (files fun w ↦ World.report (w.entries dir))
      (files fun w ↦ World.report (w.entries dir)) := by
  apply Prog.Sim.look
  intro c c' hc
  have hdir := hc.world.entries dir
  dsimp only
  revert hdir
  generalize c.world.entries dir = x
  generalize c'.world.entries dir = y
  rintro (e | hperm)
  · exact .error (sameFail_refl _)
  · exact .ok hperm

theorem follows_readResults (dir : Str) {names names' : List (Except Str Str)}
    (h : SameNames names names') :
    Follows SameResults (readResults dir names) (readResults dir names') := by
  intro c c' hc
  have hread : readEntry c.world dir = readEntry c'.world dir := by
    funext entry
    simp only [readEntry, hc.world.read _ trivial]
  rw [exec_readResults, exec_readResults, hread]
  exact ⟨sameEnd_readEntries _ dir h, hc⟩

theorem follows_mkTable (rest : List Str) : Follows Eq (runMkTable rest) (runMkTable rest) := by
  apply Prog.Sim.bind (follows_lift _)
  rintro args _ rfl
  apply Prog.Sim.bind (follows_lift _)
  rintro dir _ rfl
  apply Prog.Sim.bind (follows_lift _)
  rintro priorsPath _ rfl
  apply Prog.Sim.bind (prints_read (P := fun _ ↦ True) trivial).writes.follows
  rintro priors _ rfl
  apply Prog.Sim.bind (V := Eq)
  · cases args.value "na" with
    | none => exact (prints_pure (P := fun _ ↦ True) none).writes.follows
    | some na =>
        have hread : Prints (fun _ ↦ True) (read na) := prints_read trivial
        exact (Prints.writes (Prog.Uses.bind hread fun text ↦ prints_pure (some text))).follows
  rintro na _ rfl
  apply Prog.Sim.bind (follows_lift _)
  rintro out _ rfl
  apply Prog.Sim.bind (follows_entries dir)
  intro names names' hnames
  apply Prog.Sim.bind (follows_readResults dir hnames)
  intro results results' hresults
  rw [mkTable_sameResults hresults]
  apply Prog.Sim.bind (follows_lift _)
  rintro r _ rfl
  apply Prog.Sim.bind (writes_write (P := fun _ ↦ True) _ _).follows
  rintro _ _ rfl
  apply Prog.Sim.bind (prints_println (P := fun _ ↦ True) _).writes.follows
  rintro _ _ rfl
  exact Prog.Sim.pure rfl

theorem follows_run (argv : List Str) : Follows Eq (run argv) (run argv) := by
  by_cases htable : argv.head? = some (lit "mk-table")
  · obtain ⟨rest, rfl⟩ := List.head?_eq_some_iff.mp htable
    exact follows_mkTable rest
  · exact (writes_run htable).follows

/-! ## Sessions -/

/-- The outcomes are the same, up to the text of a reported error. -/
structure SameOutcome (o o' : Outcome) : Prop where
  code : o.code = o'.code
  stdout : o.console.stdout = o'.console.stdout
  written : o.written = o'.written
  stderr : o.code ≠ 2 → o.console.stderr = o'.console.stderr

theorem invoke_listing {w w' : World} (h : Relisted w w') (argv : List Str) :
    SameOutcome (invoke w argv) (invoke w' argv) ∧
      Relisted (invoke w argv).world (invoke w' argv).world := by
  have hstart : SameRun (.start w) (.start w') := ⟨h, rfl, rfl, rfl⟩
  obtain ⟨hend, hworld, hwritten, hout, herr⟩ := follows_run argv _ _ hstart
  simp only [Outcome.world, invoke]
  rcases hrun : (run argv).exec (.start w) with ⟨r, c⟩
  rcases hrun' : (run argv).exec (.start w') with ⟨r', c'⟩
  rw [hrun, hrun'] at hend hworld hwritten hout herr
  dsimp only at hend hworld hwritten hout herr
  cases hend with
  | @ok code code' hcode =>
      obtain rfl := hcode
      exact ⟨⟨rfl, hout, hwritten, fun _ ↦ herr⟩, hworld⟩
  | @error e e' he =>
      rcases he with rfl | ⟨msg, msg', rfl, rfl⟩
      · cases e with
        | err msg => exact ⟨⟨rfl, hout, hwritten, fun hne ↦ absurd rfl hne⟩, hworld⟩
        | panic msg =>
            exact ⟨⟨rfl, hout, hwritten, fun _ ↦ congrArg (· ++ (msg ++ lit "\n")) herr⟩, hworld⟩
      · exact ⟨⟨rfl, hout, hwritten, fun hne ↦ absurd rfl hne⟩, hworld⟩

/-- A session does not depend on the order in which directories are listed, nor
on other files in them. -/
theorem session_listing {w w' : World} (h : Relisted w w') (argvs : List (List Str)) :
    List.Forall₂ SameOutcome (session w argvs) (session w' argvs) ∧
      Relisted (afterSession w argvs) (afterSession w' argvs) := by
  induction argvs generalizing w w' with
  | nil => exact ⟨.nil, h⟩
  | cons argv argvs ih =>
      obtain ⟨hhead, hworld⟩ := invoke_listing h argv
      obtain ⟨hrest, hafter⟩ := ih hworld
      exact ⟨.cons hhead hrest, hafter⟩

/-- The files of two result tables, in a directory with these entries. -/
def sweepDir (names : List (Except Str Str)) : World where
  read path :=
    if path = lit "priors.csv" then .ok noPriors else
    match sweepFiles.find? fun f ↦ joinPath "r" f.1 = path with
    | some f => .ok f.2
    | none => .error "No such file or directory (os error 2)"
  present _ := false
  entries _ := .ok names
  cuobjdump _ := .error "No such file or directory (os error 2)"
  cuobjdumpText _ _ := .error "No such file or directory (os error 2)"
  writable _ := .ok ()

/-- The table of the directory, and then the table again. -/
def tableTwice : List (List Str) :=
  let mkTable := [lit "mk-table", lit "r", lit "--priors", lit "priors.csv", lit "-o",
    lit "ops.csv"]
  [mkTable, mkTable]

theorem session_listing_sweep :
    (session (sweepDir [.ok "t.csv", .ok "x.csv"]) tableTwice).map Outcome.code = [0, 0] ∧
      List.Forall₂ SameOutcome (session (sweepDir [.ok "t.csv", .ok "x.csv"]) tableTwice)
        (session (sweepDir [.ok "x.csv", .ok "notes.txt", .ok "t.csv"]) tableTwice) := by
  have hnames : SameNames [.ok "t.csv", .ok "x.csv"] [.ok "x.csv", .ok "notes.txt", .ok "t.csv"] :=
    List.Perm.swap ..
  have hlisted : Relisted (sweepDir [.ok "t.csv", .ok "x.csv"])
      (sweepDir [.ok "x.csv", .ok "notes.txt", .ok "t.csv"]) := by
    refine ⟨⟨fun _ _ ↦ rfl, fun _ _ ↦ rfl, fun _ _ ↦ rfl, rfl, rfl⟩, fun _ ↦ .ok hnames⟩
  refine ⟨?_, (session_listing hlisted tableTwice).1⟩
  decide +kernel

end CalxMill.Cli
