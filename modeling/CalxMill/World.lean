import CalxMill.Lib.Exec
import CalxMill.Rust.Str

/-!
# Files and paths

What a run of the tool finds around it, and the operations on paths that it
uses.  The disassembler is a program of its own: only its output for a path,
or the text of the error it ends in, is known here.
-/

namespace CalxMill

open Lib Rust

/-! ## Paths -/

/-- The components of a path; empty ones and `.` do not count. -/
def pathComponents (path : Str) : List Str :=
  (path.splitOn '/').filter fun c ↦ c ≠ [] ∧ c ≠ ['.']

/-- `Path::file_name` -/
def fileName (path : Str) : Option Str :=
  (pathComponents path).getLast?.filter fun c ↦ c ≠ lit ".."

/-- A file name around its last dot; a dot in front starts no extension. -/
def splitExtension (name : Str) : Str × Option Str :=
  let ext := (name.reverse.takeWhile (· ≠ '.')).reverse
  let stem := name.take (name.length - (ext.length + 1))
  if stem = [] then (name, none) else (stem, some ext)

/-- `Path::extension` -/
def extension (path : Str) : Option Str := (fileName path).bind fun name ↦ (splitExtension name).2

/-- `Path::join` with a relative path. -/
def joinPath (root path : Str) : Str :=
  if root = [] ∨ root.getLast? = some '/' then root ++ path else root ++ '/' :: path

/-- `Path::with_extension`, of a path that ends in its file name. -/
def withExtension (path ext : Str) : Str :=
  match fileName path with
  | none => path
  | some name =>
      path.take (path.length - name.length) ++ ((splitExtension name).1 ++ '.' :: ext)

example : extension "a/k.sm_75.sass/" = some (lit "sass") := by decide

example : withExtension "t/bench/fa.bin" "sass" = "t/bench/fa.sass" := by decide

/-- The name behind the last slash. -/
theorem fileName_append {name : Str} (hslash : '/' ∉ name)
    (hname : name ≠ [] ∧ name ≠ ['.'] ∧ name ≠ lit "..") (path : Str) :
    fileName (path ++ '/' :: name) = some name := by
  have hsplit : (path ++ '/' :: name).splitOn '/' = path.splitOn '/' ++ [name] := by
    rw [List.splitOn_append_cons_self, List.splitOn_eq_singleton hslash]
  have hkeep : [name].filter (fun c ↦ c ≠ [] ∧ c ≠ ['.']) = [name] := by
    simp [hname.1, hname.2.1]
  rw [fileName, pathComponents, hsplit, List.filter_append, hkeep, List.getLast?_concat]
  simp [hname.2.2]

theorem prefix_joinPath (root path : Str) : root <+: joinPath root path := by
  rw [joinPath]
  split
  · exact List.prefix_append root path
  · exact List.prefix_append root ('/' :: path)

/-- A joined path ends in what follows its last slash. -/
theorem joinPath_append (root path name : Str) :
    ∃ dir, root <+: dir ∧ joinPath root (path ++ '/' :: name) = dir ++ '/' :: name := by
  rw [joinPath]
  split
  · exact ⟨root ++ path, List.prefix_append root path, (List.append_assoc ..).symm⟩
  · refine ⟨root ++ '/' :: path, List.prefix_append root _, ?_⟩
    rw [List.append_assoc, List.cons_append]

theorem extension_append {name : Str} (hslash : '/' ∉ name)
    (hname : name ≠ [] ∧ name ≠ ['.'] ∧ name ≠ lit "..") (path : Str) :
    extension (path ++ '/' :: name) = (splitExtension name).2 := by
  rw [extension, fileName_append hslash hname, Option.bind_some]

theorem withExtension_append {name : Str} (hslash : '/' ∉ name)
    (hname : name ≠ [] ∧ name ≠ ['.'] ∧ name ≠ lit "..") (path ext : Str) :
    withExtension (path ++ '/' :: name) ext =
      path ++ '/' :: ((splitExtension name).1 ++ '.' :: ext) := by
  have hdir : (path ++ '/' :: name).take ((path ++ '/' :: name).length - name.length) =
      path ++ ['/'] := by
    have hsplit : path ++ '/' :: name = (path ++ ['/']) ++ name := by simp
    rw [hsplit, List.length_append, Nat.add_sub_cancel, List.take_left]
  simp only [withExtension, fileName_append hslash hname, hdir, List.append_assoc,
    List.singleton_append]

/-! ## The world of a run -/

/-- `read` is a file's content and `entries` are the file names in a
directory, each with the text of the error in its place.  The disassembler is
known by its output for the files there are, and for a text in a file's place.
A path that is not `writable` has the error of the attempt. -/
structure World where
  read : Str → Except Str Str
  present : Str → Bool
  entries : Str → Except Str (List (Except Str Str))
  cuobjdump : Str → Except Str Str
  cuobjdumpText : Str → Str → Except Str Str
  writable : Str → Except Str Unit

namespace World

/-- An I/O error is reported by its text. -/
def report {α : Type} : Except Str α → Exec Str α
  | .ok a => .ok a
  | .error e => Exec.err e

@[simp] theorem report_eq_ok {α : Type} {x : Except Str α} {a : α} :
    report x = .ok a ↔ x = .ok a := by
  cases x <;> simp [report]

/-- `sass_text`: a cached disassembly is read, a binary is disassembled. -/
def sassText (w : World) (path : Str) : Exec Str Str :=
  report (if extension path = some (lit "sass") then w.read path else w.cuobjdump path)

/-- The names in a directory once there is a file at the path. -/
def named (path dir : Str) (names : List (Except Str Str)) : List (Except Str Str) :=
  let name := (path.splitOn '/').getLastD []
  if joinPath dir name = path ∧ .ok name ∉ names then names ++ [.ok name] else names

/-- The world after a file was written. -/
def write (w : World) (path text : Str) : World :=
  { w with
    read := Function.update w.read path (.ok text)
    present := Function.update w.present path true
    entries := fun dir ↦ named path dir <$> w.entries dir
    cuobjdump := Function.update w.cuobjdump path (w.cuobjdumpText path text) }

/-- The world after several files were written, in order. -/
def writeAll (w : World) (written : List (Str × Str)) : World :=
  written.foldl (fun w f ↦ w.write f.1 f.2) w

theorem write_read_self (w : World) (path text : Str) : (w.write path text).read path = .ok text :=
  Function.update_self ..

theorem write_read_of_ne (w : World) {path path' : Str} (h : path' ≠ path) (text : Str) :
    (w.write path text).read path' = w.read path' :=
  Function.update_of_ne h ..

theorem writeAll_read_of_not_mem (w : World) {written : List (Str × Str)} {path : Str}
    (h : path ∉ written.map (·.1)) : (w.writeAll written).read path = w.read path := by
  induction written generalizing w with
  | nil => rfl
  | cons f written ih =>
      obtain ⟨hne, hrest⟩ := not_or.mp (mt List.mem_cons.mpr h)
      exact (ih _ hrest).trans (write_read_of_ne w hne f.2)

/-- Files written under distinct names are read back, whatever the order. -/
theorem writeAll_read (w : World) {written : List (Str × Str)} (h : (written.map (·.1)).Nodup)
    (path : Str) :
    (w.writeAll written).read path = (written.lookup path).elim (w.read path) .ok := by
  induction written generalizing w with
  | nil => rfl
  | cons f written ih =>
      obtain ⟨hfresh, hrest⟩ := List.nodup_cons.mp h
      by_cases hpath : path = f.1
      · obtain rfl := hpath
        rw [List.lookup_cons_self]
        exact (writeAll_read_of_not_mem _ hfresh).trans (write_read_self w f.1 f.2)
      · rw [List.lookup_cons, beq_eq_false_iff_ne.mpr hpath]
        exact (ih _ hrest).trans (by rw [write_read_of_ne w hpath])

theorem write_sassText (w : World) {path path' : Str} (h : path' ≠ path) (text : Str) :
    (w.write path text).sassText path' = w.sassText path' := by
  have hdump : (w.write path text).cuobjdump path' = w.cuobjdump path' := Function.update_of_ne h ..
  rw [sassText, sassText, hdump, write_read_of_ne w h]

/-- The file is there with this text: writing it changes nothing. -/
def Settled (w : World) (path text : Str) : Prop := w.write path text = w

theorem named_named (path dir : Str) (names : List (Except Str Str)) :
    named path dir (named path dir names) = named path dir names := by
  simp only [named]
  split
  · next h =>
      rw [if_neg]
      exact fun h' ↦ h'.2 (List.mem_append_right _ (List.mem_singleton_self _))
  · rfl

theorem named_comm {path dir : Str} {names : List (Except Str Str)} (path' : Str)
    (h : named path dir names = names) :
    named path dir (named path' dir names) = named path' dir names := by
  simp only [named] at h ⊢
  apply if_neg
  rintro ⟨hpath, hmem⟩
  have hold : .ok ((path.splitOn '/').getLastD []) ∉ names := by
    intro hold
    apply hmem
    split
    · exact List.mem_append_left _ hold
    · exact hold
  rw [if_pos ⟨hpath, hold⟩] at h
  simp at h

theorem settled_write (w : World) (path text : Str) : (w.write path text).Settled path text := by
  have hentries : ∀ dir, named path dir <$> (named path dir <$> w.entries dir) =
      named path dir <$> w.entries dir := by
    intro dir
    cases w.entries dir with
    | error e => rfl
    | ok names => exact congrArg Except.ok (named_named path dir names)
  simp only [Settled, write, Function.update_idem, hentries]

/-- A file stays settled while others are written. -/
theorem Settled.write {w : World} {path text path' : Str} (h : w.Settled path text)
    (hne : path ≠ path') (text' : Str) : (w.write path' text').Settled path text := by
  rw [Settled, World.write, World.mk.injEq] at h
  obtain ⟨hread, hpresent, hentries, hdump, -, -⟩ := h
  have hnamed : ∀ dir, named path dir <$> (named path' dir <$> w.entries dir) =
      named path' dir <$> w.entries dir := by
    intro dir
    have hdir := congrFun hentries dir
    cases hnames : w.entries dir with
    | error e => rfl
    | ok names =>
        rw [hnames] at hdir
        exact congrArg Except.ok (named_comm path' (Except.ok.inj hdir))
  simp only [Settled, World.write, hnamed]
  rw [Function.update_comm hne.symm, hread, Function.update_comm hne.symm, hpresent,
    Function.update_comm hne.symm, hdump]

theorem Settled.writeAll {w : World} {path text : Str} (h : w.Settled path text)
    {written : List (Str × Str)} (hpath : path ∉ written.map (·.1)) :
    (w.writeAll written).Settled path text := by
  induction written generalizing w with
  | nil => exact h
  | cons f written ih =>
      obtain ⟨hne, hrest⟩ := not_or.mp (mt List.mem_cons.mpr hpath)
      exact ih (h.write hne f.2) hrest

/-- The files at the paths in `P` are the same, and a text that is written there
has the same effect. -/
structure FilesOn (P : Str → Prop) (w w' : World) : Prop where
  read : ∀ path, P path → w.read path = w'.read path
  present : ∀ path, P path → w.present path = w'.present path
  cuobjdump : ∀ path, P path → w.cuobjdump path = w'.cuobjdump path
  cuobjdumpText : w.cuobjdumpText = w'.cuobjdumpText
  writable : w.writable = w'.writable

/-- The directories in `P` list the same, too. -/
structure AgreeOn (P : Str → Prop) (w w' : World) : Prop extends FilesOn P w w' where
  entries : ∀ dir, P dir → w.entries dir = w'.entries dir

section

variable {P Q : Str → Prop} {w w' w'' : World}

namespace FilesOn

theorem refl (w : World) : FilesOn P w w := ⟨fun _ _ ↦ rfl, fun _ _ ↦ rfl, fun _ _ ↦ rfl, rfl, rfl⟩

theorem trans (h : FilesOn P w w') (h' : FilesOn P w' w'') : FilesOn P w w'' where
  read path hp := (h.read path hp).trans (h'.read path hp)
  present path hp := (h.present path hp).trans (h'.present path hp)
  cuobjdump path hp := (h.cuobjdump path hp).trans (h'.cuobjdump path hp)
  cuobjdumpText := h.cuobjdumpText.trans h'.cuobjdumpText
  writable := h.writable.trans h'.writable

theorem mono (h : FilesOn P w w') (hQ : ∀ path, Q path → P path) : FilesOn Q w w' where
  read path hp := h.read path (hQ path hp)
  present path hp := h.present path (hQ path hp)
  cuobjdump path hp := h.cuobjdump path (hQ path hp)
  cuobjdumpText := h.cuobjdumpText
  writable := h.writable

theorem sassText (h : FilesOn P w w') {path : Str} (hp : P path) :
    w.sassText path = w'.sassText path := by
  rw [World.sassText, World.sassText, h.read path hp, h.cuobjdump path hp]

/-- The same text in the same place keeps two worlds in agreement. -/
theorem write (h : FilesOn P w w') (path text : Str) :
    FilesOn P (w.write path text) (w'.write path text) where
  read path' hp := by
    simp only [World.write, Function.update_apply, h.read path' hp]
  present path' hp := by
    simp only [World.write, Function.update_apply, h.present path' hp]
  cuobjdump path' hp := by
    simp only [World.write, Function.update_apply, h.cuobjdump path' hp, h.cuobjdumpText]
  cuobjdumpText := h.cuobjdumpText
  writable := h.writable

end FilesOn

namespace AgreeOn

theorem refl (w : World) : AgreeOn P w w := ⟨.refl w, fun _ _ ↦ rfl⟩

theorem trans (h : AgreeOn P w w') (h' : AgreeOn P w' w'') : AgreeOn P w w'' :=
  ⟨h.toFilesOn.trans h'.toFilesOn, fun dir hp ↦ (h.entries dir hp).trans (h'.entries dir hp)⟩

theorem mono (h : AgreeOn P w w') (hQ : ∀ path, Q path → P path) : AgreeOn Q w w' :=
  ⟨h.toFilesOn.mono hQ, fun dir hp ↦ h.entries dir (hQ dir hp)⟩

theorem write (h : AgreeOn P w w') (path text : Str) :
    AgreeOn P (w.write path text) (w'.write path text) where
  toFilesOn := h.toFilesOn.write path text
  entries dir hp := by
    simp only [World.write, h.entries dir hp]

theorem writeAll (h : AgreeOn P w w') (written : List (Str × Str)) :
    AgreeOn P (w.writeAll written) (w'.writeAll written) := by
  induction written generalizing w w' with
  | nil => exact h
  | cons f written ih => exact ih (h.write f.1 f.2)

end AgreeOn

end

/-- The path is one of the words, or lies below one of them. -/
def Reaches (words : List Str) (path : Str) : Prop := ∃ word ∈ words, word <+: path

instance (words : List Str) (path : Str) : Decidable (Reaches words path) :=
  inferInstanceAs (Decidable (∃ word ∈ words, word <+: path))

theorem reaches_of_mem {words : List Str} {path : Str} (h : path ∈ words) : Reaches words path :=
  ⟨path, h, List.prefix_rfl⟩

theorem Reaches.append_left {words : List Str} {path : Str} (words' : List Str)
    (h : Reaches words path) : Reaches (words ++ words') path := by
  obtain ⟨word, hword, hprefix⟩ := h
  exact ⟨word, List.mem_append_left words' hword, hprefix⟩

theorem Reaches.append_right {words : List Str} {path : Str} (words' : List Str)
    (h : Reaches words path) : Reaches (words' ++ words) path := by
  obtain ⟨word, hword, hprefix⟩ := h
  exact ⟨word, List.mem_append_right words' hword, hprefix⟩

theorem Reaches.joinPath {words : List Str} {root : Str} (h : Reaches words root) (path : Str) :
    Reaches words (joinPath root path) := by
  obtain ⟨word, hword, hprefix⟩ := h
  exact ⟨word, hword, hprefix.trans (prefix_joinPath root path)⟩

/-- A file that the words do not reach changes nothing that they reach. -/
theorem agreeOn_write (w : World) {words : List Str} {path : Str} (h : ¬ Reaches words path)
    (text : Str) : AgreeOn (Reaches words) (w.write path text) w := by
  have hne : ∀ path', Reaches words path' → path' ≠ path := by
    rintro path' hp rfl
    exact h hp
  refine ⟨⟨fun path' hp ↦ ?_, fun path' hp ↦ ?_, fun path' hp ↦ ?_, rfl, rfl⟩, fun dir hp ↦ ?_⟩
  · exact Function.update_of_ne (hne path' hp) ..
  · exact Function.update_of_ne (hne path' hp) ..
  · exact Function.update_of_ne (hne path' hp) ..
  · have hdir : ∀ name, CalxMill.joinPath dir name ≠ path := by
      rintro name rfl
      exact h (hp.joinPath name)
    have hnamed : named path dir = id := by
      funext names
      rw [named]
      exact if_neg fun hname ↦ hdir _ hname.1
    simp only [write, hnamed, id_map]

end World

end CalxMill
