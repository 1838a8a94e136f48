import CalxMill.Gate.Args
import CalxMill.Lib.Effects
import CalxMill.World

/-!
# The console of a run

A command prints and writes as it goes, so what it did before an error stays.
The console keeps the files as they are now, the files written so far and the
two printed streams.
-/

namespace CalxMill

open Lib Rust

namespace Cli

structure Console where
  world : World
  written : List (Str × Str)
  stdout : Str
  stderr : Str

namespace Console

def start (w : World) : Console := ⟨w, [], [], []⟩

def record (c : Console) (path text : Str) : Console :=
  { c with world := c.world.write path text, written := c.written ++ [(path, text)] }

end Console

abbrev Command := Prog (Fail Str) Console

variable {α : Type}

def print (text : Str) : Command Unit :=
  Prog.act fun c ↦ { c with stdout := c.stdout ++ text }

def println (line : Str) : Command Unit := print (line ++ "\n")

def eprintln (line : Str) : Command Unit :=
  Prog.act fun c ↦ { c with stderr := c.stderr ++ (line ++ lit "\n") }

def fail (msg : Str) : Command α := Prog.fail (.err msg)

/-- A computation that takes nothing from the files. -/
def lift (x : Exec Str α) : Command α := Prog.look fun _ ↦ x

/-- A computation on the files as they are now. -/
def files (f : World → Exec Str α) : Command α := Prog.look fun c ↦ f c.world

def read (path : Str) : Command Str :=
  files fun w ↦ Exec.mapErr (fun e ↦ path ++ ": " ++ e) (World.report (w.read path))

/-- `fs::write` -/
def write (path text : Str) : Command Unit := do
  files fun w ↦ World.report (w.writable path)
  Prog.act (Console.record · path text)

theorem exec_print_bind {β : Type} (text : Str) (f : Unit → Command β) (c : Console) :
    (print text >>= f).exec c = (f ()).exec { c with stdout := c.stdout ++ text } :=
  Prog.exec_bind_ok rfl

theorem exec_eprintln_if (p : Prop) [Decidable p] (line : Str) (c : Console) :
    ∃ err, (if p then eprintln line else pure ()).exec c =
      (.ok (), { c with stderr := c.stderr ++ err }) := by
  split
  · exact ⟨_, rfl⟩
  · exact ⟨[], by rw [List.append_nil]; rfl⟩

theorem exec_lift_bind {β : Type} {x : Exec Str α} {a : α} (h : x = .ok a) (f : α → Command β)
    (c : Console) : (lift x >>= f).exec c = (f a).exec c := by
  rw [h]
  exact Prog.exec_bind_ok rfl

theorem exec_lift_error {β : Type} {x : Exec Str α} {e : Fail Str} (h : x = .error e)
    (f : α → Command β) (c : Console) : (lift x >>= f).exec c = (.error e, c) := by
  rw [h]
  exact Prog.exec_bind_error rfl

theorem exec_lift_eq_ok {β : Type} {x : Exec Str α} {f : α → Command β} {b : β} {c c' : Console} :
    (lift x >>= f).exec c = (.ok b, c') ↔ ∃ a, x = .ok a ∧ (f a).exec c = (.ok b, c') := by
  cases x with
  | ok a => simp [exec_lift_bind]
  | error e => simp [exec_lift_error]

theorem exec_files_eq_ok {β : Type} {g : World → Exec Str α} {f : α → Command β} {b : β}
    {c c' : Console} : (files g >>= f).exec c = (.ok b, c') ↔
      ∃ a, g c.world = .ok a ∧ (f a).exec c = (.ok b, c') := by
  have hfiles : (files g).exec c = (g c.world, c) := rfl
  rw [Prog.exec_bind_eq_ok, hfiles]
  simp

theorem exec_read_eq_ok {β : Type} {path : Str} {f : Str → Command β} {b : β} {c c' : Console} :
    (read path >>= f).exec c = (.ok b, c') ↔
      ∃ text, c.world.read path = .ok text ∧ (f text).exec c = (.ok b, c') := by
  rw [read, exec_files_eq_ok]
  simp

theorem exec_read_bind {β : Type} {c : Console} {path text : Str}
    (h : c.world.read path = .ok text) (f : Str → Command β) :
    (read path >>= f).exec c = (f text).exec c := by
  apply Prog.exec_bind_ok
  exact Prod.ext (congrArg (fun r ↦ Exec.mapErr _ (World.report r)) h) rfl

end Cli

namespace Args

/-- The parsed value of a flag, or the default without one. -/
def number {α : Type} (args : Args) (parse : Str → Option α) (name : Str) (default : α) :
    Exec Str α :=
  match args.value name with
  | none => pure default
  | some v => Exec.ofOption ("--" ++ name ++ ": bad value " ++ debug v) (parse v)

/-- The only positional word. -/
def only (args : Args) (msg : Str) : Exec Str Str :=
  match args.positional with
  | [word] => pure word
  | _ => Exec.err msg

theorem mem_of_only {args : Args} {msg word : Str} (h : args.only msg = .ok word) :
    word ∈ args.positional := by
  rw [only] at h
  split at h
  · next hwords =>
      rw [hwords, Exec.pure_eq_ok.mp h]
      exact List.mem_singleton_self _
  · cases h

end Args

end CalxMill
