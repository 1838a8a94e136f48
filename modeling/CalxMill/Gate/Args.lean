import CalxMill.Lib.Exec
import CalxMill.Rust.Str

/-!
# Command-line arguments

`Args.parse` splits the words after the command into flags and positional
words.  A flag named in `valueFlags` takes the next word as its value,
whatever that word is; any other `--name` is a flag without a value, and
`-o` always takes one.
-/

namespace CalxMill

open Lib Rust

structure Args where
  positional : List Str
  flags : List (Str × Option Str)
  deriving DecidableEq

namespace Args

def nil : Args := ⟨[], []⟩

def consFlag (name : Str) (v : Option Str) (args : Args) : Args :=
  { args with flags := (name, v) :: args.flags }

def consPositional (word : Str) (args : Args) : Args :=
  { args with positional := word :: args.positional }

def parse (valueFlags : List Str) : List Str → Exec Str Args
  | [] => .ok nil
  | a :: rest =>
      match a.dropPrefix? ("--" : Str) with
      | some name =>
          if name ∈ valueFlags then
            match rest with
            | [] => Exec.err ("--" ++ name ++ " needs a value")
            | v :: rest => (parse valueFlags rest).map (consFlag name (some v))
          else (parse valueFlags rest).map (consFlag name none)
      | none =>
          if a = "-o" then
            match rest with
            | [] => Exec.err "-o needs a value"
            | v :: rest => (parse valueFlags rest).map (consFlag "o" (some v))
          else (parse valueFlags rest).map (consPositional a)

/-- The value of the first flag of this name. -/
def value (args : Args) (name : Str) : Option Str :=
  (args.flags.find? (·.1 = name)).bind (·.2)

def has (args : Args) (name : Str) : Bool := args.flags.any (·.1 = name)

end Args

end CalxMill
