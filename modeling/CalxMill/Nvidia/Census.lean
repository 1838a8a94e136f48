import CalxMill.Lib.Assoc
import CalxMill.Rust.Str

/-!
# The op-mix census

An insertion-ordered counter of mnemonics.
-/

namespace CalxMill.Nvidia

open Lib Rust

structure Census where
  items : List (Str × ℕ)
  deriving DecidableEq

namespace Census

def empty : Census := ⟨[]⟩

def add (census : Census) (op : Str) (n : ℕ) : Census :=
  ⟨Assoc.alter (fun count ↦ count.getD 0 + n) op census.items⟩

end Census

end CalxMill.Nvidia
