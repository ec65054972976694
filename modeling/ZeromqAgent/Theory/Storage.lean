import Mathlib.Data.List.Basic
import Mathlib.Logic.Function.Basic

/-!
# Blocks of storage

A store maps addresses to blocks; a released or never allocated address
has none. `read` yields the first cells of a block that is there and long
enough; it depends on that block only.
-/

namespace Storage

variable {α : Type*}

abbrev Store (α : Type*) := ℕ → Option (List α)

def put (m : Store α) (a : ℕ) (block : List α) : Store α := Function.update m a (some block)

def release (m : Store α) (a : ℕ) : Store α := Function.update m a none

def read (m : Store α) (a n : ℕ) : Option (List α) :=
  (m a).bind fun block => if n ≤ block.length then some (block.take n) else none

theorem read_congr {m m' : Store α} {a : ℕ} (h : m' a = m a) (n : ℕ) :
    read m' a n = read m a n := by
  simp [read, h]

@[simp] theorem read_release_self (m : Store α) (a n : ℕ) : read (release m a) a n = none := by
  simp [read, release]

end Storage
