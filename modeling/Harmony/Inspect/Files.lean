/-
# Files

A file is its bytes, of which there are few enough that every offset is a signed number of 64
bits. A read inside the file gives the bytes there, and one that reaches past its end fails.
-/

import Mathlib.Algebra.Group.Nat.Defs
import Harmony.Library.Spans

namespace Harmony.Inspect

structure File where
  bytes : List UInt8
  length_lt : bytes.length < 2 ^ 63

namespace File

def size (file : File) : ℕ := file.bytes.length

def readExactAt (file : File) (count offset : ℕ) : Option (List UInt8) :=
  if offset + count ≤ file.size then some ((file.bytes.drop offset).take count) else none

/-- What one read gives: at least a byte where there is one, and no more than the system grants
at the position. -/
def read (file : File) (grant : ℕ → ℕ) (count position : ℕ) : List UInt8 :=
  (file.bytes.drop position).take (min count (grant position + 1))

variable {file : File} {count offset : ℕ}

theorem size_lt (file : File) : file.size < 2 ^ 63 := file.length_lt

theorem readExactAt_of_le (h : offset + count ≤ file.size) :
    file.readExactAt count offset = some ((file.bytes.drop offset).take count) :=
  if_pos h

theorem readExactAt_eq_some {data : List UInt8} :
    file.readExactAt count offset = some data ↔
      offset + count ≤ file.size ∧ (file.bytes.drop offset).take count = data := by
  rw [readExactAt]
  split_ifs with h
  · simp [h]
  · simp [h]

/-- A read gives some of the bytes there. -/
theorem exists_read (grant : ℕ → ℕ) (hcount : 0 < count) :
    ∃ n, 0 < n ∧ n ≤ count ∧
      file.read grant count offset = Spans.cut file.bytes offset (offset + n) := by
  refine ⟨min count (grant offset + 1), ?_, Nat.min_le_left _ _, ?_⟩
  · exact Nat.lt_min.mpr ⟨hcount, Nat.succ_pos _⟩
  · rw [read, Spans.cut, Nat.add_sub_cancel_left]

theorem length_readExactAt {data : List UInt8} (h : file.readExactAt count offset = some data) :
    data.length = count := by
  obtain ⟨hle, rfl⟩ := readExactAt_eq_some.mp h
  rw [size] at hle
  rw [List.length_take, List.length_drop]
  omega

end File

end Harmony.Inspect
