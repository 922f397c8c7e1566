import MicroKernel.Lib.Bytes
import MicroKernel.Vfs.Mount

set_option autoImplicit false

/-! # What a read is for

A file is a sequence of bytes. A read of `size` bytes at `offset` gives as many of them as there are
from that offset on, whatever has been read before and whatever file system the file is on.
-/

namespace MicroKernel.Vfs

open MicroKernel.Lib Bytes

/-- A file: its bytes and how many of them there are. -/
structure File where
  bytes : Bytes
  size : Nat

namespace File

variable (f : File)

/-- How many bytes a read of `size` bytes at `offset` gives. -/
def available (offset size : Nat) : Nat := min size (f.size - offset)

/-- The number and the buffer that a read gives are the right ones. -/
structure Answers (offset size : Nat) (r : Except Error Nat × Bytes) : Prop where
  count : r.1 = .ok (f.available offset size)
  data : Filled r.2 f.bytes offset (f.available offset size)

variable {f} {offset size : Nat}

theorem available_eq_zero (h : size = 0 ∨ f.size ≤ offset) : f.available offset size = 0 := by
  unfold available
  omega

/-- Where there is nothing to read, any buffer will do. -/
theorem answers_zero (h : size = 0 ∨ f.size ≤ offset) (buffer : Bytes) :
    f.Answers offset size (.ok 0, buffer) := by
  have h0 := available_eq_zero h
  exact ⟨by rw [h0], by rw [h0]; exact filled_zero _ _ _⟩

end File

end MicroKernel.Vfs
