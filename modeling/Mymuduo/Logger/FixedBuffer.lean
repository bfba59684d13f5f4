import Mathlib.Data.List.Basic

/-! # FixedBuffer

    A buffer of `SIZE` bytes with a write position.  What stands behind `cur_` is
    not looked at by any reader, so the content is the list of bytes before it;
    `bzero` does not change that.
-/

def kSmallBuffer : Nat := 4096

def kLargeBuffer : Nat := 4096 * 1024

structure FixedBuffer (SIZE : Nat) where
  /-- The bytes from `data_` up to `cur_`. -/
  data : List UInt8
  fits : data.length ≤ SIZE
  deriving DecidableEq

namespace FixedBuffer

variable {SIZE : Nat}

def ctor : FixedBuffer SIZE := ⟨[], Nat.zero_le SIZE⟩

def avail (b : FixedBuffer SIZE) : Nat := SIZE - b.data.length

/-- `append(buf, len)`; `buf` are the bytes readable at the pointer.  Without
    enough room nothing is done. -/
def append (b : FixedBuffer SIZE) (buf : List UInt8) (len : Nat) : FixedBuffer SIZE :=
  if h : len < b.avail then
    ⟨b.data ++ buf.take len, by
      have hfits := b.fits
      have htake := List.length_take_le len buf
      unfold avail at h
      rw [List.length_append]
      omega⟩
  else b

def reset (_ : FixedBuffer SIZE) : FixedBuffer SIZE := ctor

@[simp] theorem ctor_data : (ctor : FixedBuffer SIZE).data = [] := rfl

@[simp] theorem reset_data (b : FixedBuffer SIZE) : b.reset.data = [] := rfl

theorem append_data {b : FixedBuffer SIZE} {len : Nat} (h : len < b.avail) (buf : List UInt8) :
    (b.append buf len).data = b.data ++ buf.take len := by
  rw [append, dif_pos h]

/-- A buffer without content takes every line below its size. -/
theorem append_data_of_empty {b : FixedBuffer SIZE} {len : Nat} (hb : b.data = [])
    (h : len < SIZE) (buf : List UInt8) : (b.append buf len).data = buf.take len := by
  have havail : len < b.avail := by
    unfold avail
    rw [hb]
    exact h
  rw [append_data havail, hb, List.nil_append]

end FixedBuffer
