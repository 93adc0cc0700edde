/-
# Base.FixedBuffer — a buffer of fixed size

A `FixedBuffer` is the bytes written so far. `append` takes a text when it leaves a
byte free, or not at all; `print` is what the formatting functions do at `getcur()`
when there is room for the terminator too.
-/
import LaliRpc.Base.Bytes

namespace LaliRpc.Base

set_option autoImplicit false

def kSmallBuffer : Nat := 4000

def kLargerBuffer : Nat := 4000 * 1000

/-- `FixedBuffer<SIZE>`: the bytes between `data_` and `cur_`. -/
structure FixedBuffer (SIZE : Nat) where
  data : Bytes
  fits : data.length ≤ SIZE

namespace FixedBuffer

variable {SIZE : Nat}

def fresh : FixedBuffer SIZE := ⟨[], Nat.zero_le _⟩

def avail (b : FixedBuffer SIZE) : Nat := SIZE - b.data.length

def append (b : FixedBuffer SIZE) (buf : Bytes) : FixedBuffer SIZE :=
  if room : b.avail > buf.length then
    ⟨b.data ++ buf, by
      simp only [avail, List.length_append] at room ⊢
      omega⟩
  else b

/-- `text` and its terminator written at `getcur()`, then `add(len)`; `none` when that
writes behind `data_`. -/
def print (b : FixedBuffer SIZE) (text : Bytes) : Option (FixedBuffer SIZE) :=
  if room : text.length + 1 ≤ b.avail then
    some ⟨b.data ++ text, by
      simp only [avail, List.length_append] at room ⊢
      omega⟩
  else none

def reset (_b : FixedBuffer SIZE) : FixedBuffer SIZE := fresh

theorem data_append {b : FixedBuffer SIZE} {buf : Bytes} (room : b.avail > buf.length) :
    (b.append buf).data = b.data ++ buf := by
  simp [append, room]

theorem data_append_eq (b : FixedBuffer SIZE) (buf : Bytes) :
    (b.append buf).data =
      if buf.length + 1 ≤ SIZE - b.data.length then b.data ++ buf else b.data := by
  by_cases room : buf.length + 1 ≤ SIZE - b.data.length
  · rw [if_pos room]
    exact data_append room
  · have full : ¬ b.avail > buf.length := room
    rw [if_neg room, append, dif_neg full]

theorem print_spec {b : FixedBuffer SIZE} {text : Bytes} (room : text.length + 1 ≤ b.avail) :
    ∃ b', b.print text = some b' ∧ b'.data = b.data ++ text := by
  rw [print, dif_pos room]
  exact ⟨_, rfl, rfl⟩

/-- A message shorter than a buffer fits into an empty one. -/
theorem avail_of_empty {b : FixedBuffer SIZE} {buf : Bytes} (empty : b.data = [])
    (short : buf.length < SIZE) : b.avail > buf.length := by
  simpa [avail, empty] using short

end FixedBuffer

end LaliRpc.Base
