/-
# Net.BufferSpace — room for any number of bytes

`ensureWritableBytes` takes any `size_t`, and `makeSpace` compares and resizes by sums of
sizes, which wrap. These are the two functions with that arithmetic, and with what
`std::vector` does when it is asked for more than `max_size()` elements; `append?` and
`readFd?` are `append` and `readFd` over them. A call ends in a `Fault` where it throws or
would write outside the vector.

`Met` says when a request for room can be met: the room is there, or compaction makes it,
or the vector can be enlarged by it. Then nothing wraps, and the functions are those of
`Buffer` (`ensureWritableBytes_eq`, `append?_eq`, `readFd?_eq`). Exactly then a call does
what it is for (`ensures_iff`).
-/
import LaliRpc.Net.Buffer
import LaliRpc.Theory.Fueled

namespace LaliRpc.Net

open LaliRpc.Theory

set_option autoImplicit false

/-- `std::vector<char>::max_size()`, where `ptrdiff_t` has 64 bits. -/
def maxSize : Nat := 2 ^ 63 - 1

/-- How a call on a buffer ends that does not return. -/
inductive Fault where
  /-- `std::length_error` is thrown. -/
  | lengthError
  /-- A byte is stored outside the vector. -/
  | outside
  deriving DecidableEq, Repr

/-- `std::vector<char>::resize`, up to what a vector can hold. -/
def resize? (buf : Bytes) (n : Nat) : Except Fault Bytes :=
  if maxSize < n then .error .lengthError else .ok (resize buf n)

namespace Buffer

def makeSpace (b : Buffer) (len : Nat) : Except Fault Buffer :=
  if (b.writableBytes + b.prependableBytes) % 2 ^ 64 < (len + CheapPrepend) % 2 ^ 64 then
    (resize? b.buffer ((b.writerIndex + len) % 2 ^ 64)).map fun buffer => { b with buffer }
  else if b.buffer.length < CheapPrepend + b.readableBytes then .error .outside
  else .ok b.compact

def ensureWritableBytes (b : Buffer) (len : Nat) : Except Fault Buffer :=
  if b.writableBytes < len then b.makeSpace len else .ok b

/-- `std::copy` to `beginWrite()`, and `hasWritten`. -/
def store? (b : Buffer) (data : Bytes) : Except Fault Buffer :=
  if b.buffer.length < b.writerIndex + data.length then .error .outside
  else .ok ({ b with buffer := overwrite b.buffer b.writerIndex data }.hasWritten data.length)

def append? (b : Buffer) (data : Bytes) : Except Fault Buffer := do
  let b ← b.ensureWritableBytes data.length
  b.store? data

/-- The buffer as `readFd` leaves it for `append` when it has filled the vector. -/
def filled (b : Buffer) (got : Bytes) : Buffer :=
  { b with
    buffer := overwrite b.buffer b.writerIndex (got.take b.writableBytes)
    writerIndex := b.buffer.length }

def readFd? (b : Buffer) (got : Bytes) : Except Fault Buffer :=
  if got.length ≤ b.writableBytes then
    .ok ({ b with buffer := overwrite b.buffer b.writerIndex got }.hasWritten got.length)
  else (b.filled got).append? (got.drop b.writableBytes)

/-- The request for room can be met. -/
def Met (b : Buffer) (len : Nat) : Prop :=
  len ≤ b.writableBytes ∨ len + CheapPrepend ≤ b.writableBytes + b.prependableBytes ∨
    b.writerIndex + len ≤ maxSize

instance (b : Buffer) (len : Nat) : Decidable (b.Met len) :=
  inferInstanceAs (Decidable (_ ∨ _ ∨ _))

/-- What `ensureWritableBytes(len)` is for. -/
def Ensures (b : Buffer) (len : Nat) : Prop :=
  ∃ b', b.ensureWritableBytes len = .ok b' ∧ b'.Valid ∧ b'.readable = b.readable ∧
    len ≤ b'.writableBytes

/-- `ensureWritableBytes(len)` moves the readable bytes. -/
def Compacts (b : Buffer) (len : Nat) : Prop :=
  b.writableBytes < len ∧
    ¬ (b.writableBytes + b.prependableBytes) % 2 ^ 64 < (len + CheapPrepend) % 2 ^ 64

/-- The indices are in order, and the vector is not longer than a vector can be. -/
structure Sized (b : Buffer) : Prop where
  valid : b.Valid
  small : b.buffer.length ≤ maxSize

variable {b : Buffer} {len : Nat}

theorem room_le (h : b.Valid) : b.writableBytes + b.prependableBytes ≤ b.buffer.length := by
  have order := h.order
  have inside := h.inside
  rw [writableBytes_eq inside, prependableBytes]
  omega

/-- Where a request can be met no sum wraps. -/
theorem no_wrap (h : b.Sized) (met : b.Met len) :
    (b.writableBytes + b.prependableBytes) % 2 ^ 64 = b.writableBytes + b.prependableBytes ∧
      (len + CheapPrepend) % 2 ^ 64 = len + CheapPrepend := by
  have room := room_le h.valid
  have small := h.small
  simp only [maxSize] at small
  have short : len + CheapPrepend < 2 ^ 64 := by
    have cheap : CheapPrepend = 8 := rfl
    rcases met with there | compacted | enlarged
    · omega
    · omega
    · simp only [maxSize] at enlarged
      omega
  exact ⟨Nat.mod_eq_of_lt (by omega), Nat.mod_eq_of_lt short⟩

theorem length_copyWithin (buf : Bytes) (src dst n : Nat) :
    (copyWithin buf src dst n).length = buf.length := by
  induction n generalizing buf src dst with
  | zero => rfl
  | succ n ih => rw [copyWithin, ih, List.length_set]

theorem length_compact (b : Buffer) : b.compact.buffer.length = b.buffer.length :=
  length_copyWithin b.buffer b.readerIndex CheapPrepend b.readableBytes

/-- **The code on a request that can be met**: it makes the room. -/
theorem ensureWritableBytes_eq (h : b.Sized) (met : b.Met len) :
    b.ensureWritableBytes len = .ok (b.ensureRoom len) ∧
      (b.ensureRoom len).buffer.length ≤ maxSize := by
  obtain ⟨sum, sum'⟩ := no_wrap h met
  rw [ensureWritableBytes, ensureRoom]
  split
  · rename_i short
    rw [makeSpace, makeRoom, sum, sum']
    split
    · rename_i grows
      have enlarged : b.writerIndex + len ≤ maxSize := by
        rcases met with there | compacted | enlarged
        · exact absurd short (Nat.not_lt.mpr there)
        · exact absurd grows (Nat.not_lt.mpr compacted)
        · exact enlarged
      have whole : (b.writerIndex + len) % 2 ^ 64 = b.writerIndex + len := by
        refine Nat.mod_eq_of_lt ?_
        simp only [maxSize] at enlarged
        omega
      rw [whole, resize?, if_neg (Nat.not_lt.mpr enlarged)]
      refine ⟨rfl, ?_⟩
      rw [length_resize]
      exact enlarged
    · rename_i compacts
      have room := compacted_room h.valid compacts
      rw [length_readable h.valid] at room
      rw [if_neg (by omega), length_compact]
      exact ⟨rfl, h.small⟩
  · exact ⟨rfl, h.small⟩

theorem sized_ensureRoom (h : b.Sized) (met : b.Met len) : (b.ensureRoom len).Sized :=
  ⟨valid_ensureRoom h.valid len, (ensureWritableBytes_eq h met).2⟩

theorem store?_eq (h : b.Valid) {data : Bytes} (room : data.length ≤ b.writableBytes) :
    b.store? data =
      .ok ({ b with buffer := overwrite b.buffer b.writerIndex data }.hasWritten data.length) := by
  have inside := h.inside
  rw [writableBytes_eq inside] at room
  rw [store?, if_neg (by omega)]

theorem length_store (h : b.Valid) {data : Bytes} (room : data.length ≤ b.writableBytes) :
    (overwrite b.buffer b.writerIndex data).length = b.buffer.length := by
  have inside := h.inside
  rw [writableBytes_eq inside] at room
  exact length_overwrite (by omega)

theorem sized_store (h : b.Sized) {data : Bytes} (room : data.length ≤ b.writableBytes) :
    ({ b with buffer := overwrite b.buffer b.writerIndex data }.hasWritten data.length).Sized := by
  refine ⟨valid_store h.valid room, ?_⟩
  show (overwrite b.buffer b.writerIndex data).length ≤ maxSize
  rw [length_store h.valid room]
  exact h.small

theorem append?_eq (h : b.Sized) {data : Bytes} (met : b.Met data.length) :
    b.append? data = .ok (b.append data) ∧ (b.append data).Sized := by
  have room := writableBytes_ensureRoom h.valid data.length
  have sized := sized_ensureRoom h met
  refine ⟨?_, sized_store sized room⟩
  rw [append?, (ensureWritableBytes_eq h met).1]
  exact store?_eq sized.valid room

theorem sized_filled (h : b.Sized) {got : Bytes} (more : ¬ got.length ≤ b.writableBytes) :
    (b.filled got).Sized := by
  have part : (got.take b.writableBytes).length = b.writableBytes :=
    List.length_take_of_le (Nat.le_of_not_le more)
  have same := length_store h.valid (Nat.le_of_eq part)
  have order := h.valid.order
  have inside := h.valid.inside
  refine ⟨⟨Nat.le_trans order inside, Nat.le_of_eq same.symm, ?_⟩, ?_⟩
  · exact Nat.le_trans h.valid.cheap (Nat.le_of_eq same.symm)
  · exact Nat.le_trans (Nat.le_of_eq same) h.small

theorem readFd?_eq (h : b.Sized) {got : Bytes}
    (met : ¬ got.length ≤ b.writableBytes →
      (b.filled got).Met (got.drop b.writableBytes).length) :
    b.readFd? got = .ok (b.readFd got) ∧ (b.readFd got).Sized := by
  rw [readFd?, readFd]
  split
  · rename_i room
    exact ⟨rfl, sized_store h room⟩
  · rename_i more
    exact append?_eq (sized_filled h more) (met more)

/-! ## Requests that cannot be met -/

theorem length_of_resize? {buf buf' : Bytes} {n : Nat} (done : resize? buf n = .ok buf') :
    n ≤ maxSize ∧ buf'.length = n := by
  rw [resize?] at done
  split at done
  · cases done
  · rename_i small
    obtain rfl := Except.ok.inj done
    exact ⟨Nat.not_lt.mp small, length_resize buf n⟩

/-- **`ensureWritableBytes` does what it is for exactly when the request can be met.** -/
theorem ensures_iff (h : b.Sized) (len : Nat) : b.Ensures len ↔ b.Met len := by
  constructor
  · rintro ⟨b', done, valid, same, room⟩
    have small := h.small
    have inside := h.valid.inside
    have cheap : CheapPrepend = 8 := rfl
    by_cases short : b.writableBytes < len
    · rw [ensureWritableBytes, if_pos short, makeSpace] at done
      split at done
      · -- the vector has been resized to the sum, and still holds the data
        obtain ⟨buffer, resized, rfl⟩ := except_map_eq_ok.mp done
        obtain ⟨le, length⟩ := length_of_resize? resized
        have inside' : b.writerIndex ≤ buffer.length := valid.inside
        have room' : len ≤ buffer.length - b.writerIndex := by
          rw [writableBytes_eq inside'] at room
          exact room
        exact .inr (.inr (by omega))
      · rename_i compacts
        split at done
        · cases done
        · rename_i fits
          obtain rfl := Except.ok.inj done
          have order := h.valid.order
          have writer : b.compact.writerIndex = CheapPrepend + b.readableBytes := rfl
          rw [writableBytes_eq valid.inside, length_compact, writer, readableBytes] at room
          rw [readableBytes] at fits
          refine .inr (.inl ?_)
          rw [writableBytes_eq inside, prependableBytes]
          omega
    · exact .inl (Nat.not_lt.mp short)
  · intro met
    exact ⟨_, (ensureWritableBytes_eq h met).1, valid_ensureRoom h.valid len,
      readable_ensureRoom h.valid len, writableBytes_ensureRoom h.valid len⟩

end Buffer

end LaliRpc.Net
