/-
# Net.Buffer — the byte buffer of a connection

`Buffer` is the class as written: one vector and two indices into it. The bytes
between the indices are the readable ones, and every operation is described by
what it does to them (`readable_append`, `readable_retrieve`, …), on any buffer
whose indices are in order (`Valid`). Sizes are natural numbers here: `append` and
`readFd` make room for bytes that are there, in memory beside the vector, and their
sums do not reach the range of `size_t`. The arithmetic of the calls whose argument can
be any `size_t` is in `BufferSpace`, with the proof that it comes to this where the
vector can grow as far as it is asked to.

The class compacts by a forward element-by-element copy inside one vector
(`copyWithin`). That copy reads only bytes it has not yet overwritten when it
moves them towards the front (`copyWithin_eq_overwrite`), and compaction happens
only then (`compacts_towards_front`).
-/
import LaliRpc.Base.Bytes
import LaliRpc.Theory.Memory

namespace LaliRpc.Net

set_option autoImplicit false

open Theory.Memory (length_splice take_splice splice_cons)

/-! ## The vector -/

/-- Store `data` from position `pos` on. -/
def overwrite (buf : Bytes) (pos : Nat) (data : Bytes) : Bytes :=
  buf.take pos ++ data ++ buf.drop (pos + data.length)

/-- `std::vector<char>::resize`. -/
def resize (buf : Bytes) (n : Nat) : Bytes := buf.take n ++ List.replicate (n - buf.length) 0

/-- `std::copy` of `n` bytes from `src` to `dst` of one vector, front to back. -/
def copyWithin (buf : Bytes) (src dst : Nat) : Nat → Bytes
  | 0 => buf
  | n + 1 => copyWithin (buf.set dst (buf.getD src 0)) (src + 1) (dst + 1) n

theorem length_overwrite {buf data : Bytes} {pos : Nat} (room : pos + data.length ≤ buf.length) :
    (overwrite buf pos data).length = buf.length := length_splice room

theorem length_resize (buf : Bytes) (n : Nat) : (resize buf n).length = n := by
  simp [resize]
  omega

/-- What lies before the stored bytes, followed by them. -/
theorem take_overwrite {buf data : Bytes} {pos : Nat} (room : pos + data.length ≤ buf.length) :
    (overwrite buf pos data).take (pos + data.length) = buf.take pos ++ data := take_splice room

theorem take_resize {buf : Bytes} {k n : Nat} (le : k ≤ buf.length) (le' : k ≤ n) :
    (resize buf n).take k = buf.take k := by
  rw [resize, List.take_append_of_le_length (by simp; omega), List.take_take,
    Nat.min_eq_left le']

theorem overwrite_cons {buf : Bytes} {pos : Nat} {c : UInt8} {data : Bytes}
    (room : pos < buf.length) :
    overwrite buf pos (c :: data) = overwrite (buf.set pos c) (pos + 1) data := splice_cons room

/-- Moving bytes towards the front reads each before it is overwritten. -/
theorem copyWithin_eq_overwrite {buf : Bytes} {src dst n : Nat} (front : dst ≤ src)
    (room : src + n ≤ buf.length) :
    copyWithin buf src dst n = overwrite buf dst ((buf.drop src).take n) := by
  induction n generalizing buf src dst with
  | zero => simp [copyWithin, overwrite]
  | succ n ih =>
      have here : (buf.drop src).take (n + 1) = buf.getD src 0 :: (buf.drop (src + 1)).take n := by
        rw [List.drop_eq_getElem_cons (by omega), List.take_succ_cons]
        simp [List.getD_eq_getElem?_getD, List.getElem?_eq_getElem (show src < buf.length by omega)]
      have unread : (buf.set dst (buf.getD src 0)).drop (src + 1) = buf.drop (src + 1) :=
        List.drop_set_of_lt (by omega)
      rw [copyWithin, ih (by omega) (by simp; omega), unread, here, overwrite_cons (by omega)]

/-! ## The class -/

def CheapPrepend : Nat := 8

def InitialSize : Nat := 1024

structure Buffer where
  buffer : Bytes
  readerIndex : Nat
  writerIndex : Nat

namespace Buffer

/-- `Buffer()`. -/
def fresh : Buffer := ⟨List.replicate (CheapPrepend + InitialSize) 0, CheapPrepend, CheapPrepend⟩

def readableBytes (b : Buffer) : Nat := b.writerIndex - b.readerIndex

/-- The difference of two `size_t`. -/
def writableBytes (b : Buffer) : Nat :=
  if b.writerIndex ≤ b.buffer.length then b.buffer.length - b.writerIndex
  else 2 ^ 64 - (b.writerIndex - b.buffer.length)

def prependableBytes (b : Buffer) : Nat := b.readerIndex

/-- The bytes in `[peek(), beginWrite())`. -/
def readable (b : Buffer) : Bytes := (b.buffer.take b.writerIndex).drop b.readerIndex

/-- `std::search` for CR LF: the offset of its first occurrence. -/
def searchCRLF : Bytes → Option Nat
  | c :: d :: rest => if c = 13 ∧ d = 10 then some 0 else (searchCRLF (d :: rest)).map (· + 1)
  | _ => none

/-- `findCRLF() - peek()`, `none` for the null pointer. -/
def findCRLF (b : Buffer) : Option Nat := searchCRLF b.readable

def retrieveAll (b : Buffer) : Buffer :=
  { b with readerIndex := CheapPrepend, writerIndex := CheapPrepend }

def retrieve (b : Buffer) (len : Nat) : Buffer :=
  if len < b.readableBytes then { b with readerIndex := b.readerIndex + len } else b.retrieveAll

/-- `retrieveUntil(peek() + distance)`: the difference becomes a `size_t`. -/
def retrieveUntil (b : Buffer) (distance : Int) : Buffer := b.retrieve (distance % 2 ^ 64).toNat

def retrieveAsString (b : Buffer) : Bytes × Buffer := (b.readable, b.retrieveAll)

/-- What `makeSpace` does where it does not enlarge the vector. -/
def compact (b : Buffer) : Buffer where
  buffer := copyWithin b.buffer b.readerIndex CheapPrepend b.readableBytes
  readerIndex := CheapPrepend
  writerIndex := CheapPrepend + b.readableBytes

/-- `makeSpace(len)` for `len` bytes that are there. -/
def makeRoom (b : Buffer) (len : Nat) : Buffer :=
  if b.writableBytes + b.prependableBytes < len + CheapPrepend then
    { b with buffer := resize b.buffer (b.writerIndex + len) }
  else b.compact

/-- `ensureWritableBytes(len)` for `len` bytes that are there. -/
def ensureRoom (b : Buffer) (len : Nat) : Buffer :=
  if b.writableBytes < len then b.makeRoom len else b

def hasWritten (b : Buffer) (len : Nat) : Buffer := { b with writerIndex := b.writerIndex + len }

/-- `append(data, len)`, the copy and the index change. -/
def append (b : Buffer) (data : Bytes) : Buffer :=
  let b := b.ensureRoom data.length
  { b with buffer := overwrite b.buffer b.writerIndex data }.hasWritten data.length

/-- `prepend(data, len)`, which callers use for at most `prependableBytes()` bytes. -/
def prepend (b : Buffer) (data : Bytes) : Buffer :=
  let front := b.readerIndex - data.length
  { b with buffer := overwrite b.buffer front data, readerIndex := front }

/-- `readFd` when `readv` delivered the bytes `got`: first into the writable
space, the rest through the stack buffer. (A failed `readv` changes nothing.) -/
def readFd (b : Buffer) (got : Bytes) : Buffer :=
  if got.length ≤ b.writableBytes then
    { b with buffer := overwrite b.buffer b.writerIndex got }.hasWritten got.length
  else
    let inPlace := overwrite b.buffer b.writerIndex (got.take b.writableBytes)
    { b with buffer := inPlace, writerIndex := b.buffer.length }.append (got.drop b.writableBytes)

/-- The indices are in order, inside the vector. -/
structure Valid (b : Buffer) : Prop where
  order : b.readerIndex ≤ b.writerIndex
  inside : b.writerIndex ≤ b.buffer.length
  cheap : CheapPrepend ≤ b.buffer.length

variable {b : Buffer}

theorem writableBytes_eq (inside : b.writerIndex ≤ b.buffer.length) :
    b.writableBytes = b.buffer.length - b.writerIndex := if_pos inside

theorem length_readable (h : b.Valid) : b.readable.length = b.readableBytes := by
  have := h.inside
  simp [readable, readableBytes]
  omega

theorem length_readable_le (b : Buffer) : b.readable.length ≤ b.readableBytes := by
  simp [readable, readableBytes]
  omega

theorem valid_fresh : fresh.Valid := ⟨by simp [fresh], by simp [fresh], by simp [fresh]⟩

@[simp] theorem readable_fresh : fresh.readable = [] := by simp [readable, fresh]

theorem valid_retrieveAll (h : b.Valid) : b.retrieveAll.Valid := ⟨by simp [retrieveAll], h.cheap, h.cheap⟩

@[simp] theorem readable_retrieveAll (b : Buffer) : b.retrieveAll.readable = [] := by
  simp [readable, retrieveAll]

@[simp] theorem readableBytes_retrieveAll (b : Buffer) : b.retrieveAll.readableBytes = 0 := by
  simp [readableBytes, retrieveAll]

theorem valid_retrieve (h : b.Valid) (len : Nat) : (b.retrieve len).Valid := by
  unfold retrieve
  split
  · rename_i lt
    refine ⟨?_, h.inside, h.cheap⟩
    simp [readableBytes] at lt ⊢
    omega
  · exact valid_retrieveAll h

/-- `retrieve` drops bytes at the front; asking for more than there are drops all. -/
theorem readable_retrieve (h : b.Valid) (len : Nat) :
    (b.retrieve len).readable = b.readable.drop len := by
  unfold retrieve
  split
  · simp [readable, List.drop_drop]
  · rename_i ge
    rw [readable_retrieveAll, List.drop_eq_nil_of_le]
    rw [length_readable h]
    omega

/-- Compaction moves the readable bytes strictly towards the front. -/
theorem compacts_towards_front {len : Nat} (short : b.writableBytes < len)
    (compacts : ¬ b.writableBytes + b.prependableBytes < len + CheapPrepend) :
    CheapPrepend < b.readerIndex := by
  simp only [prependableBytes] at compacts
  omega

theorem readable_eq_take_drop (h : b.Valid) :
    b.readable = (b.buffer.drop b.readerIndex).take b.readableBytes := by
  have := h.order
  rw [readable, List.drop_take, readableBytes]

/-- Compaction leaves the readable bytes right behind the prepend space. -/
theorem makeRoom_compacts {len : Nat} (h : b.Valid) (short : b.writableBytes < len)
    (compacts : ¬ b.writableBytes + b.prependableBytes < len + CheapPrepend) :
    b.makeRoom len =
      ⟨overwrite b.buffer CheapPrepend b.readable, CheapPrepend, CheapPrepend + b.readable.length⟩ := by
  have front := compacts_towards_front short compacts
  have room : b.readerIndex + b.readableBytes ≤ b.buffer.length := by
    have := h.order
    have := h.inside
    rw [readableBytes]
    omega
  rw [makeRoom, if_neg compacts, compact, copyWithin_eq_overwrite (by omega) room,
    ← readable_eq_take_drop h, length_readable h]

/-- Compaction never needs more room than the vector has. -/
theorem compacted_room {len : Nat} (h : b.Valid)
    (compacts : ¬ b.writableBytes + b.prependableBytes < len + CheapPrepend) :
    CheapPrepend + b.readable.length + len ≤ b.buffer.length := by
  have := h.order
  have := h.inside
  rw [writableBytes_eq h.inside] at compacts
  rw [length_readable h]
  simp only [prependableBytes, readableBytes] at *
  omega

theorem valid_makeRoom {len : Nat} (h : b.Valid) (short : b.writableBytes < len) :
    (b.makeRoom len).Valid := by
  by_cases grows : b.writableBytes + b.prependableBytes < len + CheapPrepend
  · have := h.inside
    have := h.cheap
    rw [writableBytes_eq h.inside] at short
    rw [makeRoom, if_pos grows]
    refine ⟨h.order, ?_, ?_⟩ <;> simp only [length_resize] at * <;> omega
  · have room := compacted_room h grows
    have len' : (overwrite b.buffer CheapPrepend b.readable).length = b.buffer.length :=
      length_overwrite (by omega)
    rw [makeRoom_compacts h short grows]
    exact ⟨by simp, by simp only [len']; omega, by simp only [len']; omega⟩

theorem readable_makeRoom {len : Nat} (h : b.Valid) (short : b.writableBytes < len) :
    (b.makeRoom len).readable = b.readable := by
  by_cases grows : b.writableBytes + b.prependableBytes < len + CheapPrepend
  · rw [makeRoom, if_pos grows]
    simp only [readable]
    rw [take_resize h.inside (by omega)]
  · have room := compacted_room h grows
    rw [makeRoom_compacts h short grows]
    rw [readable, take_overwrite (by omega), List.drop_left' (by simp; omega)]

theorem writableBytes_makeRoom {len : Nat} (h : b.Valid) (short : b.writableBytes < len) :
    len ≤ (b.makeRoom len).writableBytes := by
  by_cases grows : b.writableBytes + b.prependableBytes < len + CheapPrepend
  · rw [makeRoom, if_pos grows]
    simp [writableBytes, length_resize]
  · have room := compacted_room h grows
    have len' : (overwrite b.buffer CheapPrepend b.readable).length = b.buffer.length :=
      length_overwrite (by omega)
    rw [makeRoom_compacts h short grows, writableBytes_eq (by simp only [len']; omega)]
    simp only [len']
    omega

theorem valid_ensureRoom (h : b.Valid) (len : Nat) : (b.ensureRoom len).Valid := by
  unfold ensureRoom
  split
  · exact valid_makeRoom h ‹_›
  · exact h

@[simp] theorem readable_ensureRoom (h : b.Valid) (len : Nat) :
    (b.ensureRoom len).readable = b.readable := by
  unfold ensureRoom
  split
  · exact readable_makeRoom h ‹_›
  · rfl

theorem writableBytes_ensureRoom (h : b.Valid) (len : Nat) :
    len ≤ (b.ensureRoom len).writableBytes := by
  unfold ensureRoom
  split
  · exact writableBytes_makeRoom h ‹_›
  · omega

/-- Bytes stored in the writable space become readable after the others. -/
theorem readable_store (h : b.Valid) {data : Bytes} (room : data.length ≤ b.writableBytes) :
    ({ b with buffer := overwrite b.buffer b.writerIndex data }.hasWritten data.length).readable =
      b.readable ++ data := by
  have := h.order
  have := h.inside
  rw [writableBytes_eq h.inside] at room
  simp only [readable, hasWritten]
  rw [take_overwrite (by omega), List.drop_append_of_le_length (by simp; omega)]

theorem valid_store (h : b.Valid) {data : Bytes} (room : data.length ≤ b.writableBytes) :
    ({ b with buffer := overwrite b.buffer b.writerIndex data }.hasWritten data.length).Valid := by
  have := h.order
  have := h.inside
  have := h.cheap
  rw [writableBytes_eq h.inside] at room
  have len : (overwrite b.buffer b.writerIndex data).length = b.buffer.length :=
    length_overwrite (by omega)
  refine ⟨?_, ?_, ?_⟩ <;> simp only [hasWritten, len] <;> omega

theorem valid_append (h : b.Valid) (data : Bytes) : (b.append data).Valid :=
  valid_store (valid_ensureRoom h _) (writableBytes_ensureRoom h _)

@[simp] theorem readable_append (h : b.Valid) (data : Bytes) :
    (b.append data).readable = b.readable ++ data := by
  have stored := readable_store (valid_ensureRoom h data.length)
    (writableBytes_ensureRoom h data.length)
  rwa [readable_ensureRoom h] at stored

/-- A read, wherever its bytes went first, appends what the kernel delivered. -/
theorem valid_readable_readFd (h : b.Valid) (got : Bytes) :
    (b.readFd got).Valid ∧ (b.readFd got).readable = b.readable ++ got := by
  unfold readFd
  split
  · rename_i room
    exact ⟨valid_store h room, readable_store h room⟩
  · rename_i more
    have len : (got.take b.writableBytes).length = b.writableBytes := by
      simp
      omega
    have room : (got.take b.writableBytes).length ≤ b.writableBytes := by omega
    have full : b.writerIndex + (got.take b.writableBytes).length = b.buffer.length := by
      have := h.inside
      rw [len, writableBytes_eq h.inside]
      omega
    have valid := valid_store h room
    have stored := readable_store h room
    simp only [hasWritten, full] at valid stored
    refine ⟨valid_append valid _, ?_⟩
    rw [readable_append valid, stored, List.append_assoc, List.take_append_drop]

theorem valid_readFd (h : b.Valid) (got : Bytes) : (b.readFd got).Valid :=
  (valid_readable_readFd h got).1

@[simp] theorem readable_readFd (h : b.Valid) (got : Bytes) :
    (b.readFd got).readable = b.readable ++ got :=
  (valid_readable_readFd h got).2

theorem drop_overwrite {buf data : Bytes} {pos : Nat} (room : pos ≤ buf.length) :
    (overwrite buf pos data).drop pos = data ++ buf.drop (pos + data.length) := by
  rw [overwrite, List.append_assoc, List.drop_left' (by simp; omega)]

theorem valid_prepend (h : b.Valid) {data : Bytes} (room : data.length ≤ b.prependableBytes) :
    (b.prepend data).Valid := by
  have := h.order
  have := h.inside
  have := h.cheap
  simp only [prependableBytes] at room
  have len : (overwrite b.buffer (b.readerIndex - data.length) data).length = b.buffer.length :=
    length_overwrite (by omega)
  refine ⟨?_, ?_, ?_⟩ <;> simp only [prepend, len] <;> omega

/-- Bytes stored right in front of the readable ones become the first of them. -/
theorem readable_prepend (h : b.Valid) {data : Bytes} (room : data.length ≤ b.prependableBytes) :
    (b.prepend data).readable = data ++ b.readable := by
  have := h.order
  have := h.inside
  simp only [prependableBytes] at room
  have front : b.readerIndex - data.length + data.length = b.readerIndex := by omega
  have behind : b.writerIndex - (b.readerIndex - data.length) =
      data.length + (b.writerIndex - b.readerIndex) := by omega
  simp only [readable, prepend]
  rw [List.drop_take, drop_overwrite (by omega), front, behind, List.take_length_add_append,
    List.drop_take]

/-! ## Finding the end of a line -/

/-- No CR LF without a CR that something follows. -/
theorem searchCRLF_none {s : Bytes} (noCR : 13 ∉ s.dropLast) : searchCRLF s = none := by
  induction s with
  | nil => rfl
  | cons c s ih =>
      cases s with
      | nil => rfl
      | cons d s =>
          rw [List.dropLast_cons_of_ne_nil (by simp), List.mem_cons, not_or] at noCR
          have hc : c ≠ 13 := fun h => noCR.1 h.symm
          simp [searchCRLF, hc, ih noCR.2]

/-- A text without CR LF is a line in front of one. -/
theorem searchCRLF_end {line : Bytes} (whole : searchCRLF line = none) (rest : Bytes) :
    searchCRLF (line ++ crlf ++ rest) = some line.length := by
  induction line with
  | nil => simp [searchCRLF, crlf]
  | cons c line ih =>
      cases line with
      | nil => simp [searchCRLF, crlf]
      | cons d line =>
          rw [searchCRLF] at whole
          split at whole
          · cases whole
          · rename_i going
            have found := ih (Option.map_eq_none_iff.mp whole)
            show searchCRLF (c :: d :: (line ++ crlf ++ rest)) = _
            rw [searchCRLF, if_neg going]
            exact congrArg (Option.map (· + 1)) found

/-- A line without CR ends at the CR LF behind it. -/
theorem searchCRLF_line {line : Bytes} (noCR : 13 ∉ line) (rest : Bytes) :
    searchCRLF (line ++ crlf ++ rest) = some line.length :=
  searchCRLF_end (searchCRLF_none fun mem => noCR (List.dropLast_subset line mem)) rest

/-- Where the search stops, CR LF stands. -/
theorem searchCRLF_some {s : Bytes} {i : Nat} (found : searchCRLF s = some i) :
    i + 2 ≤ s.length ∧ s = s.take i ++ crlf ++ s.drop (i + 2) := by
  induction s generalizing i with
  | nil => simp [searchCRLF] at found
  | cons c s ih =>
      cases s with
      | nil => simp [searchCRLF] at found
      | cons d s =>
          rw [searchCRLF] at found
          split at found
          · rename_i ends
            obtain rfl : 0 = i := by simpa using found
            simp [ends.1, ends.2, crlf]
          · obtain ⟨k, hk, rfl⟩ := Option.map_eq_some_iff.mp found
            obtain ⟨le, eq⟩ := ih hk
            refine ⟨by simpa using le, ?_⟩
            simpa using eq

/-- A line at the front stays there when more bytes come in. -/
theorem searchCRLF_append {s : Bytes} {i : Nat} (found : searchCRLF s = some i) (t : Bytes) :
    searchCRLF (s ++ t) = some i := by
  induction s generalizing i with
  | nil => cases found
  | cons c s ih =>
      cases s with
      | nil => cases found
      | cons d s =>
          rw [searchCRLF] at found
          rw [List.cons_append, List.cons_append, searchCRLF]
          split at found
          · rename_i ends
            rw [if_pos ends]
            exact found
          · rename_i going
            obtain ⟨k, hk, rfl⟩ := Option.map_eq_some_iff.mp found
            rw [if_neg going]
            exact congrArg (Option.map (· + 1)) (ih hk)

/-- In front of the first CR LF there is none. -/
theorem searchCRLF_take {s : Bytes} {i : Nat} (found : searchCRLF s = some i) :
    searchCRLF (s.take i) = none := by
  cases earlier : searchCRLF (s.take i) with
  | none => rfl
  | some j =>
      have same := searchCRLF_append earlier (s.drop i)
      rw [List.take_append_drop, found] at same
      obtain rfl : i = j := Option.some.inj same
      have inside := (searchCRLF_some earlier).1
      rw [List.length_take] at inside
      omega

/-- Only LF ends a line. -/
theorem searchCRLF_concat {s : Bytes} (noLine : searchCRLF s = none) {c : UInt8} (ne : c ≠ 10) :
    searchCRLF (s ++ [c]) = none := by
  induction s with
  | nil => rfl
  | cons d s ih =>
      cases s with
      | nil => simp [searchCRLF, ne]
      | cons e s =>
          rw [searchCRLF] at noLine
          rw [List.cons_append, List.cons_append, searchCRLF]
          split at noLine
          · cases noLine
          · rename_i going
            rw [if_neg going, Option.map_eq_none_iff]
            exact ih (Option.map_eq_none_iff.mp noLine)

end Buffer

end LaliRpc.Net
