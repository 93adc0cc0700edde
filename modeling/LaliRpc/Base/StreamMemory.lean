/-
# Base.StreamMemory — a log stream in memory

`Logstream` down to its pointers: `data_` is a block of 4000 bytes and `cur_` an address,
`append` copies with `memcpy`, the formatting functions write at `getcur()` before they
know how much, and `avail` is a difference of pointers taken as a `size_t`, huge if `cur_`
were behind the end. It never is: an `append` leaves a byte free, a number takes fewer
than the 32 bytes that are free, so the block shows the buffer of `Logstream` throughout
(`put_shows`) and nothing is written outside of it (`stream_contained`).
-/
import LaliRpc.Base.Convert

namespace LaliRpc.Base

set_option autoImplicit false

open Theory.Memory (storeAll splice length_splice take_splice storeAll_eq)

/-- `FixedBuffer<kSmallBuffer>`: `data_`, and `cur_ - data_`. -/
structure RawStream where
  data : Bytes
  cur : Nat

namespace RawStream

/-- A new stream; `data_` is initialized. -/
def fresh : RawStream := ⟨List.replicate kSmallBuffer 0, 0⟩

/-- `static_cast<size_t>(end() - cur_)` -/
def avail (s : RawStream) : Nat := (((kSmallBuffer : Int) - s.cur) % 2 ^ 64).toNat

def length (s : RawStream) : Nat := s.cur

/-- What `F_output` is passed. -/
def contents (s : RawStream) : Bytes := s.data.take s.cur

/-- `append(buf, len)`; `none` when `memcpy` writes outside `data_`, here and below. -/
def append (s : RawStream) (buf : Bytes) : Option RawStream :=
  if s.avail > buf.length then
    (storeAll s.data s.cur buf).map fun data => ⟨data, s.cur + buf.length⟩
  else some s

def formatInteger {T : Type} [Integral T] (s : RawStream) (v : T) : Option RawStream :=
  if s.avail ≥ kMaxNumericSize then
    (convertAt s.data s.cur v).map fun written => ⟨written.1, s.cur + written.2⟩
  else some s

/-- `snprintf` writes what fits in front of a terminator and returns the whole length. -/
def formatDouble (s : RawStream) (v : Double) : Option RawStream :=
  if s.avail ≥ kMaxNumericSize then
    (storeAll s.data s.cur (v.val.take (kMaxNumericSize - 1) ++ [0])).map fun data =>
      ⟨data, s.cur + v.val.length⟩
  else some s

/-- `operator<<`. -/
def put (s : RawStream) : Operand → Option RawStream
  | .bool v => s.append (if v then ascii "1" else ascii "0")
  | .short v => s.formatInteger v.toInt32
  | .unsignedShort v => s.formatInteger v.toUInt32
  | .int v => s.formatInteger v
  | .unsignedInt v => s.formatInteger v
  | .long v => s.formatInteger v
  | .unsignedLong v => s.formatInteger v
  | .longLong v => s.formatInteger v
  | .unsignedLongLong v => s.formatInteger v
  | .float v => s.formatDouble v
  | .double v => s.formatDouble v
  | .char v => s.append [v]
  | .cstr v => s.append (Logstream.cstring v)
  | .unsignedCstr v => s.append (Logstream.cstring v)
  | .string v => s.append v

def putAll (s : RawStream) (os : List Operand) : Option RawStream := os.foldlM put s

example : (fresh.putAll [.string (ascii "n="), .short (-7), .bool true]).map contents =
    some (ascii "n=-71") := by decide +kernel

/-! ## What the block shows -/

/-- The bytes up to `cur_` are `d`, and one more is free. -/
structure Shows (s : RawStream) (d : Bytes) : Prop where
  sized : s.data.length = kSmallBuffer
  cur : s.cur = d.length
  contents : s.contents = d
  spare : d.length < kSmallBuffer

theorem shows_fresh : fresh.Shows [] where
  sized := List.length_replicate
  cur := rfl
  contents := rfl
  spare := by decide

section Put

variable {s : RawStream} {d text tail : Bytes}

/-- The difference of the pointers is not negative. -/
theorem Shows.avail (shown : s.Shows d) : s.avail = kSmallBuffer - d.length := by
  have size : kSmallBuffer = 4000 := rfl
  have spare := shown.spare
  rw [RawStream.avail, shown.cur]
  omega

/-- **A text written at `cur_`**, with `cur_` moved behind it, in front of what else was
written. -/
theorem Shows.written (shown : s.Shows d) (room : d.length + (text ++ tail).length ≤ kSmallBuffer)
    (spare : d.length + text.length < kSmallBuffer) :
    Shows ⟨splice s.data s.cur (text ++ tail), s.cur + text.length⟩ (d ++ text) := by
  have fits : s.cur + (text ++ tail).length ≤ s.data.length := by
    rw [shown.cur, shown.sized]
    exact room
  refine ⟨?_, ?_, ?_, ?_⟩
  · rw [length_splice fits]
    exact shown.sized
  · rw [shown.cur, List.length_append]
  · have all := take_splice fits
    have front := congrArg (List.take (s.cur + text.length)) all
    rw [List.take_take, Nat.min_eq_left (by rw [List.length_append]; omega),
      ← List.append_assoc] at front
    have size : (s.data.take s.cur ++ text).length = s.cur + text.length := by
      rw [List.length_append, List.length_take, shown.sized, shown.cur,
        Nat.min_eq_left (Nat.le_of_lt shown.spare)]
    rw [List.take_left' size] at front
    exact front.trans (congrArg (· ++ text) shown.contents)
  · rw [List.length_append]
    exact spare

theorem append_shows (shown : s.Shows d) (buf : Bytes) :
    ∃ s', s.append buf = some s' ∧
      s'.Shows (if buf.length + 1 ≤ kSmallBuffer - d.length then d ++ buf else d) := by
  have avail := shown.avail
  by_cases room : buf.length + 1 ≤ kSmallBuffer - d.length
  · have written := @Shows.written s d buf [] shown (by rw [List.append_nil]; omega) (by omega)
    rw [List.append_nil] at written
    rw [if_pos room]
    refine ⟨_, ?_, written⟩
    rw [RawStream.append, if_pos (by omega), storeAll_eq, Option.map_some]
    rw [shown.cur, shown.sized]
    omega
  · rw [if_neg room]
    refine ⟨s, ?_, shown⟩
    rw [RawStream.append, if_neg (by omega)]

theorem formatInteger_shows {T : Type} [Integral T] (shown : s.Shows d) (v : T) :
    ∃ s', s.formatInteger v = some s' ∧
      s'.Shows (if kMaxNumericSize ≤ kSmallBuffer - d.length then d ++ decimal (Integral.value v)
        else d) := by
  have avail := shown.avail
  have numeric : kMaxNumericSize = 32 := rfl
  have short := length_decimal_le (Integral.low v) (Integral.high v)
  by_cases room : kMaxNumericSize ≤ kSmallBuffer - d.length
  · have written := @Shows.written s d (decimal (Integral.value v)) [0] shown
      (by rw [List.length_append, List.length_singleton]; omega) (by omega)
    rw [if_pos room]
    refine ⟨_, ?_, written⟩
    rw [RawStream.formatInteger, if_pos (by omega), convertAt_eq, Option.map_some]
    rw [shown.cur, shown.sized]
    omega
  · rw [if_neg room]
    refine ⟨s, ?_, shown⟩
    rw [RawStream.formatInteger, if_neg (by omega)]

theorem formatDouble_shows (shown : s.Shows d) (v : Double) :
    ∃ s', s.formatDouble v = some s' ∧
      s'.Shows (if kMaxNumericSize ≤ kSmallBuffer - d.length then d ++ v.val else d) := by
  have avail := shown.avail
  have numeric : kMaxNumericSize = 32 := rfl
  have short := v.property
  have whole : v.val.take (kMaxNumericSize - 1) = v.val := List.take_of_length_le (by omega)
  by_cases room : kMaxNumericSize ≤ kSmallBuffer - d.length
  · have written := @Shows.written s d v.val [0] shown
      (by rw [List.length_append, List.length_singleton]; omega) (by omega)
    rw [if_pos room]
    refine ⟨_, ?_, written⟩
    rw [RawStream.formatDouble, if_pos (by omega), whole, storeAll_eq, Option.map_some]
    rw [shown.cur, shown.sized, List.length_append, List.length_singleton]
    omega
  · rw [if_neg room]
    refine ⟨s, ?_, shown⟩
    rw [RawStream.formatDouble, if_neg (by omega)]

/-- **An operand does to the block what it does to the buffer**, and overruns neither. -/
theorem put_shows (shown : s.Shows d) (o : Operand) :
    ∃ s', s.put o = some s' ∧ s'.Shows (streamed d o) := by
  cases o with
  | bool v => exact append_shows shown _
  | short v =>
      have promoted : Integral.value v.toInt32 = v.toInt := Int16.toInt_toInt32 v
      have done := formatInteger_shows shown v.toInt32
      rw [promoted] at done
      exact done
  | unsignedShort v =>
      have promoted : Integral.value v.toUInt32 = v.toNat :=
        congrArg Int.ofNat (UInt16.toNat_toUInt32 v)
      have done := formatInteger_shows shown v.toUInt32
      rw [promoted] at done
      exact done
  | int v => exact formatInteger_shows shown v
  | unsignedInt v => exact formatInteger_shows shown v
  | long v => exact formatInteger_shows shown v
  | unsignedLong v => exact formatInteger_shows shown v
  | longLong v => exact formatInteger_shows shown v
  | unsignedLongLong v => exact formatInteger_shows shown v
  | float v => exact formatDouble_shows shown v
  | double v => exact formatDouble_shows shown v
  | char v => exact append_shows shown _
  | cstr v => exact append_shows shown _
  | unsignedCstr v => exact append_shows shown _
  | string v => exact append_shows shown _

theorem putAll_shows (shown : s.Shows d) (os : List Operand) :
    ∃ s', s.putAll os = some s' ∧ s'.Shows (os.foldl streamed d) := by
  induction os generalizing s d with
  | nil => exact ⟨s, rfl, shown⟩
  | cons o os ih =>
      obtain ⟨s', put, first⟩ := put_shows shown o
      obtain ⟨s'', rest, all⟩ := ih first
      refine ⟨s'', ?_, all⟩
      rw [putAll, List.foldlM_cons, put]
      exact rest

end Put

/-- The stream in memory refines `Logstream`. -/
theorem putAll_refines (os : List Operand) :
    ∃ s l, fresh.putAll os = some s ∧ (Logstream.mk .fresh).putAll os = some l ∧
      s.contents = l.buffer.data := by
  obtain ⟨s, put, shown⟩ := putAll_shows shows_fresh os
  obtain ⟨l, also, data⟩ := (Logstream.mk .fresh).putAll_spec os
  exact ⟨s, l, put, also, shown.contents.trans data.symm⟩

/-- **A log stream stays inside its buffer and takes operands whole**: no run of
`operator<<` writes outside `data_`, a byte stays free, and what is passed on is made of
the complete texts of some of the operands, in order. -/
theorem stream_contained (os : List Operand) :
    ∃ s, fresh.putAll os = some s ∧ s.data.length = 4000 ∧ s.length ≤ 3999 ∧
      ∃ kept : List Operand, kept.Sublist os ∧ s.contents = kept.flatMap Operand.text := by
  obtain ⟨s, put, shown⟩ := putAll_shows shows_fresh os
  obtain ⟨kept, sub, texts⟩ := foldl_streamed_sublist [] os
  refine ⟨s, put, shown.sized, ?_, kept, sub, shown.contents.trans texts⟩
  rw [length, shown.cur]
  exact Nat.le_of_lt_succ shown.spare

end RawStream

end LaliRpc.Base
