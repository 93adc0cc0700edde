/-
# Base.Logstream — what a log stream makes of its operands

`convert` writes an integer's digits from the last one on, looked up in a table that
runs from 9 down to 0 and up again, so that a negative remainder finds its digit, too;
it writes the integer's decimal text (`convert_eq`). An operand is put into the buffer
whole or not at all: a text when it leaves a byte free, a number when 32 bytes are
free, however short it is (`put_spec`).
-/
import LaliRpc.Base.FixedBuffer
import LaliRpc.Theory.Loop

namespace LaliRpc.Base

set_option autoImplicit false

open Theory (Loop Pass)

/-! ## Integers -/

/-- `digits`, whose middle is `zero`. -/
def digits : Bytes := [57, 56, 55, 54, 53, 52, 51, 50, 49, 48, 49, 50, 51, 52, 53, 54, 55, 56, 57]

example : digits = ascii "9876543210123456789" := by decide +kernel

/-- `zero[lsd]`; `none` outside the table. -/
def zero (lsd : Int) : Option UInt8 := if 0 ≤ lsd + 9 then digits[(lsd + 9).toNat]? else none

/-- The locals of `convert`: `i`, and the characters written from `buf` to `p`. -/
structure Conversion where
  i : Int
  p : Bytes
  deriving DecidableEq

/-- A read outside the table. -/
inductive OutOfTable where
  | read (lsd : Int)

/-- The body of the loop; division and remainder truncate. -/
def convertPass (s : Conversion) : Pass Conversion Empty OutOfTable :=
  let lsd := s.i.tmod 10
  let i := s.i.tdiv 10
  match zero lsd with
  | none => .raise s [] (.read lsd)
  | some c => if i ≠ 0 then .next ⟨i, s.p ++ [c]⟩ [] else .stop ⟨i, s.p ++ [c]⟩

def convertLoop : Loop Conversion Empty OutOfTable where
  body := convertPass
  measure s := s.i.natAbs
  decreases := by
    intro s s' es passed
    simp only [convertPass] at passed
    split at passed
    · cases passed
    · split at passed
      · rename_i c found more
        obtain ⟨rfl, -⟩ := Pass.next.inj passed
        have quotient : (s.i.tdiv 10).natAbs = s.i.natAbs / 10 := Int.natAbs_tdiv s.i 10
        change (s.i.tdiv 10).natAbs < s.i.natAbs
        omega
      · cases passed

/-- `convert(buf, value)`, up to the terminator; `none` when it reads outside the table. -/
def convert (value : Int) : Option Bytes :=
  let done := convertLoop.run ⟨value, []⟩
  match done.thrown with
  | some _ => none
  | none => some (if value < 0 then done.state.p ++ [45] else done.state.p).reverse

/-- The decimal text of an integer. -/
def decimal (v : Int) : Bytes := if v < 0 then 45 :: toDecimal v.natAbs else toDecimal v.natAbs

/-- The table has the digit of each remainder, positive or negative. -/
theorem zero_eq {lsd : Int} (small : lsd.natAbs < 10) :
    zero lsd = some (UInt8.ofNat (48 + lsd.natAbs)) := by
  have table : ∀ j : Fin 19, zero ((j.val : Int) - 9) =
      some (UInt8.ofNat (48 + ((j.val : Int) - 9).natAbs)) := by decide
  have entry := table ⟨(lsd + 9).toNat, by omega⟩
  have back : ((lsd + 9).toNat : Int) - 9 = lsd := by omega
  simpa only [back] using entry

/-- The loop reads within the table and writes the digits, the last one first. -/
theorem convertLoop_run (i : Int) (p : Bytes) :
    convertLoop.run ⟨i, p⟩ = ⟨⟨0, p ++ (toDecimal i.natAbs).reverse⟩, [], none⟩ := by
  induction size : i.natAbs using Nat.strongRecOn generalizing i p with
  | ind n ih =>
      subst size
      have remainder : (i.tmod 10).natAbs = i.natAbs % 10 := Int.natAbs_tmod i 10
      have quotient : (i.tdiv 10).natAbs = i.natAbs / 10 := Int.natAbs_tdiv i 10
      have found : zero (i.tmod 10) = some (UInt8.ofNat (48 + i.natAbs % 10)) := by
        rw [zero_eq (by omega), remainder]
      by_cases more : i.tdiv 10 = 0
      · have stop : convertLoop.body ⟨i, p⟩ =
            .stop ⟨i.tdiv 10, p ++ [UInt8.ofNat (48 + i.natAbs % 10)]⟩ := by
          change convertPass _ = _
          simp only [convertPass, found, more, ne_eq, not_true_eq_false, if_false]
        have small : i.natAbs < 10 := by omega
        rw [convertLoop.run_stop stop, more, toDecimal_of_lt small, Nat.mod_eq_of_lt small]
        rfl
      · have next : convertLoop.body ⟨i, p⟩ =
            .next ⟨i.tdiv 10, p ++ [UInt8.ofNat (48 + i.natAbs % 10)]⟩ [] := by
          change convertPass _ = _
          simp only [convertPass, found, ne_eq, more, not_false_eq_true, if_true]
        rw [convertLoop.run_next next, ih _ (by omega) _ _ rfl, quotient,
          toDecimal_of_ge (n := i.natAbs) (by omega), List.reverse_append, List.append_assoc]
        rfl

/-- **`convert` writes the decimal text.** -/
theorem convert_eq (value : Int) : convert value = some (decimal value) := by
  simp only [convert, convertLoop_run, List.nil_append, decimal]
  split
  · rw [List.reverse_append, List.reverse_reverse, List.reverse_singleton, List.singleton_append]
  · rw [List.reverse_reverse]

/-- Twenty characters for an integer of 64 bits, signed or not. -/
theorem length_decimal_le {v : Int} (low : -2 ^ 63 ≤ v) (high : v < 2 ^ 64) :
    (decimal v).length ≤ 20 := by
  rw [decimal]
  split
  · have digits := @length_toDecimal_le 19 v.natAbs (by decide) (by omega)
    rw [List.length_cons]
    omega
  · exact length_toDecimal_le (by decide) (by omega)

/-! ## Operands -/

def kMaxNumericSize : Nat := 32

/-- A `double`, which is what `%.12g` makes of it: 31 characters at most. -/
abbrev Double := { text : Bytes // text.length < kMaxNumericSize }

/-- What `operator<<` is overloaded for. A pointer is null or points to bytes in front of
which the first zero is looked for. -/
inductive Operand where
  | bool (v : Bool)
  | short (v : Int16)
  | unsignedShort (v : UInt16)
  | int (v : Int32)
  | unsignedInt (v : UInt32)
  | long (v : Int64)
  | unsignedLong (v : UInt64)
  | longLong (v : Int64)
  | unsignedLongLong (v : UInt64)
  | float (v : Double)
  | double (v : Double)
  | char (v : UInt8)
  | cstr (v : Option Bytes)
  | unsignedCstr (v : Option Bytes)
  | string (v : Bytes)

structure Logstream where
  buffer : FixedBuffer kSmallBuffer

namespace Logstream

def append (s : Logstream) (data : Bytes) : Logstream := ⟨s.buffer.append data⟩

/-- `formatInteger`; `none` when it reads or writes where it must not. -/
def formatInteger (s : Logstream) (v : Int) : Option Logstream :=
  if s.buffer.avail ≥ kMaxNumericSize then
    (convert v).bind fun text => (s.buffer.print text).map Logstream.mk
  else some s

def formatDouble (s : Logstream) (v : Double) : Option Logstream :=
  if s.buffer.avail ≥ kMaxNumericSize then (s.buffer.print v.val).map Logstream.mk else some s

/-- What is appended of a pointer to characters. -/
def cstring (v : Option Bytes) : Bytes :=
  match v with
  | some v => v.takeWhile (· ≠ 0)
  | none => ascii "(null)"

/-- `operator<<`. -/
def put (s : Logstream) : Operand → Option Logstream
  | .bool v => some (s.append (if v then ascii "1" else ascii "0"))
  | .short v => s.formatInteger v.toInt
  | .unsignedShort v => s.formatInteger v.toNat
  | .int v => s.formatInteger v.toInt
  | .unsignedInt v => s.formatInteger v.toNat
  | .long v => s.formatInteger v.toInt
  | .unsignedLong v => s.formatInteger v.toNat
  | .longLong v => s.formatInteger v.toInt
  | .unsignedLongLong v => s.formatInteger v.toNat
  | .float v => s.formatDouble v
  | .double v => s.formatDouble v
  | .char v => some (s.append [v])
  | .cstr v => some (s.append (cstring v))
  | .unsignedCstr v => some (s.append (cstring v))
  | .string v => some (s.append v)

def putAll (s : Logstream) (os : List Operand) : Option Logstream := os.foldlM put s

end Logstream

namespace Operand

/-- The complete text of an operand. -/
def text : Operand → Bytes
  | bool v => if v then ascii "1" else ascii "0"
  | short v => decimal v.toInt
  | unsignedShort v => decimal v.toNat
  | int v => decimal v.toInt
  | unsignedInt v => decimal v.toNat
  | long v => decimal v.toInt
  | unsignedLong v => decimal v.toNat
  | longLong v => decimal v.toInt
  | unsignedLongLong v => decimal v.toNat
  | float v => v.val
  | double v => v.val
  | char v => [v]
  | cstr v => Logstream.cstring v
  | unsignedCstr v => Logstream.cstring v
  | string v => v

/-- The bytes that have to be free. -/
def need (o : Operand) : Nat :=
  match o with
  | bool _ | char _ | cstr _ | unsignedCstr _ | string _ => o.text.length + 1
  | _ => kMaxNumericSize

theorem text_lt_need (o : Operand) : o.text.length < o.need := by
  have number : ∀ v : Int, -2 ^ 63 ≤ v → v < 2 ^ 64 → (decimal v).length < kMaxNumericSize :=
    fun v low high => Nat.lt_of_le_of_lt (length_decimal_le low high) (by decide)
  cases o with
  | bool v => exact Nat.lt_succ_self _
  | short v =>
      have low := v.le_toInt
      have high := v.toInt_lt
      exact number _ (by omega) (by omega)
  | unsignedShort v =>
      have high := v.toNat_lt
      exact number _ (by omega) (by omega)
  | int v =>
      have low := v.le_toInt
      have high := v.toInt_lt
      exact number _ (by omega) (by omega)
  | unsignedInt v =>
      have high := v.toNat_lt
      exact number _ (by omega) (by omega)
  | long v =>
      have low := v.le_toInt
      have high := v.toInt_lt
      exact number _ (by omega) (by omega)
  | unsignedLong v =>
      have high := v.toNat_lt
      exact number _ (by omega) (by omega)
  | longLong v =>
      have low := v.le_toInt
      have high := v.toInt_lt
      exact number _ (by omega) (by omega)
  | unsignedLongLong v =>
      have high := v.toNat_lt
      exact number _ (by omega) (by omega)
  | float v => exact v.property
  | double v => exact v.property
  | char v => exact Nat.lt_succ_self _
  | cstr v => exact Nat.lt_succ_self _
  | unsignedCstr v => exact Nat.lt_succ_self _
  | string v => exact Nat.lt_succ_self _

end Operand

/-- What is in the buffer behind an operand. -/
def streamed (d : Bytes) (o : Operand) : Bytes :=
  if o.need ≤ kSmallBuffer - d.length then d ++ o.text else d

namespace Logstream

/-- A number is short enough for the room that is asked for. -/
theorem number_spec (s : Logstream) {text : Bytes} (short : text.length < kMaxNumericSize) :
    ∃ s', (if s.buffer.avail ≥ kMaxNumericSize then (s.buffer.print text).map Logstream.mk
        else some s) = some s' ∧
      s'.buffer.data = if kMaxNumericSize ≤ s.buffer.avail then s.buffer.data ++ text
        else s.buffer.data := by
  by_cases room : kMaxNumericSize ≤ s.buffer.avail
  · obtain ⟨b, printed, data⟩ := FixedBuffer.print_spec (Nat.le_trans short room)
    rw [if_pos room, if_pos room, printed]
    exact ⟨⟨b⟩, rfl, data⟩
  · rw [if_neg room, if_neg room]
    exact ⟨s, rfl, rfl⟩

theorem formatInteger_spec (s : Logstream) {v : Int}
    (short : (decimal v).length < kMaxNumericSize) :
    ∃ s', s.formatInteger v = some s' ∧
      s'.buffer.data = if kMaxNumericSize ≤ s.buffer.avail then s.buffer.data ++ decimal v
        else s.buffer.data := by
  rw [formatInteger, convert_eq]
  exact s.number_spec short

/-- **An operand is put whole or not at all**, and nothing outside the buffer or the table
of digits is touched. -/
theorem put_spec (s : Logstream) (o : Operand) :
    ∃ s', s.put o = some s' ∧ s'.buffer.data = streamed s.buffer.data o := by
  have text : ∀ data, (s.append data).buffer.data =
      if data.length + 1 ≤ kSmallBuffer - s.buffer.data.length then s.buffer.data ++ data
      else s.buffer.data := fun data => FixedBuffer.data_append_eq s.buffer data
  have short := o.text_lt_need
  cases o with
  | bool v => exact ⟨_, rfl, text _⟩
  | short v => exact s.formatInteger_spec short
  | unsignedShort v => exact s.formatInteger_spec short
  | int v => exact s.formatInteger_spec short
  | unsignedInt v => exact s.formatInteger_spec short
  | long v => exact s.formatInteger_spec short
  | unsignedLong v => exact s.formatInteger_spec short
  | longLong v => exact s.formatInteger_spec short
  | unsignedLongLong v => exact s.formatInteger_spec short
  | float v => exact s.number_spec short
  | double v => exact s.number_spec short
  | char v => exact ⟨_, rfl, text _⟩
  | cstr v => exact ⟨_, rfl, text _⟩
  | unsignedCstr v => exact ⟨_, rfl, text _⟩
  | string v => exact ⟨_, rfl, text _⟩

theorem putAll_spec (s : Logstream) (os : List Operand) :
    ∃ s', s.putAll os = some s' ∧ s'.buffer.data = os.foldl streamed s.buffer.data := by
  induction os generalizing s with
  | nil => exact ⟨s, rfl, rfl⟩
  | cons o os ih =>
      obtain ⟨s', put, data⟩ := s.put_spec o
      obtain ⟨s'', rest, all⟩ := ih s'
      refine ⟨s'', ?_, ?_⟩
      · rw [putAll, List.foldlM_cons, put]
        exact rest
      · rw [all, data, List.foldl_cons]

end Logstream

/-- One byte stays free. -/
theorem length_streamed {d : Bytes} (spare : d.length < kSmallBuffer) (o : Operand) :
    (streamed d o).length < kSmallBuffer := by
  have short := o.text_lt_need
  rw [streamed]
  split
  · rw [List.length_append]
    omega
  · exact spare

theorem length_foldl_streamed {d : Bytes} (spare : d.length < kSmallBuffer) (os : List Operand) :
    (os.foldl streamed d).length < kSmallBuffer := by
  induction os generalizing d with
  | nil => exact spare
  | cons o os ih => exact ih (length_streamed spare o)

/-- Some of the operands are there, in order, and of each of them all. -/
theorem foldl_streamed_sublist (d : Bytes) (os : List Operand) :
    ∃ kept : List Operand, kept.Sublist os ∧
      os.foldl streamed d = d ++ kept.flatMap Operand.text := by
  induction os generalizing d with
  | nil => exact ⟨[], .slnil, (List.append_nil d).symm⟩
  | cons o os ih =>
      obtain ⟨kept, sub, texts⟩ := ih (streamed d o)
      rw [List.foldl_cons, texts, streamed]
      split
      · refine ⟨o :: kept, sub.cons_cons o, ?_⟩
        rw [List.flatMap_cons, List.append_assoc]
      · exact ⟨kept, sub.cons o, rfl⟩

theorem length_foldl_streamed_le (d : Bytes) (os : List Operand) :
    (os.foldl streamed d).length ≤ d.length + (os.map fun o => o.text.length).sum := by
  induction os generalizing d with
  | nil => exact Nat.le_refl _
  | cons o os ih =>
      have rest := ih (streamed d o)
      have first : (streamed d o).length ≤ d.length + o.text.length := by
        rw [streamed]
        split
        · rw [List.length_append]
        · omega
      rw [List.foldl_cons, List.map_cons, List.sum_cons]
      omega

end LaliRpc.Base
