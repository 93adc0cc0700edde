/-
# Jackson.Itoa — integers as text, two digits at a time

The writer's conversion as the code has it: the number of digits from the count of
leading zeros and a table of powers, the digits in pairs from a second table, stored from
the last one to the first. A read outside a table or a store outside the buffer would be
a fault. What is stored is the decimal text, and the two arrays of the writer are exactly as
large as they have to be (`itoa_writes`).
-/
import LaliRpc.Jackson.Writer
import LaliRpc.Theory.Loop
import LaliRpc.Theory.Memory

namespace LaliRpc.Jackson.Itoa

set_option autoImplicit false

open Theory (Loop Pass)
open Theory.Memory (store splice length_splice take_splice store_eq splice_append splice_front)

/-! ## The tables -/

/-- `powers_of_10` of the first `countDigits`. -/
def powers32 : List (BitVec 32) :=
  [0, 10, 100, 1000, 10000, 100000, 1000000, 10000000, 100000000, 1000000000]

/-- `powers_of_10` of the second. -/
def powers64 : List (BitVec 64) :=
  [0, 10, 100, 1000, 10000, 100000, 1000000, 10000000, 100000000, 1000000000, 10000000000,
    100000000000, 1000000000000, 10000000000000, 100000000000000, 1000000000000000,
    10000000000000000, 100000000000000000, 1000000000000000000, 10000000000000000000]

/-- `digits`, with the NUL behind it. -/
def digits : Bytes :=
  ascii "0001020304050607080910111213141516171819" ++
  ascii "2021222324252627282930313233343536373839" ++
  ascii "4041424344454647484950515253545556575859" ++
  ascii "6061626364656667686970717273747576777879" ++
  ascii "8081828384858687888990919293949596979899" ++ [0]

/-! ## The conversion -/

section Convert

variable {w : Nat}

/-- `__builtin_clz` and `__builtin_clzll`; undefined at zero. -/
def builtinClz (n : BitVec w) : Option Nat := if n = 0 then none else some n.clz.toNat

/-- Both `countDigits`, by their tables. -/
def countDigits (powers : List (BitVec w)) (n : BitVec w) : Option UInt32 := do
  let zeros ← builtinClz (n ||| 1)
  let t : UInt32 := UInt32.ofNat (((w - zeros) * 1233) >>> 12)
  let power ← powers[t.toNat]?
  return t - (if n < power then 1 else 0) + 1

/-- `buf[next] = digits[i + 1]; buf[next - 1] = digits[i];` -/
def storePair (memory : Bytes) (buf : Nat) (next i : UInt32) : Option Bytes := do
  let low ← digits[(i + 1).toNat]?
  let memory ← store memory (buf + next.toNat) low
  let high ← digits[i.toNat]?
  store memory (buf + (next - 1).toNat) high

/-- The locals of `itoa_`, and the block it writes into. -/
structure Writing (w : Nat) where
  val : BitVec w
  next : UInt32
  memory : Bytes

def itoaPass (buf : Nat) (s : Writing w) : Pass (Writing w) Empty Unit :=
  if 100 ≤ s.val.toNat then
    match storePair s.memory buf s.next (UInt32.ofNat (s.val % 100 * 2).toNat) with
    | none => .raise s [] ()
    | some memory => .next ⟨s.val / 100, s.next - 2, memory⟩ []
  else .stop s

theorem toNat_hundred {v : BitVec w} (large : 100 ≤ v.toNat) : (100 : BitVec w).toNat = 100 := by
  have bound := v.isLt
  rw [BitVec.ofNat_eq_ofNat, BitVec.toNat_ofNat]
  exact Nat.mod_eq_of_lt (Nat.lt_of_le_of_lt large bound)

theorem toNat_hundredth {v : BitVec w} (large : 100 ≤ v.toNat) :
    (v / 100).toNat = v.toNat / 100 := by
  rw [BitVec.toNat_udiv, toNat_hundred large]

def itoaLoop (w buf : Nat) : Loop (Writing w) Empty Unit where
  body := itoaPass buf
  measure s := s.val.toNat
  decreases := by
    intro s s' es passed
    rw [itoaPass] at passed
    split at passed
    · rename_i large
      split at passed
      · cases passed
      · obtain ⟨rfl, -⟩ := Pass.next.inj passed
        change (s.val / 100).toNat < s.val.toNat
        rw [toNat_hundredth large]
        omega
    · cases passed

/-- The last one or two digits. -/
def lastDigits (buf : Nat) (s : Writing w) : Option Bytes :=
  if s.val.toNat < 10 then store s.memory (buf + s.next.toNat) (UInt8.ofNat (48 + s.val.toNat))
  else storePair s.memory buf s.next (UInt32.ofNat (s.val * 2).toNat)

/-- `itoa_`: the block behind it and the count it returns. -/
def itoa_ (powers : List (BitVec w)) (memory : Bytes) (buf : Nat) (val : BitVec w) :
    Option (Bytes × UInt32) := do
  let count ← countDigits powers val
  let done := (itoaLoop w buf).run ⟨val, count - 1, memory⟩
  match done.thrown with
  | some _ => none
  | none =>
      let memory ← lastDigits buf done.state
      return (memory, count)

/-- Both `itoa`: the sign, and the magnitude in the unsigned type. -/
def itoa (powers : List (BitVec w)) (memory : Bytes) (buf : Nat) (val : BitVec w) :
    Option (Bytes × UInt32) :=
  if val.toInt < 0 then do
    let memory ← store memory buf (chr '-')
    let (memory, count) ← itoa_ powers memory (buf + 1) (~~~val + 1)
    return (memory, 1 + count)
  else itoa_ powers memory buf val

end Convert

/-- `itoa(int32_t, char*)` -/
def itoa32 (memory : Bytes) (buf : Nat) (val : Int32) : Option (Bytes × UInt32) :=
  itoa powers32 memory buf val.toBitVec

/-- `itoa(int64_t, char*)` -/
def itoa64 (memory : Bytes) (buf : Nat) (val : Int64) : Option (Bytes × UInt32) :=
  itoa powers64 memory buf val.toBitVec

/-- What a writer puts of the array it gave to `itoa`: the view of the first `cnt` bytes,
which have to be there. -/
def viewed (written : Option (Bytes × UInt32)) : Option Bytes :=
  written.bind fun (buf, cnt) => if cnt.toNat ≤ buf.length then some (buf.take cnt.toNat) else none

/-- The text of `Writer::Int32`, where `buf` is a `char[size]` not written yet. -/
def int32 {size : Nat} (buf : Vector UInt8 size) (i32 : Int32) : Option Bytes :=
  viewed (itoa32 buf.toList 0 i32)

/-- The text of `Writer::Int64`. -/
def int64 {size : Nat} (buf : Vector UInt8 size) (i64 : Int64) : Option Bytes :=
  viewed (itoa64 buf.toList 0 i64)

example : itoa64 (List.replicate 8 7) 1 (-1205) = some ([7, 45, 49, 50, 48, 53, 7, 7], 5) := by
  decide +kernel

example : itoa32 (List.replicate 4 7) 0 (-1205) = none := by decide +kernel

/-! ## The number of digits -/

section Count

variable {w : Nat} {powers : List (BitVec w)}

theorem length_toDecimal {n k : Nat} (low : 10 ^ k ≤ n) (high : n < 10 ^ (k + 1)) :
    (toDecimal n).length = k + 1 := by
  induction k generalizing n with
  | zero => rw [toDecimal_of_lt high, List.length_singleton]
  | succ k ih =>
      have ten : 10 ≤ 10 ^ (k + 1) := Nat.le_self_pow (Nat.succ_ne_zero k) 10
      rw [toDecimal_of_ge (Nat.le_trans ten low), List.length_append, List.length_singleton]
      rw [ih (n := n / 10)]
      · rw [Nat.le_div_iff_mul_le (by decide), ← Nat.pow_succ]
        exact low
      · rw [Nat.div_lt_iff_lt_mul (by decide), ← Nat.pow_succ]
        exact high

/-- What the two tables have to be: powers of ten at every place that is read. -/
structure Powers (powers : List (BitVec w)) : Prop where
  wide : 8 ≤ w
  narrow : w ≤ 64
  first : powers[0]?.map BitVec.toNat = some 0
  power : ∀ b < w + 1, 4 ≤ b →
    powers[(b * 1233) >>> 12]?.map BitVec.toNat = some (10 ^ ((b * 1233) >>> 12))

theorem powers32_powers : Powers powers32 := ⟨by decide, by decide, rfl, by decide +kernel⟩

theorem powers64_powers : Powers powers64 := ⟨by decide, by decide, rfl, by decide +kernel⟩

theorem or_one (n : Nat) : n ||| 1 = 2 * (n / 2) + 1 := by
  have half : (n ||| 1) / 2 = n / 2 := by rw [Nat.or_div_two, Nat.or_zero]
  have odd : (n ||| 1) % 2 = 1 := Nat.or_mod_two_eq_one.mpr (.inr rfl)
  omega

/-- **The magic number.** From four bits on, `b * 1233 / 4096` powers of ten bound what has
`b` bits, from both sides. -/
theorem magic {b : Nat} (least : 4 ≤ b) (most : b ≤ 64) :
    ∃ t, (b * 1233) >>> 12 = t + 1 ∧ t < 19 ∧ 10 ^ t ≤ 2 ^ (b - 1) ∧ 2 ^ b ≤ 10 ^ (t + 2) := by
  have all : ∀ b < 65, 4 ≤ b → 0 < (b * 1233) >>> 12 ∧ (b * 1233) >>> 12 - 1 < 19 ∧
      10 ^ ((b * 1233) >>> 12 - 1) ≤ 2 ^ (b - 1) ∧ 2 ^ b ≤ 10 ^ ((b * 1233) >>> 12 + 1) := by
    decide +kernel
  obtain ⟨pos, small, low, high⟩ := all b (Nat.lt_succ_of_le most) least
  exact ⟨(b * 1233) >>> 12 - 1, by omega, small, low, by
    rwa [show (b * 1233) >>> 12 - 1 + 2 = (b * 1233) >>> 12 + 1 by omega]⟩

/-- Of a number with its last bit set or not: a power of ten divides by two, one apart. -/
theorem length_of_bounds {n t : Nat} (low : 10 ^ t ≤ n ||| 1) (eight : 8 ≤ n ||| 1)
    (high : n ||| 1 < 10 ^ (t + 2)) :
    (toDecimal n).length = if n < 10 ^ (t + 1) then t + 1 else t + 2 := by
  rw [or_one] at low eight high
  have reached : 10 ^ t ≤ n := by
    cases t with
    | zero => omega
    | succ t =>
        rw [Nat.pow_succ] at low ⊢
        omega
  split
  · rename_i short
    exact length_toDecimal reached short
  · rename_i long
    have bound : n < 10 ^ (t + 2) := by omega
    exact length_toDecimal (Nat.le_of_not_lt long) bound

/-- `countDigits` behind its table: the entry decides between two neighbours. -/
theorem countDigits_entry {n : BitVec w} {b t ten : Nat} (nonzero : n ||| 1 ≠ 0)
    (bits : w - (n ||| 1).clz.toNat = b) (index : (b * 1233) >>> 12 = t) (small : t < 2 ^ 32)
    (entry : powers[t]?.map BitVec.toNat = some ten) :
    countDigits powers n = some (UInt32.ofNat (if n.toNat < ten then t else t + 1)) := by
  obtain ⟨power, found, rfl⟩ := Option.map_eq_some_iff.mp entry
  have place : (UInt32.ofNat t).toNat = t := UInt32.toNat_ofNat_of_lt' small
  rw [countDigits, builtinClz, if_neg nonzero, Option.bind_eq_bind, Option.bind_some]
  simp only [bits, index, place, found, BitVec.lt_def, Option.bind_eq_bind, Option.bind_some]
  refine congrArg some ?_
  split
  · exact UInt32.sub_add_cancel _ _
  · rw [UInt32.sub_zero, UInt32.ofNat_add]
    rfl

/-- **`countDigits` counts the digits**, and reads inside its table. -/
theorem countDigits_eq (p : Powers powers) (n : BitVec w) :
    countDigits powers n = some (UInt32.ofNat (toDecimal n.toNat).length) := by
  obtain ⟨wide, narrow, first, power⟩ := p
  have value : (n ||| 1).toNat = n.toNat ||| 1 := by
    rw [BitVec.toNat_or, BitVec.ofNat_eq_ofNat, BitVec.toNat_ofNat,
      Nat.mod_eq_of_lt (Nat.one_lt_two_pow (by omega))]
  have nonzero : n ||| 1 ≠ 0 := fun zero => by
    rw [zero, or_one] at value
    exact absurd value (by simp)
  have zeros : (n ||| 1).clz.toNat < w := by
    have less := BitVec.lt_def.mp (BitVec.clz_lt_iff_ne_zero.mpr nonzero)
    rwa [BitVec.natCast_eq_ofNat, BitVec.toNat_ofNat, Nat.mod_eq_of_lt Nat.lt_two_pow_self] at less
  have low := BitVec.two_pow_sub_clz_le_toNat_of_ne_zero (by omega) nonzero
  have high := BitVec.toNat_lt_two_pow_sub_clz (x := n ||| 1)
  rw [value] at low high
  obtain ⟨b, bits, most⟩ : ∃ b, w - (n ||| 1).clz.toNat = b ∧ b ≤ w := ⟨_, rfl, Nat.sub_le _ _⟩
  rw [Nat.sub_right_comm, bits] at low
  rw [bits] at high
  by_cases few : b < 4
  · -- at most seven: the table's zero, below which nothing is
    have none : ∀ b < 4, (b * 1233) >>> 12 = 0 := by decide
    have eight : 2 ^ b ≤ 2 ^ 3 := Nat.pow_le_pow_right (by decide) (Nat.le_of_lt_succ few)
    rw [or_one] at high
    rw [countDigits_entry nonzero bits (none b few) (by decide) first, if_neg (Nat.not_lt_zero _),
      toDecimal_of_lt (by omega), List.length_singleton]
  · obtain ⟨t, index, small, below, above⟩ := magic (Nat.le_of_not_lt few) (by omega)
    have listed := power b (by omega) (Nat.le_of_not_lt few)
    rw [index] at listed
    have eight : 2 ^ 3 ≤ 2 ^ (b - 1) := Nat.pow_le_pow_right (by decide) (by omega)
    rw [countDigits_entry nonzero bits index (by omega) listed,
      length_of_bounds (Nat.le_trans below low) (Nat.le_trans eight low)
        (Nat.lt_of_lt_of_le high above)]

end Count

/-! ## The digits in pairs -/

section Store

variable {w buf : Nat} {memory : Bytes}

theorem digits_pair {k : Nat} (small : k < 100) :
    digits[k * 2]? = some (UInt8.ofNat (48 + k / 10)) ∧
      digits[k * 2 + 1]? = some (UInt8.ofNat (48 + k % 10)) := by
  have all : ∀ k < 100, digits[k * 2]? = some (UInt8.ofNat (48 + k / 10)) ∧
      digits[k * 2 + 1]? = some (UInt8.ofNat (48 + k % 10)) := by decide +kernel
  exact all k small

/-- The last two digits of a number with three or more. -/
theorem toDecimal_pair {n : Nat} (large : 100 ≤ n) :
    toDecimal n = toDecimal (n / 100) ++
      [UInt8.ofNat (48 + n % 100 / 10), UInt8.ofNat (48 + n % 100 % 10)] := by
  have tens : n / 10 % 10 = n % 100 / 10 := by omega
  have ones : n % 10 = n % 100 % 10 := by omega
  rw [toDecimal_of_ge (by omega), toDecimal_of_ge (n := n / 10) (by omega), Nat.div_div_eq_div_mul,
    tens, ones, List.append_assoc]
  rfl

/-- Two digits, the second stored first. -/
theorem storePair_eq {k left : Nat} {next : UInt32} (small : k < 100)
    (behind : next.toNat = left + 1) (room : buf + left + 2 ≤ memory.length) :
    storePair memory buf next (UInt32.ofNat (k * 2)) =
      some (splice memory (buf + left) [UInt8.ofNat (48 + k / 10), UInt8.ofNat (48 + k % 10)]) := by
  obtain ⟨high, low⟩ := digits_pair small
  have even : (UInt32.ofNat (k * 2)).toNat = k * 2 :=
    UInt32.toNat_ofNat_of_lt' (show k * 2 < 2 ^ 32 by omega)
  have odd : (UInt32.ofNat (k * 2) + 1).toNat = k * 2 + 1 := by
    rw [UInt32.toNat_add, even]
    exact Nat.mod_eq_of_lt (show k * 2 + 1 < 2 ^ 32 by omega)
  have before : (next - 1).toNat = left := by
    have one : 1 ≤ next := UInt32.le_iff_toNat_le.mpr (show 1 ≤ next.toNat by omega)
    have less : (next - 1).toNat = next.toNat - 1 := UInt32.toNat_sub_of_le _ _ one
    omega
  rw [storePair, odd, low, even, high, behind, before]
  simp only [Option.bind_eq_bind, Option.bind_some]
  have inside : buf + left + 1 < memory.length := room
  rw [← Nat.add_assoc, store_eq inside, Option.bind_some,
    store_eq (by rw [length_splice (show buf + left + 1 + 1 ≤ memory.length from room)]; omega)]
  exact congrArg some (splice_front (p := [_]) (q := [_]) room)

/-- Outside of the block there is nothing to store into. -/
theorem storePair_outside {next i : UInt32} (outside : memory.length ≤ buf + next.toNat) :
    storePair memory buf next i = none := by
  rw [storePair]
  cases digits[(i + 1).toNat]? with
  | none => rfl
  | some low =>
      simp only [Option.bind_eq_bind, Option.bind_some]
      rw [store, if_neg (by omega)]
      rfl

theorem toNat_small (wide : 8 ≤ w) {n : Nat} (small : n < 2 ^ 8) :
    (BitVec.ofNat w n).toNat = n := by
  rw [BitVec.toNat_ofNat]
  exact Nat.mod_eq_of_lt (Nat.lt_of_lt_of_le small (Nat.pow_le_pow_right (by decide) wide))

theorem toNat_double (wide : 8 ≤ w) {v : BitVec w} (small : v.toNat < 100) :
    (v * 2).toNat = v.toNat * 2 := by
  have room : 2 ^ 8 ≤ 2 ^ w := Nat.pow_le_pow_right (by decide) wide
  have two : (2 : BitVec w).toNat = 2 := toNat_small wide (by decide)
  rw [BitVec.toNat_mul, two]
  exact Nat.mod_eq_of_lt (by omega)

theorem toNat_rest (wide : 8 ≤ w) (v : BitVec w) : (v % 100).toNat = v.toNat % 100 := by
  have hundred : (100 : BitVec w).toNat = 100 := toNat_small wide (by decide)
  rw [BitVec.toNat_umod, hundred]

/-- One pass stores two digits where they belong, in front of those stored before. -/
theorem itoaPass_eq (wide : 8 ≤ w) {val : BitVec w} (large : 100 ≤ val.toNat) {next : UInt32}
    (last : next.toNat + 1 = (toDecimal val.toNat).length)
    (room : buf + (toDecimal val.toNat).length ≤ memory.length) :
    ∃ q, toDecimal val.toNat = toDecimal (val / 100).toNat ++ q ∧
      itoaPass buf ⟨val, next, memory⟩ = .next ⟨val / 100, next - 2,
        splice memory (buf + (toDecimal (val / 100).toNat).length) q⟩ [] ∧
      (next - 2).toNat + 1 = (toDecimal (val / 100).toNat).length := by
  rw [toNat_hundredth large]
  rw [toDecimal_pair large, List.length_append, List.length_cons,
    List.length_singleton] at last room
  have some := List.length_pos_iff.mpr (toDecimal_ne_nil (val.toNat / 100))
  refine ⟨_, toDecimal_pair large, ?_, ?_⟩
  · have index : (val % 100 * 2).toNat = val.toNat % 100 * 2 := by
      rw [toNat_double wide] <;> rw [toNat_rest wide]
      omega
    have stored := storePair_eq (Nat.mod_lt val.toNat (by decide : 0 < 100))
      (show next.toNat = (toDecimal (val.toNat / 100)).length + 1 by omega)
      (Nat.add_assoc _ _ _ ▸ room)
    rw [itoaPass, if_pos large, index, stored]
  · have two : 2 ≤ next := UInt32.le_iff_toNat_le.mpr (show 2 ≤ next.toNat by omega)
    have less : (next - 2).toNat = next.toNat - 2 := UInt32.toNat_sub_of_le _ _ two
    omega

theorem lastDigits_eq (wide : 8 ≤ w) {val : BitVec w} (few : val.toNat < 100) {next : UInt32}
    (last : next.toNat + 1 = (toDecimal val.toNat).length)
    (room : buf + (toDecimal val.toNat).length ≤ memory.length) :
    lastDigits buf ⟨val, next, memory⟩ = some (splice memory buf (toDecimal val.toNat)) := by
  by_cases one : val.toNat < 10
  · rw [toDecimal_of_lt one] at last room ⊢
    rw [lastDigits, if_pos one, Nat.succ.inj last]
    exact store_eq room
  · have text : toDecimal val.toNat =
        [UInt8.ofNat (48 + val.toNat / 10), UInt8.ofNat (48 + val.toNat % 10)] := by
      rw [toDecimal_of_ge (Nat.le_of_not_lt one), toDecimal_of_lt (by omega)]
      rfl
    rw [text] at last room ⊢
    rw [lastDigits, if_neg one, toNat_double wide few]
    exact storePair_eq few (Nat.succ.inj last) room

/-- **What the loop and the last digits store.** -/
theorem itoaLoop_run (wide : 8 ≤ w) (val : BitVec w) {next : UInt32}
    (last : next.toNat + 1 = (toDecimal val.toNat).length)
    (room : buf + (toDecimal val.toNat).length ≤ memory.length) :
    ∃ s, (itoaLoop w buf).run ⟨val, next, memory⟩ = ⟨s, [], none⟩ ∧
      lastDigits buf s = some (splice memory buf (toDecimal val.toNat)) := by
  induction size : val.toNat using Nat.strongRecOn generalizing val next memory with
  | ind n ih =>
      subst size
      by_cases large : 100 ≤ val.toNat
      · obtain ⟨q, text, passed, front⟩ := itoaPass_eq wide large last room
        rw [text, List.length_append] at room
        have before : buf + (toDecimal (val / 100).toNat).length + q.length ≤ memory.length := by
          omega
        have less : (val / 100).toNat < val.toNat := by
          rw [toNat_hundredth large]
          omega
        obtain ⟨s, run, done⟩ := ih _ less (val / 100) front
          (by rw [length_splice before]; omega) rfl
        refine ⟨s, ?_, ?_⟩
        · rw [(itoaLoop w buf).run_next passed, run]
          rfl
        · rw [done, text]
          exact congrArg some (splice_front (by rw [List.length_append]; exact room))
      · have stop : itoaPass buf ⟨val, next, memory⟩ = .stop ⟨val, next, memory⟩ := if_neg large
        exact ⟨_, (itoaLoop w buf).run_stop stop,
          lastDigits_eq wide (Nat.lt_of_not_le large) last room⟩

/-- A text that does not fit is not begun: its last digit is the first to be stored. -/
theorem itoaLoop_outside (val : BitVec w) {next : UInt32}
    (outside : memory.length ≤ buf + next.toNat) :
    ((itoaLoop w buf).run ⟨val, next, memory⟩).thrown ≠ none ∨
      lastDigits buf ((itoaLoop w buf).run ⟨val, next, memory⟩).state = none := by
  by_cases large : 100 ≤ val.toNat
  · have raised : itoaPass buf ⟨val, next, memory⟩ = .raise ⟨val, next, memory⟩ [] () := by
      rw [itoaPass, if_pos large, storePair_outside outside]
    rw [(itoaLoop w buf).run_raise raised]
    exact .inl (Option.some_ne_none ())
  · have stop : itoaPass buf ⟨val, next, memory⟩ = .stop ⟨val, next, memory⟩ := if_neg large
    rw [(itoaLoop w buf).run_stop stop]
    refine .inr ?_
    rw [lastDigits]
    split
    · exact if_neg (Nat.not_lt_of_le outside)
    · exact storePair_outside outside

end Store

/-! ## What is stored -/

section Spec

variable {w : Nat} {powers : List (BitVec w)}

theorem length_magnitude (p : Powers powers) (val : BitVec w) :
    (toDecimal val.toNat).length ≤ 20 := by
  have wide : 2 ^ w ≤ 2 ^ 64 := Nat.pow_le_pow_right (by decide) p.narrow
  have bound := val.isLt
  exact length_toDecimal_le (by decide) (by omega)

/-- **`itoa_` stores the digits of its argument**, or they do not fit. -/
theorem unsigned_eq (p : Powers powers) (memory : Bytes) (buf : Nat) (val : BitVec w) :
    itoa_ powers memory buf val =
      if buf + (toDecimal val.toNat).length ≤ memory.length then
        some (splice memory buf (toDecimal val.toNat),
          UInt32.ofNat (toDecimal val.toNat).length)
      else none := by
  have most := length_magnitude p val
  have least := List.length_pos_iff.mpr (toDecimal_ne_nil val.toNat)
  rw [itoa_, countDigits_eq p, Option.bind_eq_bind, Option.bind_some]
  have last : (UInt32.ofNat (toDecimal val.toNat).length - 1).toNat + 1 =
      (toDecimal val.toNat).length := by
    generalize (toDecimal val.toNat).length = count at most least ⊢
    have same : (UInt32.ofNat count).toNat = count :=
      UInt32.toNat_ofNat_of_lt' (show count < 2 ^ 32 by omega)
    have one : 1 ≤ UInt32.ofNat count := UInt32.le_iff_toNat_le.mpr (same.symm ▸ least)
    have less : (UInt32.ofNat count - 1).toNat = (UInt32.ofNat count).toNat - 1 :=
      UInt32.toNat_sub_of_le _ _ one
    omega
  split
  · rename_i room
    obtain ⟨s, run, done⟩ := itoaLoop_run p.wide val last room
    simp only [run, done, Option.bind_eq_bind, Option.bind_some]
    rfl
  · rename_i outside
    have failed := itoaLoop_outside val (by omega : memory.length ≤
      buf + (UInt32.ofNat (toDecimal val.toNat).length - 1).toNat)
    dsimp only
    split
    · rfl
    · rename_i quiet
      rw [failed.resolve_left (not_not_intro quiet)]
      rfl

theorem toNat_magnitude {val : BitVec w} (negative : val.toInt < 0) :
    (~~~val + 1).toNat = val.toInt.natAbs := by
  have bound := val.isLt
  have value := BitVec.toInt_eq_toNat_cond val
  have negated : ~~~val + 1 = -val := (BitVec.neg_eq_not_add val).symm
  rw [negated, BitVec.toNat_neg, Nat.mod_eq_of_lt]
  · split at value <;> omega
  · split at value <;> omega

theorem toNat_nonneg {val : BitVec w} (nonneg : ¬ val.toInt < 0) :
    val.toNat = val.toInt.natAbs := by
  have bound := val.isLt
  have value := BitVec.toInt_eq_toNat_cond val
  split at value <;> omega

/-- **`itoa` stores the decimal text**, or it does not fit. -/
theorem itoa_eq (p : Powers powers) (memory : Bytes) (buf : Nat) (val : BitVec w) :
    itoa powers memory buf val =
      if buf + (Writer.itoa val.toInt).length ≤ memory.length then
        some (splice memory buf (Writer.itoa val.toInt),
          UInt32.ofNat (Writer.itoa val.toInt).length)
      else none := by
  by_cases negative : val.toInt < 0
  · rw [itoa, if_pos negative, Writer.itoa, if_pos negative, ← toNat_magnitude negative,
      List.length_cons, ← Nat.add_assoc, Nat.add_right_comm]
    by_cases sign : buf < memory.length
    · have one : buf + [chr '-'].length ≤ memory.length := sign
      rw [store_eq sign, Option.bind_eq_bind, Option.bind_some, unsigned_eq p, length_splice one]
      split
      · refine congrArg some (Prod.ext ?_ ?_)
        · exact splice_append one
        · change 1 + UInt32.ofNat _ = UInt32.ofNat (_ + 1)
          rw [UInt32.ofNat_add, UInt32.add_comm]
          rfl
      · rfl
    · rw [store, if_neg sign, if_neg (by omega)]
      rfl
  · rw [itoa, if_neg negative, Writer.itoa, if_neg negative, ← toNat_nonneg negative]
    exact unsigned_eq p memory buf val

theorem length_itoa_le (p : Powers powers) (val : BitVec w) :
    (Writer.itoa val.toInt).length ≤ 21 := by
  rw [Writer.itoa]
  split
  · rename_i negative
    rw [← toNat_magnitude negative, List.length_cons]
    exact Nat.succ_le_succ (length_magnitude p _)
  · rename_i nonneg
    rw [← toNat_nonneg nonneg]
    exact Nat.le_succ_of_le (length_magnitude p _)

/-- A view of an array that is large enough is the text; a smaller one is overrun. -/
theorem viewed_itoa (p : Powers powers) {size : Nat} (buf : Vector UInt8 size) (val : BitVec w) :
    viewed (itoa powers buf.toList 0 val) =
      if (Writer.itoa val.toInt).length ≤ size then some (Writer.itoa val.toInt) else none := by
  have most := length_itoa_le p val
  have count : (UInt32.ofNat (Writer.itoa val.toInt).length).toNat = _ :=
    UInt32.toNat_ofNat_of_lt' (show (Writer.itoa val.toInt).length < 2 ^ 32 by omega)
  have length : buf.toList.length = size := Vector.length_toList
  rw [viewed, itoa_eq p, Nat.zero_add, length]
  split
  · rename_i room
    have inside : 0 + (Writer.itoa val.toInt).length ≤ buf.toList.length := by omega
    have front := take_splice inside
    rw [Nat.zero_add, List.take_zero, List.nil_append] at front
    simp only [Option.bind_some, count, length_splice inside, length, room, if_true, front]
  · rfl

theorem length_itoa_int32 (i : Int32) : (Writer.itoa i.toInt).length ≤ 11 := by
  have low := i.le_toInt
  have high := i.toInt_lt
  have digits : (toDecimal i.toInt.natAbs).length ≤ 10 := length_toDecimal_le (by decide) (by omega)
  rw [Writer.itoa]
  split
  · exact Nat.succ_le_succ digits
  · exact Nat.le_succ_of_le digits

theorem length_itoa_int64 (i : Int64) : (Writer.itoa i.toInt).length ≤ 20 := by
  have low := i.le_toInt
  have high := i.toInt_lt
  have digits : (toDecimal i.toInt.natAbs).length ≤ 19 := length_toDecimal_le (by decide) (by omega)
  rw [Writer.itoa]
  split
  · exact Nat.succ_le_succ digits
  · exact Nat.le_succ_of_le digits

/-- **The arrays of the writer.** Of all sizes, eleven and twenty are the smallest that hold
every text; with them the text that is put is the decimal one. -/
theorem arrays_suffice_iff (size : Nat) :
    ((∀ (buf : Vector UInt8 size) (i32 : Int32), int32 buf i32 = some (Writer.itoa i32.toInt)) ↔
      11 ≤ size) ∧
    ((∀ (buf : Vector UInt8 size) (i64 : Int64), int64 buf i64 = some (Writer.itoa i64.toInt)) ↔
      20 ≤ size) := by
  have text32 (buf : Vector UInt8 size) (i32 : Int32) : int32 buf i32 =
      if (Writer.itoa i32.toInt).length ≤ size then some (Writer.itoa i32.toInt) else none :=
    viewed_itoa powers32_powers buf i32.toBitVec
  have text64 (buf : Vector UInt8 size) (i64 : Int64) : int64 buf i64 =
      if (Writer.itoa i64.toInt).length ≤ size then some (Writer.itoa i64.toInt) else none :=
    viewed_itoa powers64_powers buf i64.toBitVec
  refine ⟨⟨fun all => ?_, fun room buf i32 => ?_⟩, ⟨fun all => ?_, fun room buf i64 => ?_⟩⟩
  · have longest := all (Vector.replicate size 0) Int32.minValue
    have eleven : (Writer.itoa Int32.minValue.toInt).length = 11 := by decide +kernel
    rw [text32, eleven, Option.ite_none_right_eq_some] at longest
    exact longest.1
  · rw [text32, if_pos (Nat.le_trans (length_itoa_int32 i32) room)]
  · have longest := all (Vector.replicate size 0) Int64.minValue
    have twenty : (Writer.itoa Int64.minValue.toInt).length = 20 := by decide +kernel
    rw [text64, twenty, Option.ite_none_right_eq_some] at longest
    exact longest.1
  · rw [text64, if_pos (Nat.le_trans (length_itoa_int64 i64) room)]

/-- **The conversion as the code has it is the decimal text.** Whatever block it writes into,
it reads inside its tables and changes nothing around the text, or the text does not fit;
and the writer's two arrays are exactly large enough. -/
theorem itoa_writes :
    (∀ (memory : Bytes) (buf : Nat) (val : Int32), itoa32 memory buf val =
      if buf + (Writer.itoa val.toInt).length ≤ memory.length then
        some (splice memory buf (Writer.itoa val.toInt),
          UInt32.ofNat (Writer.itoa val.toInt).length)
      else none) ∧
    (∀ (memory : Bytes) (buf : Nat) (val : Int64), itoa64 memory buf val =
      if buf + (Writer.itoa val.toInt).length ≤ memory.length then
        some (splice memory buf (Writer.itoa val.toInt),
          UInt32.ofNat (Writer.itoa val.toInt).length)
      else none) ∧
    ∀ size : Nat,
      ((∀ (buf : Vector UInt8 size) (i32 : Int32), int32 buf i32 = some (Writer.itoa i32.toInt)) ↔
        11 ≤ size) ∧
      ((∀ (buf : Vector UInt8 size) (i64 : Int64), int64 buf i64 = some (Writer.itoa i64.toInt)) ↔
        20 ≤ size) :=
  ⟨fun memory buf val => itoa_eq powers32_powers memory buf val.toBitVec,
    fun memory buf val => itoa_eq powers64_powers memory buf val.toBitVec, arrays_suffice_iff⟩

end Spec

end LaliRpc.Jackson.Itoa
