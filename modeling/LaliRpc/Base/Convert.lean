/-
# Base.Convert — writing an integer's digits into memory

`convert` is a template, here over the integral types it is used at, with the division
and the remainder of each (`Integral`). It stores a character at `p` in each pass, then
the sign and the terminator, and turns round what it has stored. Seen as integers the
passes are those of `convertPass`, so what stands in memory is the decimal text
(`convertAt_eq`); it is canonical, and reading it gives the value back (`convert_exact`).
-/
import LaliRpc.Base.Logstream
import LaliRpc.Theory.Memory

namespace LaliRpc.Base

set_option autoImplicit false

open Theory (Loop Pass spin)
open Theory.Memory (store reverse splice length_splice store_eq splice_append store_splice
  reverse_splice)

/-! ## The integral types -/

/-- A type `convert` is used at: its values, `i / 10`, and `static_cast<int>(i % 10)`. -/
class Integral (T : Type) where
  value : T → Int
  quotient : T → T
  lsd : T → Int32
  value_quotient : ∀ i, value (quotient i) = (value i).tdiv 10
  toInt_lsd : ∀ i, (lsd i).toInt = (value i).tmod 10
  low : ∀ i, -2 ^ 63 ≤ value i
  high : ∀ i, value i < 2 ^ 64

instance : Integral Int32 where
  value := Int32.toInt
  quotient i := i / 10
  lsd i := i % 10
  value_quotient i := Int32.toInt_div_of_ne_right i 10 (by decide)
  toInt_lsd i := Int32.toInt_mod i 10
  low i := by
    have low := i.le_toInt
    omega
  high i := by
    have high := i.toInt_lt
    omega

instance : Integral Int64 where
  value := Int64.toInt
  quotient i := i / 10
  lsd i := (i % 10).toInt32
  value_quotient i := Int64.toInt_div_of_ne_right i 10 (by decide)
  toInt_lsd i := by
    have remainder : (i % 10).toInt = i.toInt.tmod 10 := Int64.toInt_mod i 10
    have small : (i.toInt.tmod 10).natAbs = i.toInt.natAbs % 10 := Int.natAbs_tmod i.toInt 10
    rw [Int64.toInt_toInt32, remainder]
    exact Int.bmod_eq_of_le (by omega) (by omega)
  low i := i.le_toInt
  high i := by
    have high := i.toInt_lt
    omega

instance : Integral UInt32 where
  value i := i.toNat
  quotient i := i / 10
  lsd i := (i % 10).toInt32
  value_quotient i := by
    rw [UInt32.toNat_div]
    exact Int.ofNat_tdiv _ _
  toInt_lsd i := by
    have remainder : (i % 10).toNat = i.toNat % 10 := UInt32.toNat_mod i 10
    have same : (i % 10).toInt32.toInt = (i % 10).toNat :=
      BitVec.toInt_eq_toNat_of_lt (by change 2 * (i % 10).toNat < 2 ^ 32; omega)
    rw [same, remainder]
    rfl
  low i := by omega
  high i := by
    have high := i.toNat_lt
    omega

instance : Integral UInt64 where
  value i := i.toNat
  quotient i := i / 10
  lsd i := (i % 10).toInt64.toInt32
  value_quotient i := by
    rw [UInt64.toNat_div]
    exact Int.ofNat_tdiv _ _
  toInt_lsd i := by
    have remainder : (i % 10).toNat = i.toNat % 10 := UInt64.toNat_mod i 10
    have same : (i % 10).toInt64.toInt = (i % 10).toNat :=
      BitVec.toInt_eq_toNat_of_lt (by change 2 * (i % 10).toNat < 2 ^ 64; omega)
    rw [Int64.toInt_toInt32, same, remainder, Int.bmod_eq_of_le (by omega) (by omega)]
    rfl
  low i := by omega
  high i := by
    have high := i.toNat_lt
    omega

/-! ## The loop and what is behind it -/

/-- The locals of `convert`, `p` as an address of the block it writes into, and the block. -/
structure Converting (T : Type) where
  i : T
  p : Nat
  memory : Bytes

/-- What `convert` must not do: read outside the table, or write outside the block. -/
inductive Overrun where
  | table (lsd : Int32)
  | memory (p : Nat)

section Convert

variable {T : Type} [Integral T]

def convertAtPass (s : Converting T) : Pass (Converting T) Empty Overrun :=
  let lsd : Int32 := Integral.lsd s.i
  let i := Integral.quotient s.i
  match zero lsd.toInt with
  | none => .raise s [] (.table lsd)
  | some c =>
      match store s.memory s.p c with
      | none => .raise s [] (.memory s.p)
      | some memory =>
          if Integral.value i ≠ 0 then .next ⟨i, s.p + 1, memory⟩ []
          else .stop ⟨i, s.p + 1, memory⟩

variable (T) in
def convertAtLoop : Loop (Converting T) Empty Overrun where
  body := convertAtPass
  measure s := (Integral.value s.i).natAbs
  decreases := by
    intro s s' es passed
    simp only [convertAtPass] at passed
    split at passed
    · cases passed
    · split at passed
      · cases passed
      · split at passed
        · rename_i more
          obtain ⟨rfl, -⟩ := Pass.next.inj passed
          change (Integral.value (Integral.quotient s.i)).natAbs < (Integral.value s.i).natAbs
          have quotient :
              ((Integral.value s.i).tdiv 10).natAbs = (Integral.value s.i).natAbs / 10 :=
            Int.natAbs_tdiv _ 10
          rw [Integral.value_quotient] at more ⊢
          omega
        · cases passed

/-- `convert(buf, value)`: the block behind it and the length it returns; `none` when it
overruns. -/
def convertAt (memory : Bytes) (buf : Nat) (value : T) : Option (Bytes × Nat) :=
  let done := (convertAtLoop T).run ⟨value, buf, memory⟩
  match done.thrown with
  | some _ => none
  | none => do
      let p := done.state.p
      let signed ← if Integral.value value < 0 then store done.state.memory p 45
        else some done.state.memory
      let p := if Integral.value value < 0 then p + 1 else p
      let terminated ← store signed p 0
      let turned ← reverse terminated buf p
      return (turned, p - buf)

end Convert

example : convertAt (List.replicate 8 7) 1 (-120 : Int32) =
    some ([7, 45, 49, 50, 48, 0, 7, 7], 4) := by decide +kernel

/-! ## What stands in memory -/

section Memory

variable {T : Type} [Integral T] {memory : Bytes} {buf : Nat}

/-- The last digit of an integer. -/
def lastDigit (v : Int) : UInt8 := UInt8.ofNat (48 + v.natAbs % 10)

theorem natAbs_quotient (i : T) :
    (Integral.value (Integral.quotient i)).natAbs = (Integral.value i).natAbs / 10 := by
  rw [Integral.value_quotient]
  exact Int.natAbs_tdiv _ 10

/-- **One pass stores the last digit**, found in the table whatever its sign. -/
theorem convertAtPass_eq (i : T) {p : Nat} (inside : p < memory.length) :
    convertAtPass ⟨i, p, memory⟩ =
      if Integral.value (Integral.quotient i) ≠ 0 then
        .next ⟨Integral.quotient i, p + 1, splice memory p [lastDigit (Integral.value i)]⟩ []
      else .stop ⟨Integral.quotient i, p + 1, splice memory p [lastDigit (Integral.value i)]⟩ := by
  have remainder : ((Integral.value i).tmod 10).natAbs = (Integral.value i).natAbs % 10 :=
    Int.natAbs_tmod _ 10
  have found : zero (Integral.lsd i).toInt = some (lastDigit (Integral.value i)) := by
    rw [Integral.toInt_lsd, zero_eq (by omega), remainder]
    rfl
  simp only [convertAtPass, found, store_eq inside]

/-- The loop stores the digits from `p` on, the last one first. -/
theorem convertAtLoop_run (i : T) (p : Nat)
    (room : p + (toDecimal (Integral.value i).natAbs).length ≤ memory.length) :
    ∃ last, (convertAtLoop T).run ⟨i, p, memory⟩ =
      ⟨⟨last, p + (toDecimal (Integral.value i).natAbs).length,
        splice memory p (toDecimal (Integral.value i).natAbs).reverse⟩, [], none⟩ := by
  induction size : (Integral.value i).natAbs using Nat.strongRecOn generalizing i p memory with
  | ind n ih =>
      subst size
      have quotient := natAbs_quotient i
      by_cases more : (Integral.value i).natAbs < 10
      · rw [toDecimal_of_lt more] at room ⊢
        have done : Integral.value (Integral.quotient i) = 0 := by omega
        have stop := convertAtPass_eq i (show p < memory.length from room)
        rw [done, if_neg (not_not_intro rfl)] at stop
        refine ⟨Integral.quotient i, ?_⟩
        rw [(convertAtLoop T).run_stop stop, lastDigit, Nat.mod_eq_of_lt more]
        rfl
      · have goes : Integral.value (Integral.quotient i) ≠ 0 := by omega
        rw [toDecimal_of_ge (by omega), List.length_append, List.length_singleton] at room ⊢
        have inside : p < memory.length := by omega
        have next := convertAtPass_eq i inside
        rw [if_pos goes] at next
        have stored : p + [lastDigit (Integral.value i)].length ≤ memory.length := inside
        have later : p + 1 + (toDecimal (Integral.value (Integral.quotient i)).natAbs).length ≤
            (splice memory p [lastDigit (Integral.value i)]).length := by
          rw [length_splice stored, quotient]
          omega
        obtain ⟨last, rest⟩ := ih _ (by omega) (Integral.quotient i) (p + 1) later rfl
        have behind : splice (splice memory p [lastDigit (Integral.value i)]) (p + 1)
            (toDecimal ((Integral.value i).natAbs / 10)).reverse =
              splice memory p ([lastDigit (Integral.value i)] ++
                (toDecimal ((Integral.value i).natAbs / 10)).reverse) := splice_append stored
        refine ⟨last, ?_⟩
        rw [(convertAtLoop T).run_next next, rest, quotient, behind, List.reverse_append,
          Nat.add_assoc, Nat.add_comm 1]
        rfl

/-- What stands behind the loop and the sign: the terminator, and the text turned round. -/
theorem terminate_eq {w : Bytes} (room : buf + w.length < memory.length) :
    ((store (splice memory buf w) (buf + w.length) 0).bind fun terminated =>
      (reverse terminated buf (buf + w.length)).bind fun turned =>
        some (turned, buf + w.length - buf)) =
      some (splice memory buf (w.reverse ++ [0]), w.length) := by
  have whole : buf + (w ++ [0]).length ≤ memory.length := by
    rw [List.length_append, List.length_singleton]
    exact room
  rw [store_splice room, Option.bind_some, reverse_splice whole, Option.bind_some,
    Nat.add_sub_cancel_left]

/-- **`convert` writes the decimal text and its terminator**, and touches nothing else. -/
theorem convertAt_eq (v : T) (room : buf + (decimal (Integral.value v)).length < memory.length) :
    convertAt memory buf v =
      some (splice memory buf (decimal (Integral.value v) ++ [0]),
        (decimal (Integral.value v)).length) := by
  by_cases negative : Integral.value v < 0
  · rw [decimal, if_pos negative] at room ⊢
    rw [List.length_cons] at room
    obtain ⟨last, run⟩ := @convertAtLoop_run T _ memory v buf (by omega)
    have digits : buf + (toDecimal (Integral.value v).natAbs).reverse.length < memory.length := by
      rw [List.length_reverse]
      omega
    have signed := @store_splice _ memory _ buf 45 digits
    rw [List.length_reverse] at signed
    have done := @terminate_eq memory buf
      ((toDecimal (Integral.value v).natAbs).reverse ++ [45])
      (by rw [List.length_append, List.length_reverse, List.length_singleton]; omega)
    rw [List.length_append, List.length_reverse, List.length_singleton, List.reverse_append,
      List.reverse_reverse, ← Nat.add_assoc] at done
    simp only [convertAt, run, negative, if_true, signed]
    exact done
  · rw [decimal, if_neg negative] at room ⊢
    obtain ⟨last, run⟩ := @convertAtLoop_run T _ memory v buf (Nat.le_of_lt room)
    have done := @terminate_eq memory buf (toDecimal (Integral.value v).natAbs).reverse
      (by rw [List.length_reverse]; exact room)
    rw [List.length_reverse, List.reverse_reverse] at done
    simp only [convertAt, run, negative, if_false]
    exact done

end Memory

/-! ## Canonical texts -/

/-- Digits, the first of which is not a zero. -/
def Numeral (ds : Bytes) : Prop :=
  ∃ d rest, ds = d :: rest ∧ isDigit19 d = true ∧ ∀ c ∈ rest, isDigit c = true

/-- The decimal representation of an integer, as a set of texts: zero is "0", a sign is a
minus, and no zero is in front. -/
inductive Canonical : Bytes → Prop where
  | zero : Canonical [48]
  | positive {ds : Bytes} (numeral : Numeral ds) : Canonical ds
  | negative {ds : Bytes} (numeral : Numeral ds) : Canonical (45 :: ds)

/-- Decimal parsing: an optional minus and digits. -/
def parseDecimal : Bytes → Int
  | 45 :: ds => -(digitsValue ds : Int)
  | ds => digitsValue ds

theorem numeral_toDecimal {n : Nat} (pos : 0 < n) : Numeral (toDecimal n) := by
  obtain ⟨d, ds, text, first⟩ := toDecimal_pos pos
  refine ⟨d, ds, text, first, fun c mem => ?_⟩
  exact isDigit_of_mem_toDecimal (text ▸ List.mem_cons_of_mem d mem)

theorem Numeral.parseDecimal {ds : Bytes} (numeral : Numeral ds) :
    parseDecimal ds = digitsValue ds := by
  obtain ⟨d, rest, rfl, first, -⟩ := numeral
  unfold Base.parseDecimal
  split
  · rename_i same
    obtain ⟨rfl, -⟩ := List.cons.inj same
    cases first
  · rfl

/-- **The text of an integer is canonical.** -/
theorem canonical_decimal (v : Int) : Canonical (decimal v) := by
  rw [decimal]
  split
  · exact .negative (numeral_toDecimal (by omega))
  · rcases Nat.eq_zero_or_pos v.natAbs with none | pos
    · rw [none]
      exact .zero
    · exact .positive (numeral_toDecimal pos)

/-- **Parsing the text of an integer gives the integer.** -/
theorem parseDecimal_decimal (v : Int) : parseDecimal (decimal v) = v := by
  rw [decimal]
  split
  · rw [parseDecimal, digitsValue_toDecimal]
    omega
  · rcases Nat.eq_zero_or_pos v.natAbs with none | pos
    · have zero : v = 0 := by omega
      rw [zero]
      rfl
    · rw [(numeral_toDecimal pos).parseDecimal, digitsValue_toDecimal]
      omega

/-- A number has one numeral. -/
theorem Numeral.toDecimal_digitsValue {ds : Bytes} (numeral : Numeral ds) :
    toDecimal (digitsValue ds) = ds ∧ 0 < digitsValue ds := by
  obtain ⟨d, rest, rfl, first, others⟩ := numeral
  rw [isDigit19_iff] at first
  induction rest using List.reverseRecOn with
  | nil =>
      have value : digitsValue [d] = d.toNat - 48 := Nat.zero_add _
      have digit : UInt8.ofNat (48 + (d.toNat - 48)) = d := by
        rw [Nat.add_sub_cancel' (by omega)]
        exact UInt8.ofNat_toNat
      rw [value, toDecimal_of_lt (by omega), digit]
      exact ⟨rfl, by omega⟩
  | append_singleton rest c ih =>
      obtain ⟨text, pos⟩ := ih fun x mem => others x (List.mem_append_left _ mem)
      have last := (isDigit_iff c).mp
        (others c (List.mem_append_right _ (List.mem_singleton_self c)))
      have value : digitsValue (d :: (rest ++ [c])) =
          digitsValue (d :: rest) * 10 + (c.toNat - 48) := digitsValue_snoc (d :: rest) c
      have front : digitsValue (d :: (rest ++ [c])) / 10 = digitsValue (d :: rest) := by omega
      have digit : UInt8.ofNat (48 + digitsValue (d :: (rest ++ [c])) % 10) = c := by
        have remainder : 48 + digitsValue (d :: (rest ++ [c])) % 10 = c.toNat := by omega
        rw [remainder]
        exact UInt8.ofNat_toNat
      rw [toDecimal_of_ge (by omega), front, digit, text]
      exact ⟨rfl, by omega⟩

/-- **A canonical text is the text of its value**, so an integer has one. -/
theorem decimal_parseDecimal {s : Bytes} (canonical : Canonical s) :
    decimal (parseDecimal s) = s := by
  cases canonical with
  | zero => rfl
  | positive numeral =>
      obtain ⟨text, -⟩ := numeral.toDecimal_digitsValue
      rw [numeral.parseDecimal, decimal, if_neg (by omega), Int.natAbs_natCast, text]
  | negative numeral =>
      obtain ⟨text, pos⟩ := numeral.toDecimal_digitsValue
      rw [parseDecimal, decimal, if_pos (by omega), Int.natAbs_neg, Int.natAbs_natCast, text]

/-! ## Exactness -/

/-- **Integer formatting is exact.** For every value of every type the loop ends without
leaving the table or the block, and a canonical text stands in memory that gives the
value back; with its terminator it has 21 bytes at most. -/
theorem convert_exact {T : Type} [Integral T] (v : T) {memory : Bytes} {buf : Nat}
    (room : buf + 21 ≤ memory.length) :
    (∃ passes done, spin convertAtPass passes ⟨v, buf, memory⟩ = some done ∧
      done.thrown = none) ∧
    ∃ text, convertAt memory buf v = some (splice memory buf (text ++ [0]), text.length) ∧
      Canonical text ∧ parseDecimal text = Integral.value v ∧ text.length + 1 ≤ 21 := by
  have short := length_decimal_le (Integral.low v) (Integral.high v)
  have digits : (toDecimal (Integral.value v).natAbs).length ≤
      (decimal (Integral.value v)).length := by
    rw [decimal]
    split
    · exact Nat.le_succ _
    · exact Nat.le_refl _
  obtain ⟨last, run⟩ := @convertAtLoop_run T _ memory v buf (by omega)
  refine ⟨⟨_, _, (convertAtLoop T).spin_measure ⟨v, buf, memory⟩, by rw [run]⟩, ?_⟩
  exact ⟨decimal (Integral.value v), convertAt_eq v (by omega), canonical_decimal _,
    parseDecimal_decimal _, Nat.succ_le_succ short⟩

/-- The most negative value, in the 32 bytes that are free. -/
theorem convert_exact_min : ∃ text,
    convertAt (List.replicate 32 0) 0 Int64.minValue =
      some (splice (List.replicate 32 0) 0 (text ++ [0]), text.length) ∧
    parseDecimal text = -9223372036854775808 := by
  obtain ⟨-, text, written, -, value, -⟩ :=
    @convert_exact Int64 _ Int64.minValue (List.replicate 32 0) 0 (by decide)
  exact ⟨text, written, value⟩

end LaliRpc.Base
