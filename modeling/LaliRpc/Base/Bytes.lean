/-
# Base.Bytes — byte strings and decimal text

`std::string`, `std::string_view` and the storage of a `Buffer` are byte lists.
`toDecimal` is `std::to_string` of an unsigned value and `digitsValue` is what
`strtol` computes from a run of decimal digits; they are inverse
(`digitsValue_toDecimal`). `Thrown` names the ways a function of the framework
can be left other than by returning.
-/
import Mathlib.Data.Nat.Digits.Lemmas

namespace LaliRpc

set_option autoImplicit false

abbrev Bytes := List UInt8

instance : LawfulBEq Bytes := inferInstanceAs (LawfulBEq (List UInt8))

/-- The bytes of an ASCII literal. -/
def ascii (s : String) : Bytes := s.toList.map fun c => UInt8.ofNat c.toNat

def crlf : Bytes := [13, 10]

/-- How a call ends when it does not return. The two exception types are
unrelated in C++, and a failed `assert` aborts the process (the build files do
not define `NDEBUG`). -/
inductive Thrown where
  /-- `throw "msg"` -/
  | cstr (msg : String)
  /-- `throw Exception("msg")` -/
  | exception (msg : String)
  | assertion
  deriving DecidableEq, Repr

/-- `if (p) throw t;` -/
def throwIf (p : Prop) [Decidable p] (t : Thrown) : Except Thrown Unit :=
  if p then .error t else .ok ()

@[simp] theorem throwIf_ok_iff {p : Prop} [Decidable p] {t : Thrown} {u : Unit} :
    throwIf p t = .ok u ↔ ¬ p := by
  by_cases h : p <;> simp [throwIf, h]

/-! ## Splitting at a character -/

theorem idxOf?_split {c : UInt8} {s : Bytes} (free : c ∉ s) (t : Bytes) :
    (s ++ c :: t).idxOf? c = some s.length := by
  induction s with
  | nil => simp [List.idxOf?_cons]
  | cons d s ih =>
      rw [List.mem_cons, not_or] at free
      have other : ¬ d = c := fun same => free.1 same.symm
      simp [List.idxOf?_cons, other, ih free.2]

theorem split_of_idxOf? {c : UInt8} {m : Bytes} {pos : Nat} (found : m.idxOf? c = some pos) :
    m = m.take pos ++ c :: m.drop (pos + 1) ∧ c ∉ m.take pos := by
  induction m generalizing pos with
  | nil => cases found
  | cons d m ih =>
      rw [List.idxOf?_cons] at found
      by_cases same : d = c
      · subst same
        obtain rfl : 0 = pos := by simpa using found
        simp
      · have later : (m.idxOf? c).map (· + 1) = some pos := by simpa [same] using found
        obtain ⟨k, hk, rfl⟩ := Option.map_eq_some_iff.mp later
        obtain ⟨split, free⟩ := ih hk
        rw [List.take_succ_cons, List.drop_succ_cons, List.cons_append, ← split]
        exact ⟨rfl, by simp [Ne.symm same, free]⟩

/-! ## Decimal text -/

def isDigit (c : UInt8) : Bool := 48 ≤ c && c ≤ 57

def isDigit19 (c : UInt8) : Bool := 49 ≤ c && c ≤ 57

/-- `std::to_string(n)`. -/
def toDecimal (n : Nat) : Bytes :=
  if n = 0 then [48] else (Nat.digits 10 n).reverse.map fun d => UInt8.ofNat (48 + d)

/-- The value of a run of decimal digits, most significant first. -/
def digitsValue (s : Bytes) : Nat := s.foldl (fun acc c => acc * 10 + (c.toNat - 48)) 0

theorem digit_toNat {d : Nat} (h : d < 10) : (UInt8.ofNat (48 + d)).toNat = 48 + d := by
  rw [UInt8.toNat_ofNat']
  omega

theorem isDigit_iff (c : UInt8) : isDigit c = true ↔ 48 ≤ c.toNat ∧ c.toNat ≤ 57 := by
  simp [isDigit, UInt8.le_iff_toNat_le]

theorem isDigit19_iff (c : UInt8) : isDigit19 c = true ↔ 49 ≤ c.toNat ∧ c.toNat ≤ 57 := by
  simp [isDigit19, UInt8.le_iff_toNat_le]

theorem isDigit_digit {d : Nat} (h : d < 10) : isDigit (UInt8.ofNat (48 + d)) = true := by
  rw [isDigit_iff, digit_toNat h]
  omega

theorem isDigit_of_mem_toDecimal {n : Nat} {c : UInt8} (h : c ∈ toDecimal n) :
    isDigit c = true := by
  unfold toDecimal at h
  split at h
  · obtain rfl : c = 48 := by simpa using h
    decide
  · simp only [List.map_reverse, List.mem_reverse, List.mem_map] at h
    obtain ⟨d, hd, rfl⟩ := h
    exact isDigit_digit (Nat.digits_lt_base (by omega) hd)

/-- The text of a positive number starts with a digit other than `0`. -/
theorem toDecimal_pos {n : Nat} (pos : 0 < n) :
    ∃ d ds, toDecimal n = d :: ds ∧ isDigit19 d = true := by
  have ne : Nat.digits 10 n ≠ [] := Nat.digits_ne_nil_iff_ne_zero.mpr (by omega)
  have top := Nat.getLast_digit_ne_zero 10 (m := n) (by omega)
  have small : (Nat.digits 10 n).getLast ne < 10 :=
    Nat.digits_lt_base (by omega) (List.getLast_mem ne)
  refine ⟨UInt8.ofNat (48 + (Nat.digits 10 n).getLast ne),
    (Nat.digits 10 n).dropLast.reverse.map fun d => UInt8.ofNat (48 + d), ?_, ?_⟩
  · rw [toDecimal, if_neg (by omega)]
    conv => lhs; rw [← List.dropLast_concat_getLast ne]
    simp
  · rw [isDigit19_iff, digit_toNat small]
    omega

theorem toDecimal_ne_nil (n : Nat) : toDecimal n ≠ [] := by
  rcases Nat.eq_zero_or_pos n with rfl | pos
  · decide
  · obtain ⟨d, ds, h, -⟩ := toDecimal_pos pos
    simp [h]

theorem toDecimal_of_lt {n : Nat} (small : n < 10) : toDecimal n = [UInt8.ofNat (48 + n)] := by
  rw [toDecimal]
  split
  · subst n
    rfl
  · rw [Nat.digits_of_lt 10 n ‹_› small]
    rfl

theorem toDecimal_of_ge {n : Nat} (large : 10 ≤ n) :
    toDecimal n = toDecimal (n / 10) ++ [UInt8.ofNat (48 + n % 10)] := by
  rw [toDecimal, if_neg (by omega), toDecimal, if_neg (by omega),
    Nat.digits_def' (by decide) (by omega), List.reverse_cons, List.map_append]
  rfl

theorem length_toDecimal_le {width d : Nat} (positive : 0 < width) (small : d < 10 ^ width) :
    (toDecimal d).length ≤ width := by
  unfold toDecimal
  split
  · exact positive
  · rw [List.length_map, List.length_reverse]
    exact (Nat.digits_length_le_iff (by omega) d).mpr small

theorem digitsValue_snoc (s : Bytes) (c : UInt8) :
    digitsValue (s ++ [c]) = digitsValue s * 10 + (c.toNat - 48) := by
  simp [digitsValue]

theorem digitsValue_digits (ds : List Nat) (small : ∀ d ∈ ds, d < 10) :
    digitsValue (ds.reverse.map fun d => UInt8.ofNat (48 + d)) = Nat.ofDigits 10 ds := by
  induction ds with
  | nil => rfl
  | cons d ds ih =>
      have rest := ih fun x hx => small x (by simp [hx])
      rw [List.reverse_cons, List.map_append, List.map_singleton, digitsValue_snoc, rest,
        digit_toNat (small d (by simp)), Nat.ofDigits_cons]
      omega

/-- Reading back the text of a number gives the number. -/
theorem digitsValue_toDecimal (n : Nat) : digitsValue (toDecimal n) = n := by
  unfold toDecimal
  split
  · subst n
    rfl
  · rw [digitsValue_digits _ fun d hd => Nat.digits_lt_base (by omega) hd, Nat.ofDigits_digits]

theorem not_mem_toDecimal_of_not_digit {n : Nat} {c : UInt8} (h : isDigit c = false) :
    c ∉ toDecimal n := by
  intro mem
  rw [isDigit_of_mem_toDecimal mem] at h
  cases h

end LaliRpc
