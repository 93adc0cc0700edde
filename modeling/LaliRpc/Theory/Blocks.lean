/-
# Theory.Blocks — positions in consecutive blocks

Blocks of given lengths follow one another from block `i` on. `total` is the length
of the first `n` of them, and `locate` finds the block a position lies in and the
offset in it, by subtracting the lengths until the rest is short enough. The block
and the offset give the position back (`locate_spec`), so different positions have
different ones (`locate_injective`).
-/
import Mathlib.Data.List.Basic

namespace LaliRpc.Theory

set_option autoImplicit false

variable {len : Nat → Nat} {n m i d d' : Nat}

/-- The length of the blocks `i`, …, `i + n - 1`. -/
def total (len : Nat → Nat) : Nat → Nat → Nat
  | _, 0 => 0
  | i, n + 1 => len i + total len (i + 1) n

/-- The block of position `d` behind the beginning of block `i`, and the offset in it;
`n` blocks are gone past at most. -/
def locate (len : Nat → Nat) : Nat → Nat → Nat → Nat × Nat
  | 0, i, d => (i, d)
  | n + 1, i, d => if d < len i then (i, d) else locate len n (i + 1) (d - len i)

theorem locate_spec (len : Nat → Nat) (n i d : Nat) :
    ∃ k, k ≤ n ∧ (locate len n i d).1 = i + k ∧ d = total len i k + (locate len n i d).2 := by
  induction n generalizing i d with
  | zero => exact ⟨0, Nat.le_refl _, rfl, (Nat.zero_add d).symm⟩
  | succ n ih =>
      rw [locate]
      by_cases here : d < len i
      · rw [if_pos here]
        exact ⟨0, Nat.zero_le _, rfl, (Nat.zero_add d).symm⟩
      · rw [if_neg here]
        obtain ⟨k, le, block, position⟩ := ih (i + 1) (d - len i)
        refine ⟨k + 1, Nat.succ_le_succ le, by rw [block]; omega, ?_⟩
        rw [total]
        omega

theorem locate_le (len : Nat → Nat) (n i d : Nat) : (locate len n i d).1 ≤ i + n := by
  obtain ⟨k, le, block, -⟩ := locate_spec len n i d
  omega

/-- A position in front of the end of the blocks is inside the block it is found in. -/
theorem locate_lt (inside : d < total len i (n + 1)) :
    (locate len n i d).2 < len (locate len n i d).1 := by
  induction n generalizing i d with
  | zero => simpa [locate, total] using inside
  | succ n ih =>
      rw [locate]
      by_cases here : d < len i
      · rw [if_pos here]
        exact here
      · rw [if_neg here]
        rw [total] at inside
        exact ih (by omega)

/-- Blocks that are not empty are as long together as they are many. -/
theorem le_total (positive : ∀ i, 0 < len i) (i n : Nat) : n ≤ total len i n := by
  induction n generalizing i with
  | zero => exact Nat.zero_le _
  | succ n ih =>
      have first := positive i
      have others := ih (i + 1)
      rw [total]
      omega

/-- **The block and the offset determine the position.** -/
theorem locate_injective (same : locate len n i d = locate len m i d') : d = d' := by
  obtain ⟨k, -, block, position⟩ := locate_spec len n i d
  obtain ⟨k', -, block', position'⟩ := locate_spec len m i d'
  rw [same, block'] at block
  obtain rfl : k' = k := by omega
  rw [position, position', same]

end LaliRpc.Theory
