/-
# Theory.SharedOwnership — an object that is destroyed with its last owner

`Shared` is a reference-counted object as its control block sees it: a count, the
value, and what the value was each time the object was destroyed. `Owned n`
relates the count to the number of owners there really are. While there is an
owner the object is alive, and it has been destroyed once when there is none:
the rules below say so for each operation an owner can perform, and
`Owned.destroyed_iff` is what follows.

`sum_map_set` is the bookkeeping step when the owners are spread over a list of
holders, each with some number of references, and `map_set_of_eq` what that step
leaves alone.
-/
import Mathlib.Algebra.BigOperators.Group.List.Basic
import Mathlib.Algebra.GroupWithZero.Nat

namespace LaliRpc.Theory

set_option autoImplicit false

structure Shared (α : Type) where
  useCount : Nat
  value : α
  destroyed : List α

namespace Shared

variable {α : Type}

/-- A new object, with one owner. -/
def make (v : α) : Shared α := ⟨1, v, []⟩

/-- An owner makes another. -/
def acquire (s : Shared α) : Shared α := { s with useCount := s.useCount + 1 }

/-- An owner goes away; the last one destroys the object. -/
def release (s : Shared α) : Shared α :=
  { s with
    useCount := s.useCount - 1
    destroyed := if s.useCount = 1 then s.destroyed ++ [s.value] else s.destroyed }

/-- An owner changes the value. -/
def modify (f : α → α) (s : Shared α) : Shared α := { s with value := f s.value }

/-- The object has `n` owners, and was destroyed once if it has none. -/
structure Owned (n : Nat) (s : Shared α) : Prop where
  count : s.useCount = n
  alive : 0 < n → s.destroyed = []
  once : n = 0 → s.destroyed = [s.value]

variable {s : Shared α} {n : Nat}

theorem owned_make (v : α) : Owned 1 (make v) := ⟨rfl, fun _ => rfl, fun h => by cases h⟩

theorem Owned.acquire (owned : Owned n s) (alive : 0 < n) : Owned (n + 1) s.acquire :=
  ⟨congrArg (· + 1) owned.count, fun _ => owned.alive alive, fun h => by cases h⟩

theorem Owned.modify (owned : Owned n s) (alive : 0 < n) (f : α → α) : Owned n (s.modify f) :=
  ⟨owned.count, owned.alive, fun h => absurd h (Nat.ne_of_gt alive)⟩

theorem Owned.release (owned : Owned (n + 1) s) : Owned n s.release := by
  have alive := owned.alive (Nat.succ_pos n)
  refine ⟨?_, fun positive => ?_, fun none => ?_⟩
  · show s.useCount - 1 = n
    rw [owned.count, Nat.add_sub_cancel]
  · show (if s.useCount = 1 then s.destroyed ++ [s.value] else s.destroyed) = []
    rw [if_neg (by rw [owned.count]; omega), alive]
  · show (if s.useCount = 1 then s.destroyed ++ [s.value] else s.destroyed) = [s.value]
    rw [if_pos (by rw [owned.count, none]), alive, List.nil_append]

/-- **The object has been destroyed exactly when it has no owner left.** -/
theorem Owned.destroyed_iff (owned : Owned n s) : s.destroyed ≠ [] ↔ n = 0 := by
  constructor
  · intro destroyed
    by_contra some
    exact destroyed (owned.alive (Nat.pos_of_ne_zero some))
  · intro none
    rw [owned.once none]
    exact List.cons_ne_nil _ _

end Shared

/-- Replacing one holder changes the number of references by what it gains or loses. -/
theorem sum_map_set {β : Type} (refs : β → Nat) {holders : List β} {i : Nat} {h h' : β}
    (found : holders[i]? = some h) :
    ((holders.set i h').map refs).sum + refs h = (holders.map refs).sum + refs h' := by
  induction holders generalizing i with
  | nil => simp at found
  | cons g holders ih =>
      cases i with
      | zero =>
          obtain rfl : g = h := by simpa using found
          simp only [List.set_cons_zero, List.map_cons, List.sum_cons]
          omega
      | succ i =>
          have rest := ih (i := i) (by simpa using found)
          simp only [List.set_cons_succ, List.map_cons, List.sum_cons]
          omega

/-- Replacing one holder by one that shows the same through `f`. -/
theorem map_set_of_eq {α β : Type} (f : α → β) {l : List α} {i : Nat} {a a' : α}
    (found : l[i]? = some a) (same : f a' = f a) : (l.set i a').map f = l.map f := by
  apply List.ext_getElem?
  intro j
  rw [List.getElem?_map, List.getElem?_map, List.getElem?_set]
  by_cases at_i : i = j
  · subst at_i
    rw [if_pos rfl, if_pos (List.getElem?_eq_some_iff.mp found).1, found]
    exact congrArg some same
  · rw [if_neg at_i]

end LaliRpc.Theory
