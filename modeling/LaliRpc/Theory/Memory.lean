/-
# Theory.Memory — storing into a block of memory

A block is a list of cells, and a store outside of it is a fault. A text stored cell by
cell (`storeAll`) that ends inside the block leaves it as `splice`: the text between what
lies in front of it and what lies behind it. `reverse` turns a range of the block round.
-/
import Mathlib.Data.List.Basic

namespace LaliRpc.Theory.Memory

set_option autoImplicit false

variable {α : Type} {mem p q text : List α} {addr : Nat} {c : α}

/-- `*addr = c` -/
def store (mem : List α) (addr : Nat) (c : α) : Option (List α) :=
  if addr < mem.length then some (mem.set addr c) else none

/-- The cells of `text` stored one after the other, from `addr` on. -/
def storeAll : List α → Nat → List α → Option (List α)
  | mem, _, [] => some mem
  | mem, addr, c :: text => (store mem addr c).bind fun mem => storeAll mem (addr + 1) text

/-- `std::reverse(first, last)` -/
def reverse (mem : List α) (first last : Nat) : Option (List α) :=
  if last ≤ mem.length then
    some (mem.take first ++ ((mem.take last).drop first).reverse ++ mem.drop last)
  else none

/-- The block with `text` in it from `addr` on. -/
def splice (mem : List α) (addr : Nat) (text : List α) : List α :=
  mem.take addr ++ text ++ mem.drop (addr + text.length)

theorem length_splice (room : addr + text.length ≤ mem.length) :
    (splice mem addr text).length = mem.length := by
  simp only [splice, List.length_append, List.length_take, List.length_drop]
  omega

/-- What lies in front of the text, followed by it. -/
theorem take_splice (room : addr + text.length ≤ mem.length) :
    (splice mem addr text).take (addr + text.length) = mem.take addr ++ text := by
  have len : (mem.take addr ++ text).length = addr + text.length := by
    rw [List.length_append, List.length_take]
    omega
  rw [splice, ← len, List.take_left]

/-- What lies behind the text. -/
theorem drop_splice (room : addr + text.length ≤ mem.length) :
    (splice mem addr text).drop (addr + text.length) = mem.drop (addr + text.length) := by
  have len : (mem.take addr ++ text).length = addr + text.length := by
    rw [List.length_append, List.length_take]
    omega
  rw [splice, List.drop_left' len]

theorem splice_nil (mem : List α) (addr : Nat) : splice mem addr [] = mem := by
  rw [splice, List.append_nil, List.length_nil, Nat.add_zero, List.take_append_drop]

/-- A text behind another one. -/
theorem splice_append (room : addr + p.length ≤ mem.length) :
    splice (splice mem addr p) (addr + p.length) q = splice mem addr (p ++ q) := by
  have behind : (splice mem addr p).drop (addr + p.length + q.length) =
      mem.drop (addr + (p ++ q).length) := by
    rw [← List.drop_drop, drop_splice room, List.drop_drop, List.length_append, Nat.add_assoc]
  rw [splice, take_splice room, behind, splice, List.append_assoc (mem.take addr)]

/-- A text in front of another one. -/
theorem splice_front (room : addr + (p ++ q).length ≤ mem.length) :
    splice (splice mem (addr + p.length) q) addr p = splice mem addr (p ++ q) := by
  rw [List.length_append] at room
  have front : (splice mem (addr + p.length) q).take addr = mem.take addr := by
    rw [splice, List.append_assoc, List.take_append_of_le_length (by rw [List.length_take]; omega),
      List.take_take, Nat.min_eq_left (Nat.le_add_right _ _)]
  have behind : (splice mem (addr + p.length) q).drop (addr + p.length) =
      q ++ mem.drop (addr + p.length + q.length) := by
    rw [splice, List.append_assoc, List.drop_left' (by rw [List.length_take]; omega)]
  rw [splice, front, behind, splice, List.length_append, Nat.add_assoc]
  simp only [List.append_assoc]

theorem store_eq (inside : addr < mem.length) : store mem addr c = some (splice mem addr [c]) := by
  rw [store, if_pos inside, List.set_eq_take_append_cons_drop, if_pos inside, splice,
    List.length_singleton, List.append_assoc, List.singleton_append]

/-- The cell behind a text. -/
theorem store_splice (room : addr + p.length < mem.length) :
    store (splice mem addr p) (addr + p.length) c = some (splice mem addr (p ++ [c])) := by
  have before := Nat.le_of_lt room
  rw [store_eq (by rw [length_splice before]; exact room), splice_append before]

theorem splice_cons (inside : addr < mem.length) :
    splice mem addr (c :: text) = splice (mem.set addr c) (addr + 1) text := by
  have first : mem.set addr c = splice mem addr [c] := by
    have stored := store_eq (c := c) inside
    rw [store, if_pos inside] at stored
    exact Option.some.inj stored
  have behind := @splice_append _ mem [c] text addr inside
  rw [first]
  exact behind.symm

/-- **A text that ends inside the block is stored in it.** -/
theorem storeAll_eq (room : addr + text.length ≤ mem.length) :
    storeAll mem addr text = some (splice mem addr text) := by
  induction text generalizing mem addr with
  | nil => rw [storeAll, splice_nil]
  | cons c text ih =>
      rw [List.length_cons] at room
      have inside : addr < mem.length := by omega
      rw [storeAll, store, if_pos inside, Option.bind_some, splice_cons inside]
      exact ih (by rw [List.length_set]; omega)

/-- The front part of a text turned round where it lies. -/
theorem reverse_splice (room : addr + (p ++ q).length ≤ mem.length) :
    reverse (splice mem addr (p ++ q)) addr (addr + p.length) =
      some (splice mem addr (p.reverse ++ q)) := by
  have size : (mem.take addr).length = addr := by
    rw [List.length_take]
    omega
  have front : splice mem addr (p ++ q) =
      mem.take addr ++ p ++ (q ++ mem.drop (addr + (p ++ q).length)) := by
    rw [splice]
    simp only [List.append_assoc]
  have len : (mem.take addr ++ p).length = addr + p.length := by
    rw [List.length_append, size]
  have inside : addr + p.length ≤ (splice mem addr (p ++ q)).length := by
    rw [length_splice room]
    rw [List.length_append] at room
    omega
  rw [reverse, if_pos inside, front, List.take_left' len, List.drop_left' len,
    List.append_assoc (mem.take addr), List.take_left' size, List.drop_left' size, splice]
  simp only [List.append_assoc, List.length_append, List.length_reverse]

end LaliRpc.Theory.Memory
