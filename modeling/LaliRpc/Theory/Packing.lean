/-
# Theory.Packing — messages packed into chunks

Messages are put one after another into chunks. `Packed` says that the chunks
hold exactly these messages in this order and that none of them lies in two
chunks. The rules are the three things a writer does: put a message behind the
others of the last chunk (`into_last`), begin a chunk with it (`into_new`), or
begin an empty chunk (`new`).
-/
import Mathlib.Data.List.Basic

namespace LaliRpc.Theory

set_option autoImplicit false

variable {α : Type} {messages chunks rest : List (List α)} {c m : List α}

/-- Each chunk is the concatenation of its share of the messages. -/
def Packed (messages chunks : List (List α)) : Prop :=
  ∃ shares : List (List (List α)), shares.flatten = messages ∧ shares.map List.flatten = chunks

namespace Packed

theorem nil : Packed (α := α) [] [] := ⟨[], rfl, rfl⟩

theorem new (h : Packed messages chunks) : Packed messages (chunks ++ [[]]) := by
  obtain ⟨shares, rfl, rfl⟩ := h
  exact ⟨shares ++ [[]], by simp, by simp⟩

theorem into_new (h : Packed messages chunks) (m : List α) :
    Packed (messages ++ [m]) (chunks ++ [m]) := by
  obtain ⟨shares, rfl, rfl⟩ := h
  exact ⟨shares ++ [[m]], by simp, by simp⟩

theorem into_last (h : Packed messages (chunks ++ [c])) (m : List α) :
    Packed (messages ++ [m]) (chunks ++ [c ++ m]) := by
  obtain ⟨shares, rfl, packed⟩ := h
  obtain ⟨early, last, rfl, rfl, single⟩ := List.map_eq_append_iff.mp packed
  obtain ⟨share, rfl, rfl⟩ := List.map_eq_singleton_iff.mp single
  exact ⟨early ++ [share ++ [m]], by simp, by simp⟩

/-- The bytes are the same. -/
theorem flatten_eq (h : Packed messages chunks) : messages.flatten = chunks.flatten := by
  obtain ⟨shares, rfl, rfl⟩ := h
  exact List.flatten_flatten

/-- Some of the chunks hold a first part of the messages. -/
theorem split (h : Packed messages (chunks ++ rest)) :
    ∃ early, early <+: messages ∧ Packed early chunks := by
  obtain ⟨shares, rfl, packed⟩ := h
  obtain ⟨first, last, rfl, rfl, -⟩ := List.map_eq_append_iff.mp packed
  refine ⟨first.flatten, ?_, first, rfl, rfl⟩
  rw [List.flatten_append]
  exact List.prefix_append _ _

end Packed

end LaliRpc.Theory
