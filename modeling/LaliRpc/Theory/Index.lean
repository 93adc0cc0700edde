/-
# Theory.Index — an index over a heap

`Indexes key heap entries` says that the entries are the live cells of a heap, each
once and under the key that its contents have. An entry is added with its cell
(`add`), goes with it (`remove`) or follows a change of its contents (`change`).

The entries of an ordered index below a bound are its front (`takeWhile_eq_filter`).
-/
import Mathlib.Data.List.Nodup
import Mathlib.Logic.Function.Basic

namespace LaliRpc.Theory

set_option autoImplicit false

variable {A V K : Type}

structure Indexes (key : V → K) (heap : A → Option V) (entries : List (K × A)) : Prop where
  found : ∀ e ∈ entries, ∃ v, heap e.2 = some v ∧ key v = e.1
  all : ∀ a v, heap a = some v → (key v, a) ∈ entries
  distinct : (entries.map Prod.snd).Nodup

namespace Indexes

variable {key : V → K} {heap : A → Option V} {entries entries' : List (K × A)} {a : A} {v : V}

theorem perm (h : Indexes key heap entries) (same : entries.Perm entries') :
    Indexes key heap entries' where
  found e mem := h.found e (same.mem_iff.mpr mem)
  all a v live := same.mem_iff.mp (h.all a v live)
  distinct := (same.map _).nodup_iff.mp h.distinct

theorem nodup (h : Indexes key heap entries) : entries.Nodup := h.distinct.of_map _

theorem notMem_of_free (h : Indexes key heap entries) (free : heap a = none) :
    a ∉ entries.map Prod.snd := by
  intro mem
  obtain ⟨e, inside, rfl⟩ := List.mem_map.mp mem
  obtain ⟨v, live, -⟩ := h.found e inside
  rw [free] at live
  cases live

variable [DecidableEq A]

theorem add (h : Indexes key heap entries) (free : heap a = none) (v : V) :
    Indexes key (Function.update heap a (some v)) ((key v, a) :: entries) where
  found e mem := by
    rcases List.mem_cons.mp mem with rfl | old
    · exact ⟨v, Function.update_self _ _ _, rfl⟩
    · have other : e.2 ≠ a := fun same =>
        h.notMem_of_free free (same ▸ List.mem_map_of_mem old)
      rw [Function.update_of_ne other]
      exact h.found e old
  all b w live := by
    by_cases same : b = a
    · subst same
      rw [Function.update_self] at live
      rw [Option.some.inj live]
      exact List.mem_cons_self
    · rw [Function.update_of_ne same] at live
      exact List.mem_cons_of_mem _ (h.all b w live)
  distinct := List.nodup_cons.mpr ⟨h.notMem_of_free free, h.distinct⟩

theorem remove {e : K × A} (h : Indexes key heap (e :: entries)) :
    Indexes key (Function.update heap e.2 none) entries where
  found f mem := by
    have other : f.2 ≠ e.2 := fun same =>
      (List.nodup_cons.mp h.distinct).1 (same ▸ List.mem_map_of_mem mem)
    rw [Function.update_of_ne other]
    exact h.found f (List.mem_cons_of_mem _ mem)
  all b w live := by
    by_cases same : b = e.2
    · subst same
      rw [Function.update_self] at live
      cases live
    · rw [Function.update_of_ne same] at live
      refine (List.mem_cons.mp (h.all b w live)).resolve_left ?_
      rintro rfl
      exact same rfl
  distinct := (List.nodup_cons.mp h.distinct).2

theorem change {e : K × A} (h : Indexes key heap (e :: entries)) (v : V) :
    Indexes key (Function.update heap e.2 (some v)) ((key v, e.2) :: entries) := by
  have again := h.remove.add (Function.update_self e.2 none heap) v
  rwa [Function.update_idem] at again

end Indexes

/-! ## The front of an ordered list -/

section Front

variable {α : Type} {r : α → α → Prop} {p : α → Bool} {l : List α}

/-- In an ordered list the elements that a downward closed test accepts come first. -/
theorem takeWhile_eq_filter (ordered : l.Pairwise r)
    (down : ∀ a b, r a b → p b = true → p a = true) : l.takeWhile p = l.filter p := by
  induction l with
  | nil => rfl
  | cons a l ih =>
      obtain ⟨before, rest⟩ := List.pairwise_cons.mp ordered
      by_cases here : p a = true
      · rw [List.takeWhile_cons_of_pos here, List.filter_cons_of_pos here, ih rest]
      · have none : ∀ b ∈ l, ¬ p b = true := fun b mem accepted =>
          here (down a b (before b mem) accepted)
        rw [List.takeWhile_cons_of_neg here, List.filter_cons_of_neg here,
          List.filter_eq_nil_iff.mpr none]

theorem dropWhile_eq_filter (ordered : l.Pairwise r)
    (down : ∀ a b, r a b → p b = true → p a = true) :
    l.dropWhile p = l.filter fun a => !p a := by
  induction l with
  | nil => rfl
  | cons a l ih =>
      obtain ⟨before, rest⟩ := List.pairwise_cons.mp ordered
      by_cases here : p a = true
      · rw [List.dropWhile_cons_of_pos here, List.filter_cons_of_neg (by simp [here]), ih rest]
      · have all : ∀ b ∈ a :: l, (!p b) = true := by
          intro b mem
          rcases List.mem_cons.mp mem with rfl | later
          · simpa using here
          · by_contra accepted
            exact here (down a b (before b later) (by simpa using accepted))
        rw [List.dropWhile_cons_of_neg here, List.filter_eq_self.mpr all]

end Front

end LaliRpc.Theory
