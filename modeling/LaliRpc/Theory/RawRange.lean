/-
# Theory.RawRange — walking a range of memory through a pair of pointers

The library algorithms that take `[first, last)` as two pointers, as the loops
they are: every cell looked at is an event, the address read. Where the pointers
are the wrong way round, or a second sequence is too short for the first, the
loop would leave the memory it was given; that is a fault.

`Within lo hi x a` says that `x` comes to `a` without a fault and reads only
addresses of `[lo, hi)`. It is closed under sequencing (`Within.bind`), and each
walk has a lemma that says what it comes to where a text lies in memory (`Holds`;
`within_find`, `within_copy`, `within_equal`).
-/
import LaliRpc.Theory.Exec

namespace LaliRpc.Theory

set_option autoImplicit false

/-- How a walk leaves its range. -/
inductive Stray where
  /-- `last` lies in front of `first`. -/
  | reversed
  /-- The second sequence of a comparison has come to its end. -/
  | exhausted
  deriving DecidableEq, Repr

/-- A computation on memory; its events are the addresses it reads. -/
abbrev Walk (β : Type) := Exec Nat Stray β

namespace Walk

variable {α β γ : Type}

/-- The `n` cells from `first` on. -/
def cells (mem : Nat → α) (first n : Nat) : List α := (List.range' first n).map mem

@[simp] theorem length_cells (mem : Nat → α) (first n : Nat) : (cells mem first n).length = n := by
  simp [cells]

/-- The text lies in memory from `first` on. -/
def Holds (mem : Nat → α) : Nat → List α → Prop
  | _, [] => True
  | first, a :: text => mem first = a ∧ Holds mem (first + 1) text

theorem holds_cells (mem : Nat → α) (first n : Nat) : Holds mem first (cells mem first n) := by
  induction n generalizing first with
  | zero => exact trivial
  | succ n ih =>
      rw [cells, List.range'_succ, List.map_cons]
      exact ⟨rfl, ih (first + 1)⟩

theorem holds_append {mem : Nat → α} {first : Nat} {p q : List α} :
    Holds mem first (p ++ q) ↔ Holds mem first p ∧ Holds mem (first + p.length) q := by
  induction p generalizing first with
  | nil => simp [Holds]
  | cons a p ih =>
      have shift : first + 1 + p.length = first + (a :: p).length := by
        simp
        omega
      simp only [List.cons_append, Holds, ih, shift, and_assoc]

/-! ## The walks -/

/-- `*at` -/
def read (mem : Nat → α) (addr : Nat) : Walk α := ⟨[addr], .ok (mem addr)⟩

/-- `last - first`, for a range. -/
def distance (first last : Nat) : Walk Nat :=
  if last < first then Exec.raise .reversed else pure (last - first)

/-- The loop that copies `n` cells. -/
def copyOf (mem : Nat → α) : Nat → Nat → Walk (List α)
  | 0, _ => pure []
  | n + 1, first => do
      let a ← read mem first
      let rest ← copyOf mem n (first + 1)
      pure (a :: rest)

/-- `std::string(first, last)`, `assign(first, last)` -/
def copy (mem : Nat → α) (first last : Nat) : Walk (List α) := do
  let n ← distance first last
  copyOf mem n first

/-- The loop of `find`, for `n` cells. -/
def findIn [DecidableEq α] (mem : Nat → α) (c : α) : Nat → Nat → Walk Nat
  | 0, first => pure first
  | n + 1, first => do
      let a ← read mem first
      if a = c then pure first else findIn mem c n (first + 1)

/-- `std::find(first, last, c)` -/
def find [DecidableEq α] (mem : Nat → α) (first last : Nat) (c : α) : Walk Nat := do
  let n ← distance first last
  findIn mem c n first

/-- The loop of `equal`; it ends at the first difference. -/
def equalIn [DecidableEq α] (mem : Nat → α) : Nat → Nat → List α → Walk Bool
  | 0, _, _ => pure true
  | _ + 1, _, [] => Exec.raise .exhausted
  | n + 1, first, b :: text => do
      let a ← read mem first
      if a = b then equalIn mem n (first + 1) text else pure false

/-- `std::equal(first, last, text)` -/
def equal [DecidableEq α] (mem : Nat → α) (first last : Nat) (text : List α) : Walk Bool := do
  let n ← distance first last
  equalIn mem n first text

/-! ## Walks that stay in a range -/

/-- `x` comes to `b` and reads nothing outside `[lo, hi)`. -/
def Within (lo hi : Nat) (x : Walk β) (b : β) : Prop :=
  x.result = .ok b ∧ ∀ addr ∈ x.events, lo ≤ addr ∧ addr < hi

namespace Within

variable {lo hi lo' hi' : Nat} {x : Walk β} {b : β} {k : β → Walk γ} {c : γ}

theorem pure (b : β) : Within lo hi (Pure.pure b) b := by
  refine ⟨rfl, fun addr none => ?_⟩
  simp [Exec.pure_def] at none

theorem bind (first : Within lo hi x b) (second : Within lo hi (k b) c) :
    Within lo hi (x >>= k) c := by
  rw [Within, Exec.bind_ok first.1]
  refine ⟨second.1, fun addr mem => ?_⟩
  rcases List.mem_append.mp mem with early | late
  · exact first.2 addr early
  · exact second.2 addr late

theorem mono (h : Within lo hi x b) (below : lo' ≤ lo) (above : hi ≤ hi') :
    Within lo' hi' x b := by
  refine ⟨h.1, fun addr mem => ?_⟩
  have inside := h.2 addr mem
  omega

end Within

section Specs

variable {mem : Nat → α} {c : α} {first last : Nat} {p q text : List α}

theorem within_read (addr : Nat) : Within addr (addr + 1) (read mem addr) (mem addr) := by
  refine ⟨rfl, fun a h => ?_⟩
  obtain rfl : a = addr := by simpa [read] using h
  omega

theorem within_distance (n : Nat) : Within first last (distance first (first + n)) n := by
  rw [distance, if_neg (by omega), Nat.add_sub_cancel_left]
  exact Within.pure n

theorem within_copyOf (holds : Holds mem first p) :
    Within first (first + p.length) (copyOf mem p.length first) p := by
  induction p generalizing first with
  | nil => exact Within.pure []
  | cons a p ih =>
      obtain ⟨rfl, rest⟩ := holds
      have wide : first + 1 + p.length = first + (mem first :: p).length := by
        simp
        omega
      apply Within.bind ((within_read first).mono (Nat.le_refl _) (by omega))
      apply Within.bind ((ih rest).mono (by omega) (Nat.le_of_eq wide))
      exact Within.pure _

/-- A copy is the text that lies there. -/
theorem within_copy (holds : Holds mem first p) (ends : last = first + p.length) :
    Within first last (copy mem first last) p := by
  subst ends
  exact (within_distance p.length).bind (within_copyOf holds)

variable [DecidableEq α]

theorem within_findIn (holds : Holds mem first p) :
    Within first (first + p.length) (findIn mem c p.length first) (first + p.idxOf c) := by
  induction p generalizing first with
  | nil => exact Within.pure first
  | cons a p ih =>
      obtain ⟨rfl, rest⟩ := holds
      have wide : first + 1 + p.length = first + (mem first :: p).length := by
        simp
        omega
      apply Within.bind ((within_read first).mono (Nat.le_refl _) (by omega))
      by_cases same : mem first = c
      · rw [if_pos same, List.idxOf_cons_eq _ same]
        exact Within.pure first
      · have shift : first + 1 + p.idxOf c = first + (p.idxOf c).succ := by omega
        rw [if_neg same, List.idxOf_cons_ne _ same, ← shift]
        exact (ih rest).mono (by omega) (Nat.le_of_eq wide)

/-- `find` comes to the first `c`. -/
theorem within_find (holds : Holds mem first (p ++ c :: q)) (free : c ∉ p)
    (ends : last = first + (p ++ c :: q).length) :
    Within first last (find mem first last c) (first + p.length) := by
  subst ends
  have found : (p ++ c :: q).idxOf c = p.length := by
    rw [List.idxOf_append_of_notMem free, List.idxOf_cons_self, Nat.add_zero]
  rw [← found]
  exact (within_distance _).bind (within_findIn holds)

/-- Without one it comes to the end. -/
theorem within_find_none (holds : Holds mem first p) (free : c ∉ p)
    (ends : last = first + p.length) : Within first last (find mem first last c) last := by
  subst ends
  have found := @within_findIn α mem c first p _ holds
  rw [List.idxOf_eq_length free] at found
  exact (within_distance _).bind found

theorem within_equalIn (holds : Holds mem first p) (size : p.length = text.length) :
    Within first (first + p.length) (equalIn mem p.length first text) (decide (p = text)) := by
  induction p generalizing first text with
  | nil =>
      obtain rfl : text = [] := List.eq_nil_of_length_eq_zero size.symm
      exact Within.pure true
  | cons a p ih =>
      obtain _ | ⟨b, text⟩ := text
      · simp at size
      obtain ⟨rfl, rest⟩ := holds
      have wide : first + 1 + p.length = first + (mem first :: p).length := by
        simp
        omega
      apply Within.bind ((within_read first).mono (Nat.le_refl _) (by omega))
      by_cases same : mem first = b
      · have later := ih rest (Nat.succ.inj size)
        rw [if_pos same]
        simp only [List.cons.injEq, same, true_and]
        exact later.mono (by omega) (Nat.le_of_eq wide)
      · rw [if_neg same]
        simpa [same] using @Within.pure _ first (first + (mem first :: p).length) false

/-- `equal` on a range as long as the text. -/
theorem within_equal (holds : Holds mem first p) (size : p.length = text.length)
    (ends : last = first + p.length) :
    Within first last (equal mem first last text) (decide (p = text)) := by
  subst ends
  exact (within_distance _).bind (within_equalIn holds size)

end Specs

end Walk

end LaliRpc.Theory
