/-
# Theory.Crew — threads in a list, one of which takes a step

The threads of a program are a list of where each of them is. `Moves a b ws ws'`
is the step of one of them from `a` to `b`; the others stay where they are. The
lemmas say what it does to how many threads are somewhere and to what the
threads hold. `Answered` is the invariant of a condition variable that no signal is
lost on, with a rule for each kind of step.
-/
import Mathlib.Algebra.GroupWithZero.Nat
import Mathlib.Data.List.Perm.Basic

namespace LaliRpc.Theory

set_option autoImplicit false

variable {α β : Type} {a b c : α} {ws ws' : List α}

/-- One thread goes from `a` to `b`. -/
def Moves (a b : α) (ws ws' : List α) : Prop :=
  ∃ before after, ws = before ++ a :: after ∧ ws' = before ++ b :: after

namespace Moves

theorem intro (before after : List α) (a b : α) :
    Moves a b (before ++ a :: after) (before ++ b :: after) := ⟨before, after, rfl, rfl⟩

/-- Whoever is somewhere now was there before, or is the one that moved. -/
theorem mem_or (moves : Moves a b ws ws') (mem : c ∈ ws') : c ∈ ws ∨ c = b := by
  obtain ⟨before, after, rfl, rfl⟩ := moves
  rw [List.mem_append, List.mem_cons] at mem
  rcases mem with early | rfl | late
  · exact .inl (List.mem_append_left _ early)
  · exact .inr rfl
  · exact .inl (List.mem_append_right _ (List.mem_cons_of_mem _ late))

theorem mem_of_ne (moves : Moves a b ws ws') (ne : c ≠ b) (mem : c ∈ ws') : c ∈ ws :=
  (moves.mem_or mem).resolve_right ne

section Counting

variable [DecidableEq α]

/-- Elsewhere there are as many as before. -/
theorem count_other (moves : Moves a b ws ws') (leaves : a ≠ c) (arrives : b ≠ c) :
    ws'.count c = ws.count c := by
  obtain ⟨before, after, rfl, rfl⟩ := moves
  simp [leaves, arrives]

theorem count_to (moves : Moves a b ws ws') (ne : a ≠ b) : ws'.count b = ws.count b + 1 := by
  obtain ⟨before, after, rfl, rfl⟩ := moves
  simp [ne]
  omega

theorem count_from (moves : Moves a b ws ws') (ne : a ≠ b) : ws.count a = ws'.count a + 1 := by
  obtain ⟨before, after, rfl, rfl⟩ := moves
  simp [ne.symm]
  omega

end Counting

section Some

variable {p : α → Bool}

theorem countP_same (moves : Moves a b ws ws') (same : p b = p a) :
    ws'.countP p = ws.countP p := by
  obtain ⟨before, after, rfl, rfl⟩ := moves
  simp [List.countP_cons, same]

/-- One fewer when the one that moves was among them and is not any more. -/
theorem countP_loss (moves : Moves a b ws ws') (was : p a = true) (isNot : p b = false) :
    ws.countP p = ws'.countP p + 1 := by
  obtain ⟨before, after, rfl, rfl⟩ := moves
  simp [was, isNot]
  omega

theorem length_eq (moves : Moves a b ws ws') : ws'.length = ws.length := by
  obtain ⟨before, after, rfl, rfl⟩ := moves
  simp

/-- Of what each contributes, only the share of the one that moved changes. -/
theorem sum_map (moves : Moves a b ws ws') (share : α → Nat) :
    (ws'.map share).sum + share a = (ws.map share).sum + share b := by
  obtain ⟨before, after, rfl, rfl⟩ := moves
  simp
  omega

/-- Somebody at `a` can go to `b`. -/
theorem exists_of_mem (mem : a ∈ ws) (b : α) : ∃ ws', Moves a b ws ws' := by
  obtain ⟨before, after, rfl⟩ := List.append_of_mem mem
  exact ⟨_, .intro before after a b⟩

end Some

/-! What the threads hold, by what each has at its place. -/

variable {held : α → Option β} {x : β}

theorem held_same (moves : Moves a b ws ws') (same : held b = held a) :
    ws'.filterMap held = ws.filterMap held := by
  obtain ⟨before, after, rfl, rfl⟩ := moves
  simp [List.filterMap_cons, same]

theorem held_gain (moves : Moves a b ws ws') (none' : held a = none) (gain : held b = some x) :
    (ws'.filterMap held).Perm (x :: ws.filterMap held) := by
  obtain ⟨before, after, rfl, rfl⟩ := moves
  simp only [List.filterMap_append, List.filterMap_cons, none', gain]
  exact List.perm_middle

theorem held_loss (moves : Moves a b ws ws') (some' : held a = some x) (none' : held b = none) :
    (ws.filterMap held).Perm (x :: ws'.filterMap held) := by
  obtain ⟨before, after, rfl, rfl⟩ := moves
  simp only [List.filterMap_append, List.filterMap_cons, none', some']
  exact List.perm_middle

/-- The thread at a position goes to `b`. -/
theorem of_set {i : Nat} (here : ws[i]? = some a) (b : α) : Moves a b ws (ws.set i b) := by
  obtain ⟨inside, rfl⟩ := List.getElem?_eq_some_iff.mp here
  refine ⟨ws.take i, ws.drop (i + 1), ?_, ?_⟩
  · rw [← List.drop_eq_getElem_cons inside, List.take_append_drop]
  · rw [List.set_eq_take_append_cons_drop, if_pos inside]

end Moves

/-! ## Signals

A condition variable that threads wait on while something is used up: whoever takes
of it takes one, and whoever adds one signals. -/

section Signals

variable {waiting notified : α}

/-- One of the threads that wait is notified, if any waits. -/
def Signals (waiting notified : α) (ws ws' : List α) : Prop :=
  Moves waiting notified ws ws' ∨ (waiting ∉ ws ∧ ws' = ws)

variable [DecidableEq α]

/-- While a thread waits, there are as many notified ones as there are things to take. -/
def Answered (waiting notified : α) (things : Nat) (ws : List α) : Prop :=
  waiting ∈ ws → things ≤ ws.count notified

namespace Answered

variable {things : Nat}

theorem none (waiting notified : α) (ws : List α) : Answered waiting notified 0 ws :=
  fun _ => Nat.zero_le _

/-- A signal answers for one thing more. -/
theorem signal (answered : Answered waiting notified things ws) (ne : waiting ≠ notified)
    (signals : Signals waiting notified ws ws') :
    Answered waiting notified (things + 1) ws' := by
  intro mem
  rcases signals with moves | ⟨nobody, rfl⟩
  · have before := answered (moves.mem_of_ne ne mem)
    rw [moves.count_to ne]
    omega
  · exact absurd mem nobody

/-- Whoever takes one, notified or not, uses up one notification at most. -/
theorem take (answered : Answered waiting notified (things + 1) ws) (moves : Moves a b ws ws')
    (awake : b ≠ waiting) (unnotified : b ≠ notified) : Answered waiting notified things ws' := by
  intro mem
  have before := answered (moves.mem_of_ne awake.symm mem)
  by_cases was : a = notified
  · subst was
    rw [moves.count_from unnotified.symm] at before
    omega
  · rw [moves.count_other was unnotified]
    omega

theorem move (answered : Answered waiting notified things ws) (moves : Moves a b ws ws')
    (awake : b ≠ waiting) (was : a ≠ notified) (unnotified : b ≠ notified) :
    Answered waiting notified things ws' := by
  intro mem
  rw [moves.count_other was unnotified]
  exact answered (moves.mem_of_ne awake.symm mem)

end Answered

end Signals

end LaliRpc.Theory
