/-
# Theory.History — what holds at each event of a history

A history is the list of the events so far. `AtEach P` says of each of them that it
happened as `P` wants it, given the events before. A history grows at its end, and the
rules below say what one more event (`atEach_concat`) or several that `P` does not
concern (`atEach_append_of`) add.
-/
import Mathlib.Data.List.Induction

namespace LaliRpc.Theory

set_option autoImplicit false

variable {ε : Type}

/-- Each event satisfies `P` with the events before it. -/
def AtEach (P : List ε → ε → Prop) (history : List ε) : Prop :=
  ∀ early e late, history = early ++ e :: late → P early e

variable {P : List ε → ε → Prop} {history : List ε}

theorem atEach_nil : AtEach P [] := by
  intro early e late cut
  simp at cut

theorem atEach_concat {e : ε} : AtEach P (history ++ [e]) ↔ AtEach P history ∧ P history e := by
  constructor
  · intro all
    refine ⟨fun early e' late cut => all early e' (late ++ [e]) ?_, all history e [] rfl⟩
    simp [cut]
  · rintro ⟨all, last⟩ early e' late cut
    induction late using List.reverseRecOn with
    | nil =>
        obtain ⟨rfl, same⟩ := List.append_inj' cut rfl
        rw [← List.singleton_inj.mp same]
        exact last
    | append_singleton late e'' _ =>
        rw [← List.cons_append, ← List.append_assoc] at cut
        obtain ⟨rfl, -⟩ := List.append_inj' cut rfl
        exact all early e' late rfl

/-- Events that satisfy `P` whatever came before them change nothing. -/
theorem atEach_append_of {events : List ε} (free : ∀ e ∈ events, ∀ early, P early e) :
    AtEach P (history ++ events) ↔ AtEach P history := by
  induction events using List.reverseRecOn with
  | nil => rw [List.append_nil]
  | append_singleton events e ih =>
      rw [← List.append_assoc, atEach_concat, ih fun e' mem => free e' (List.mem_append_left _ mem)]
      exact and_iff_left (free e (by simp) _)

end LaliRpc.Theory
