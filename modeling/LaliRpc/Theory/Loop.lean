/-
# Theory.Loop — `while (true)` loops with `break` and `throw`

One pass through a loop body either asks for another pass, breaks, or throws;
in each case the state it leaves is kept (a throw does not roll back). `spin`
runs the body a bounded number of times and is `none` when the bound was too
small. A `Loop` carries the measure that every repeated pass decreases, so its
`run` is total: `Loop.run` takes the bound from the measure, and `run_eq` is the
loop's own equation, with no bound in it.
-/
import Mathlib.Data.List.Basic

namespace LaliRpc.Theory

set_option autoImplicit false

/-- What one pass through the body did. -/
inductive Pass (σ ε τ : Type) where
  | next (state : σ) (events : List ε)
  | stop (state : σ)
  | raise (state : σ) (events : List ε) (thrown : τ)

/-- How the loop ended: the state it left, what it performed, and the fault if
it was left by a throw. -/
structure Ended (σ ε τ : Type) where
  state : σ
  events : List ε
  thrown : Option τ

namespace Ended

variable {σ ε τ : Type}

/-- The same ending after earlier passes that performed `es`. -/
def after (es : List ε) (e : Ended σ ε τ) : Ended σ ε τ := { e with events := es ++ e.events }

end Ended

/-- The ending of a loop whose last pass this is. -/
def Pass.ended {σ ε τ : Type} : Pass σ ε τ → Ended σ ε τ
  | .next s es => ⟨s, es, none⟩
  | .stop s => ⟨s, [], none⟩
  | .raise s es t => ⟨s, es, some t⟩

/-- At most `n` passes; `none` when the body still wanted to go on. -/
def spin {σ ε τ : Type} (body : σ → Pass σ ε τ) : Nat → σ → Option (Ended σ ε τ)
  | 0, _ => none
  | n + 1, s =>
      match body s with
      | .next s' es => (spin body n s').map (Ended.after es)
      | .stop s' => some ⟨s', [], none⟩
      | .raise s' es t => some ⟨s', es, some t⟩

/-- What the passes keep, those that break included, holds where the loop breaks. -/
theorem spin_invariant {σ ε τ : Type} {body : σ → Pass σ ε τ} {I : σ → Prop}
    (next : ∀ s s' es, I s → body s = .next s' es → I s')
    (stop : ∀ s s', I s → body s = .stop s' → I s') {n : Nat} {s t : σ} {es : List ε}
    (done : spin body n s = some ⟨t, es, none⟩) (start : I s) : I t := by
  induction n generalizing s es with
  | zero => cases done
  | succ n ih =>
      rw [spin] at done
      cases passed : body s with
      | next s' es' =>
          simp only [passed, Option.map_eq_some_iff] at done
          obtain ⟨⟨t', late, none'⟩, rest, after⟩ := done
          simp only [Ended.after, Ended.mk.injEq] at after
          obtain ⟨rfl, -, rfl⟩ := after
          exact ih rest (next s s' es' start passed)
      | stop s' =>
          simp only [passed, Option.some.injEq, Ended.mk.injEq] at done
          obtain ⟨rfl, -, -⟩ := done
          exact stop s s' start passed
      | raise s' es' thrown => simp [passed] at done

/-- A loop body together with the measure its repeated passes decrease. -/
structure Loop (σ ε τ : Type) where
  body : σ → Pass σ ε τ
  measure : σ → Nat
  decreases : ∀ s s' es, body s = .next s' es → measure s' < measure s

namespace Loop

variable {σ ε τ : Type} (l : Loop σ ε τ)

theorem spin_isSome (n : Nat) (s : σ) (enough : l.measure s < n) :
    (spin l.body n s).isSome := by
  induction n generalizing s with
  | zero => omega
  | succ n ih =>
      rw [spin]
      cases h : l.body s with
      | next s' es =>
          have := l.decreases s s' es h
          simpa using ih s' (by omega)
      | stop s' => rfl
      | raise s' es t => rfl

/-- Once a bound is large enough, a larger one changes nothing. -/
theorem spin_mono {n m : Nat} (le : n ≤ m) {s : σ} {e : Ended σ ε τ}
    (h : spin l.body n s = some e) : spin l.body m s = some e := by
  induction n generalizing m s e with
  | zero => simp [spin] at h
  | succ n ih =>
      obtain ⟨m, rfl⟩ : ∃ k, m = k + 1 := ⟨m - 1, by omega⟩
      rw [spin] at h ⊢
      cases hb : l.body s with
      | next s' es =>
          simp only [hb, Option.map_eq_some_iff] at h ⊢
          obtain ⟨e', found, rfl⟩ := h
          exact ⟨e', ih (by omega) found, rfl⟩
      | stop s' => simpa [hb] using h
      | raise s' es t => simpa [hb] using h

/-- The loop, run to its end. -/
def run (s : σ) : Ended σ ε τ :=
  (spin l.body (l.measure s + 1) s).get (l.spin_isSome _ s (Nat.lt_succ_self _))

theorem spin_measure (s : σ) : spin l.body (l.measure s + 1) s = some (l.run s) := by
  simp [run]

theorem run_of_spin {n : Nat} {s : σ} {e : Ended σ ε τ} (h : spin l.body n s = some e) :
    l.run s = e := by
  have own := l.spin_measure s
  have big := l.spin_mono (Nat.le_max_left n (l.measure s + 1)) h
  have big' := l.spin_mono (Nat.le_max_right n (l.measure s + 1)) own
  exact Option.some.inj (big'.symm.trans big)

theorem run_next {s s' : σ} {es : List ε} (h : l.body s = .next s' es) :
    l.run s = (l.run s').after es := by
  have twice : spin l.body (l.measure s' + 1 + 1) s = some ((l.run s').after es) := by
    rw [spin, h]
    exact congrArg (Option.map (Ended.after es)) (l.spin_measure s')
  exact l.run_of_spin twice

theorem run_stop {s s' : σ} (h : l.body s = .stop s') : l.run s = ⟨s', [], none⟩ := by
  have once : spin l.body 1 s = some ⟨s', [], none⟩ := by rw [spin, h]
  exact l.run_of_spin once

theorem run_raise {s s' : σ} {es : List ε} {t : τ} (h : l.body s = .raise s' es t) :
    l.run s = ⟨s', es, some t⟩ := by
  have once : spin l.body 1 s = some ⟨s', es, some t⟩ := by rw [spin, h]
  exact l.run_of_spin once

/-- A loop that breaks on whatever a repeating pass leaves makes one real pass. -/
theorem run_once {s : σ} (breaks : ∀ s' es, l.body s = .next s' es → l.body s' = .stop s') :
    l.run s = (l.body s).ended := by
  cases h : l.body s with
  | next s' es =>
      rw [l.run_next h, l.run_stop (breaks s' es h)]
      simp [Ended.after, Pass.ended]
  | stop s' => exact l.run_stop h
  | raise s' es t => exact l.run_raise h

end Loop

end LaliRpc.Theory
