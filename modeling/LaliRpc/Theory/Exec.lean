/-
# Theory.Exec — computations that perform events and may throw

A finished computation is the events it performed, in order, and how it ended:
with a value, or with a thrown fault. Events performed before a throw stay
performed, which is what separates `Exec` from `Except`: sequencing after a
throw adds nothing (`bind_error`), but it takes nothing back.

`forEach` is a `for` loop over a list whose body may throw. `reached` lists the
outcomes of the iterations that actually ran, and the two meet in
`forEach_events`: the loop's events are those of its reached iterations.
`leaving` is a scope exit that happens on both paths (a destructor).
-/
import Mathlib.Data.List.Basic

namespace LaliRpc.Theory

set_option autoImplicit false

/-- The events performed and the way the computation ended. -/
structure Exec (ε τ α : Type) where
  events : List ε
  result : Except τ α

namespace Exec

variable {ε τ α β : Type}

protected def pure (a : α) : Exec ε τ α := ⟨[], .ok a⟩

protected def bind (x : Exec ε τ α) (k : α → Exec ε τ β) : Exec ε τ β :=
  match x.result with
  | .ok a => ⟨x.events ++ (k a).events, (k a).result⟩
  | .error t => ⟨x.events, .error t⟩

instance : Monad (Exec ε τ) where
  pure := Exec.pure
  bind := Exec.bind

/-- A check without events. -/
def ofExcept (x : Except τ α) : Exec ε τ α := ⟨[], x⟩

instance : MonadLift (Except τ) (Exec ε τ) where
  monadLift := ofExcept

def raise (t : τ) : Exec ε τ α := ⟨[], .error t⟩

def emit (e : ε) : Exec ε τ Unit := ⟨[e], .ok ()⟩

/-- Leave a scope: `e` happens whether or not `x` threw. -/
def leaving (x : Exec ε τ α) (e : ε) : Exec ε τ α := ⟨x.events ++ [e], x.result⟩

/-- The fault the computation ended with, if any. -/
def thrown (x : Exec ε τ α) : Option τ :=
  match x.result with
  | .ok _ => none
  | .error t => some t

theorem thrown_eq_some_iff {x : Exec ε τ α} {t : τ} : x.thrown = some t ↔ x.result = .error t := by
  unfold thrown
  cases x.result <;> simp

/-- The computation ended without a throw. -/
def Returns (x : Exec ε τ α) : Prop := ∃ a, x.result = .ok a

theorem pure_def (a : α) : (pure a : Exec ε τ α) = ⟨[], .ok a⟩ := rfl

theorem bind_def (x : Exec ε τ α) (k : α → Exec ε τ β) : x >>= k = x.bind k := rfl

@[simp] theorem ofExcept_ok (a : α) : (ofExcept (.ok a) : Exec ε τ α) = pure a := rfl

@[simp] theorem ofExcept_error (t : τ) : (ofExcept (.error t) : Exec ε τ α) = raise t := rfl

@[simp] theorem monadLift_eq (x : Except τ α) :
    (monadLift x : Exec ε τ α) = ofExcept x := rfl

@[simp] theorem pure_bind (a : α) (k : α → Exec ε τ β) : (pure a >>= k) = k a := by
  simp [pure_def, bind_def, Exec.bind]

@[simp] theorem raise_bind (t : τ) (k : α → Exec ε τ β) : (raise t >>= k) = raise t := rfl

theorem bind_ok {x : Exec ε τ α} {a : α} (h : x.result = .ok a) (k : α → Exec ε τ β) :
    x >>= k = ⟨x.events ++ (k a).events, (k a).result⟩ := by
  simp only [bind_def, Exec.bind, h]

theorem bind_error {x : Exec ε τ α} {t : τ} (h : x.result = .error t) (k : α → Exec ε τ β) :
    x >>= k = ⟨x.events, .error t⟩ := by
  simp only [bind_def, Exec.bind, h]

@[simp] theorem events_raise (t : τ) : (raise t : Exec ε τ α).events = [] := rfl

/-! ## Loops over a list -/

/-- `for (a : as) f(a);` with the loop left by the first throw. -/
def forEach (f : α → Exec ε τ Unit) : List α → Exec ε τ Unit
  | [] => pure ()
  | a :: as => f a >>= fun _ => forEach f as

/-- The outcomes of the iterations that ran: up to and including the first that
threw. -/
def reached (f : α → Exec ε τ Unit) : List α → List (Exec ε τ Unit)
  | [] => []
  | a :: as =>
      f a :: match (f a).result with
        | .ok _ => reached f as
        | .error _ => []

theorem forEach_events (f : α → Exec ε τ Unit) (as : List α) :
    (forEach f as).events = (reached f as).flatMap Exec.events := by
  induction as with
  | nil => rfl
  | cons a as ih =>
      cases h : (f a).result with
      | ok u => simp [forEach, reached, bind_ok h, h, ih]
      | error t => simp [forEach, reached, bind_error h, h]

/-- Iteration `i` ran exactly when no earlier one threw, and its outcome is the
body's at element `i`. -/
theorem reached_getElem? (f : α → Exec ε τ Unit) (as : List α) (i : Nat) (o : Exec ε τ Unit) :
    (reached f as)[i]? = some o ↔
      as[i]?.map f = some o ∧ ∀ j < i, ∀ a, as[j]? = some a → (f a).Returns := by
  induction as generalizing i with
  | nil => simp [reached]
  | cons a as ih =>
      cases i with
      | zero => simp [reached]
      | succ i =>
          cases h : (f a).result with
          | ok u =>
              simp only [reached, h, List.getElem?_cons_succ, ih]
              refine and_congr_right fun _ => ⟨fun rest j hj b hb => ?_, fun all j hj b hb => ?_⟩
              · cases j with
                | zero =>
                    obtain rfl : a = b := by simpa using hb
                    exact ⟨u, h⟩
                | succ j => exact rest j (by omega) b (by simpa using hb)
              · exact all (j + 1) (by omega) b (by simpa using hb)
          | error t =>
              simp only [reached, h, List.getElem?_cons_succ, List.getElem?_nil, reduceCtorEq,
                false_iff, not_and, not_forall]
              intro _
              refine ⟨0, by omega, a, by simp, ?_⟩
              rintro ⟨u, hu⟩
              rw [h] at hu
              cases hu

/-- A loop returns when every iteration does. -/
theorem forEach_returns_iff (f : α → Exec ε τ Unit) (as : List α) :
    (forEach f as).Returns ↔ ∀ a ∈ as, (f a).Returns := by
  induction as with
  | nil => exact iff_of_true ⟨(), rfl⟩ fun a mem => absurd mem List.not_mem_nil
  | cons a as ih =>
      rw [List.forall_mem_cons, ← ih, forEach]
      cases h : (f a).result with
      | ok u =>
          rw [bind_ok h]
          exact (and_iff_right ⟨u, h⟩).symm
      | error t =>
          rw [bind_error h]
          refine iff_of_false ?_ ?_
          · rintro ⟨u, ok⟩
            cases ok
          · rintro ⟨⟨u, ok⟩, -⟩
            rw [h] at ok
            cases ok

end Exec

end LaliRpc.Theory
