/-
# Theory.Fueled — computations that may fault or run out of fuel

`Except` first: inversion of a bind, and `Faults`, the kinds of fault a
computation can end with.

`Fueled φ α` is a computation by recursion on a fuel number: `none` when the
fuel ran out, otherwise the value or the fault it ended with. `Yields x P` is
its total-correctness judgement: the fuel did not run out, and a value, if there
is one, satisfies `P`. One rule per way of building a computation; what a
recursive definition yields is then one induction on its fuel. `Settles` is for
computations that are given the fuel as an argument: what they come to when there
is enough. `Limit` is for those that may never have enough.
-/
import Mathlib.Order.Lattice

namespace LaliRpc.Theory

set_option autoImplicit false

theorem except_bind_eq_ok {φ α β : Type} {x : Except φ α} {k : α → Except φ β} {b : β} :
    (x >>= k) = .ok b ↔ ∃ a, x = .ok a ∧ k a = .ok b := by
  cases x with
  | error f => exact ⟨fun h => (by cases h), fun ⟨_, h, _⟩ => (by cases h)⟩
  | ok a => exact ⟨fun h => ⟨a, rfl, h⟩, fun ⟨_, same, h⟩ => by cases same; exact h⟩

@[simp] theorem except_ok_bind {φ α β : Type} (a : α) (k : α → Except φ β) :
    (Except.ok a >>= k) = k a := rfl

theorem except_map_eq_ok {φ α β : Type} {x : Except φ α} {f : α → β} {b : β} :
    x.map f = .ok b ↔ ∃ a, x = .ok a ∧ f a = b := by
  cases x <;> simp [Except.map]

/-- Every fault the computation can end with is one of `P`. -/
def Faults {φ α : Type} (P : φ → Prop) (x : Except φ α) : Prop := ∀ f, x = .error f → P f

theorem faults_ok {φ α : Type} (P : φ → Prop) (a : α) : Faults P (.ok a : Except φ α) :=
  fun _ h => by cases h

theorem faults_error {φ : Type} (α : Type) {P : φ → Prop} {f : φ} (h : P f) :
    Faults P (.error f : Except φ α) := fun g hg => by cases hg; exact h

theorem Faults.bind {φ α β : Type} {P : φ → Prop} {x : Except φ α} {k : α → Except φ β}
    (first : Faults P x) (rest : ∀ a, x = .ok a → Faults P (k a)) : Faults P (x >>= k) := by
  cases x with
  | error f => exact faults_error β (first f rfl)
  | ok a => exact rest a rfl

/-- What a computation comes to with any large enough amount of fuel: it is the
same as `y`, which is not stuck, and a value of it satisfies `P`. -/
structure Settles {φ β : Type} (stuck : φ) (x : Nat → Except φ β) (y : Except φ β)
    (P : β → Prop) : Prop where
  same : ∃ N, ∀ n, N ≤ n → x n = y
  done : y ≠ .error stuck
  value : ∀ b, y = .ok b → P b

theorem settles_ok {φ β : Type} {stuck : φ} {P : β → Prop} {b : β} (holds : P b) :
    Settles stuck (fun _ => .ok b) (.ok b) P :=
  ⟨⟨0, fun _ _ => rfl⟩, nofun, fun _ same => Except.ok.inj same ▸ holds⟩

theorem settles_error {φ β : Type} {stuck f : φ} (ne : f ≠ stuck) (P : β → Prop) :
    Settles stuck (fun _ => .error f) (.error f) P :=
  ⟨⟨0, fun _ _ => rfl⟩, fun same => ne (Except.error.inj same), nofun⟩

theorem Settles.mono {φ β : Type} {stuck : φ} {x : Nat → Except φ β} {y : Except φ β}
    {P Q : β → Prop} (settles : Settles stuck x y P) (le : ∀ b, P b → Q b) :
    Settles stuck x y Q :=
  ⟨settles.same, settles.done, fun b eq => le b (settles.value b eq)⟩

theorem Settles.bind {φ α β : Type} {stuck : φ} {x : Nat → Except φ α} {y : Except φ α}
    {P : α → Prop} {Q : β → Prop} {k : Nat → α → Except φ β} {l : α → Except φ β}
    (first : Settles stuck x y P) (rest : ∀ a, P a → Settles stuck (fun n => k n a) (l a) Q) :
    Settles stuck (fun n => x n >>= k n) (y >>= l) Q := by
  obtain ⟨N, same⟩ := first.same
  cases outcome : y with
  | error f =>
      refine ⟨⟨N, fun n le => ?_⟩, fun stops => ?_, nofun⟩
      · show x n >>= k n = _
        rw [same n le, outcome]
        rfl
      · exact first.done (outcome.trans (congrArg Except.error (Except.error.inj stops)))
  | ok a =>
      have later := rest a (first.value a outcome)
      obtain ⟨M, eq⟩ := later.same
      refine ⟨⟨max N M, fun n le => ?_⟩, later.done, later.value⟩
      show x n >>= k n = _
      rw [same n (le_trans (le_max_left N M) le), outcome]
      exact eq n (le_trans (le_max_right N M) le)

/-- What a computation comes to, with any large enough amount of fuel and with any
that it does not run out of. It is stuck if no amount is enough. -/
structure Limit {φ β : Type} (stuck : φ) (x : Nat → Except φ β) (y : Except φ β) : Prop where
  enough : ∃ N, ∀ n, N ≤ n → x n = y
  only : ∀ n, x n ≠ .error stuck → x n = y

theorem limit_const {φ β : Type} (stuck : φ) (y : Except φ β) : Limit stuck (fun _ => y) y :=
  ⟨⟨0, fun _ _ => rfl⟩, fun _ _ => rfl⟩

theorem limit_stuck {φ β : Type} {stuck : φ} {x : Nat → Except φ β}
    (always : ∀ n, x n = .error stuck) : Limit stuck x (.error stuck) :=
  ⟨⟨0, fun n _ => always n⟩, fun n _ => always n⟩

theorem Limit.ended_iff {φ β : Type} {stuck : φ} {x : Nat → Except φ β} {y : Except φ β}
    (limit : Limit stuck x y) : (∃ n, x n ≠ .error stuck) ↔ y ≠ .error stuck := by
  constructor
  · rintro ⟨n, ended⟩
    rw [← limit.only n ended]
    exact ended
  · intro ended
    obtain ⟨N, same⟩ := limit.enough
    exact ⟨N, by rw [same N le_rfl]; exact ended⟩

theorem Limit.bind {φ α β : Type} {stuck : φ} {x : Nat → Except φ α} {y : Except φ α}
    {k : Nat → α → Except φ β} {l : α → Except φ β} (first : Limit stuck x y)
    (rest : ∀ a, Limit stuck (fun n => k n a) (l a)) :
    Limit stuck (fun n => x n >>= k n) (y >>= l) := by
  constructor
  · obtain ⟨N, same⟩ := first.enough
    cases outcome : y with
    | error f =>
        refine ⟨N, fun n le => ?_⟩
        rw [same n le, outcome]
        rfl
    | ok a =>
        obtain ⟨M, later⟩ := (rest a).enough
        refine ⟨max N M, fun n le => ?_⟩
        rw [same n (le_trans (le_max_left N M) le), outcome]
        exact later n (le_trans (le_max_right N M) le)
  · intro n ended
    have going : x n ≠ .error stuck := by
      intro stops
      rw [stops] at ended
      exact ended rfl
    have same := first.only n going
    rw [same] at ended ⊢
    cases outcome : y with
    | error f => rfl
    | ok a =>
        rw [outcome] at ended
        exact (rest a).only n ended

abbrev Fueled (φ α : Type) := Option (Except φ α)

namespace Fueled

variable {φ α β : Type}

def ok (a : α) : Fueled φ α := some (.ok a)

def fault (f : φ) : Fueled φ α := some (.error f)

def andThen (x : Fueled φ α) (k : α → Fueled φ β) : Fueled φ β :=
  match x with
  | none => none
  | some (.error f) => some (.error f)
  | some (.ok a) => k a

theorem andThen_eq_ok {x : Fueled φ α} {k : α → Fueled φ β} {b : β} :
    andThen x k = ok b ↔ ∃ a, x = ok a ∧ k a = ok b := by
  match x with
  | none => exact ⟨fun h => (by cases h), fun ⟨_, h, _⟩ => (by cases h)⟩
  | some (.error f) => exact ⟨fun h => (by cases h), fun ⟨_, h, _⟩ => (by cases h)⟩
  | some (.ok a) => exact ⟨fun h => ⟨a, rfl, h⟩, fun ⟨_, same, h⟩ => by cases same; exact h⟩

theorem andThen_assoc {γ : Type} (x : Fueled φ α) (k : α → Fueled φ β) (l : β → Fueled φ γ) :
    andThen (andThen x k) l = andThen x fun a => andThen (k a) l := by
  cases x with
  | none => rfl
  | some r => cases r <;> rfl

/-- The fuel sufficed, and a value satisfies `P`. -/
def Yields (x : Fueled φ α) (P : α → Prop) : Prop := ∃ r, x = some r ∧ ∀ a, r = .ok a → P a

theorem Yields.isSome {x : Fueled φ α} {P : α → Prop} (h : Yields x P) : x.isSome := by
  obtain ⟨r, rfl, -⟩ := h
  rfl

theorem Yields.value {x : Fueled φ α} {P : α → Prop} (h : Yields x P) {a : α}
    (done : x = some (.ok a)) : P a := by
  obtain ⟨r, rfl, all⟩ := h
  exact all a (Option.some.inj done)

theorem yields_ok {a : α} {P : α → Prop} (h : P a) : Yields (ok a : Fueled φ α) P :=
  ⟨.ok a, rfl, fun b hb => by cases hb; exact h⟩

theorem yields_fault (f : φ) (P : α → Prop) : Yields (fault f : Fueled φ α) P :=
  ⟨.error f, rfl, fun b hb => by cases hb⟩

/-- A computation that uses no fuel. -/
theorem yields_some {r : Except φ α} {P : α → Prop} (h : ∀ a, r = .ok a → P a) :
    Yields (some r) P := ⟨r, rfl, h⟩

theorem Yields.mono {x : Fueled φ α} {P Q : α → Prop} (h : Yields x P) (le : ∀ a, P a → Q a) :
    Yields x Q := by
  obtain ⟨r, hr, all⟩ := h
  exact ⟨r, hr, fun a ha => le a (all a ha)⟩

theorem Yields.andThen {x : Fueled φ α} {k : α → Fueled φ β} {P : α → Prop} {Q : β → Prop}
    (first : Yields x P) (rest : ∀ a, P a → Yields (k a) Q) : Yields (andThen x k) Q := by
  obtain ⟨r, rfl, all⟩ := first
  cases r with
  | error f => exact yields_fault f Q
  | ok a => exact rest a (all a rfl)

end Fueled

end LaliRpc.Theory
