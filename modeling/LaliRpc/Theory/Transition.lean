/-
# Theory.Transition — runs of a labelled transition system

A run is recorded as the steps it took, each with the state it was taken in, and
the state it ended in; the states a run goes through are those of its steps and
the last one. `invariant` is the induction over a run, `invariant_while` the one
for a property that only some steps keep, and `invariant_iff` the exact form of
it: where every other step breaks the property, a run keeps it if and only if it
takes none of those. `simulates` carries a specification of single steps over to a
run, and `refines` is the case in which it determines the state's abstraction.
`exists_run` is for the other direction of time: a goal that some step always comes
closer to can be reached.
-/
import Mathlib.Data.List.Basic

namespace LaliRpc.Theory

set_option autoImplicit false

/-- The steps from one state to another, each with the state before it. -/
inductive Run {σ ε : Type} (step : σ → ε → σ → Prop) : σ → List (σ × ε) → σ → Prop where
  | nil (s : σ) : Run step s [] s
  | cons {s s' t : σ} {e : ε} {trace : List (σ × ε)} (first : step s e s')
      (rest : Run step s' trace t) : Run step s ((s, e) :: trace) t

namespace Run

variable {σ ε : Type} {step : σ → ε → σ → Prop} {s t : σ} {trace : List (σ × ε)}

theorem append {u : σ} {trace' : List (σ × ε)} (run : Run step s trace t)
    (later : Run step t trace' u) : Run step s (trace ++ trace') u := by
  induction run with
  | nil s => exact later
  | cons first rest ih => exact .cons first (ih later)

/-- A run is cut where its trace is. -/
theorem split {trace' : List (σ × ε)} (run : Run step s (trace ++ trace') t) :
    ∃ u, Run step s trace u ∧ Run step u trace' t := by
  induction trace generalizing s with
  | nil => exact ⟨s, .nil s, run⟩
  | cons p trace ih =>
      cases run with
      | cons first rest =>
          obtain ⟨u, early, late⟩ := ih rest
          exact ⟨u, .cons first early, late⟩

/-- A run of steps that satisfy a further condition. -/
theorem restricted {C : ε → Prop} (run : Run (fun s e s' => step s e s' ∧ C e) s trace t) :
    Run step s trace t ∧ ∀ p ∈ trace, C p.2 := by
  induction run with
  | nil s => exact ⟨.nil s, fun p hp => absurd hp List.not_mem_nil⟩
  | cons first rest ih =>
      refine ⟨.cons first.1 ih.1, fun p hp => ?_⟩
      rcases List.mem_cons.mp hp with rfl | later
      · exact first.2
      · exact ih.2 p later

theorem constrained {C : ε → Prop} (run : Run step s trace t) (all : ∀ p ∈ trace, C p.2) :
    Run (fun s e s' => step s e s' ∧ C e) s trace t := by
  induction run with
  | nil s => exact .nil s
  | cons first rest ih =>
      obtain ⟨here, later⟩ := List.forall_mem_cons.mp all
      exact .cons ⟨first, here⟩ (ih later)

/-- The property holds in every state of the run. -/
def Throughout (P : σ → Prop) (trace : List (σ × ε)) (t : σ) : Prop :=
  (∀ p ∈ trace, P p.1) ∧ P t

theorem Throughout.first {P : σ → Prop} (all : Throughout P trace t) (run : Run step s trace t) :
    P s := by
  cases run with
  | nil => exact all.2
  | cons first rest => exact all.1 _ List.mem_cons_self

theorem Throughout.imp {P Q : σ → Prop} (all : Throughout P trace t) (weaker : ∀ s, P s → Q s) :
    Throughout Q trace t := ⟨fun p hp => weaker p.1 (all.1 p hp), weaker t all.2⟩

theorem invariant_while {I : σ → Prop} {C : σ → ε → Prop}
    (kept : ∀ s e s', I s → C s e → step s e s' → I s') (run : Run step s trace t)
    (start : I s) (only : ∀ p ∈ trace, C p.1 p.2) : Throughout I trace t := by
  induction run with
  | nil s => exact ⟨fun p hp => absurd hp List.not_mem_nil, start⟩
  | cons first rest ih =>
      have next := kept _ _ _ start (only _ List.mem_cons_self) first
      obtain ⟨states, last⟩ := ih next fun p hp => only p (List.mem_cons_of_mem _ hp)
      refine ⟨fun p hp => ?_, last⟩
      rcases List.mem_cons.mp hp with rfl | later
      · exact start
      · exact states p later

/-- What every step keeps holds throughout. -/
theorem invariant {I : σ → Prop} (kept : ∀ s e s', I s → step s e s' → I s')
    (run : Run step s trace t) (start : I s) : Throughout I trace t :=
  run.invariant_while (fun s e s' hs (_ : True) => kept s e s' hs) start fun _ _ => trivial

/-- The last state of a run satisfies every invariant. -/
theorem invariant_last {I : σ → Prop} (kept : ∀ s e s', I s → step s e s' → I s')
    (run : Run step s trace t) (start : I s) : I t := (run.invariant kept start).2

/-- **A property that exactly the steps in `C` keep holds throughout exactly the
runs that take no other step.** The invariant `J` is what the two step lemmas may
rely on. -/
theorem invariant_iff {I J : σ → Prop} {C : σ → ε → Prop}
    (always : ∀ s e s', J s → step s e s' → J s')
    (kept : ∀ s e s', J s → I s → C s e → step s e s' → I s')
    (broken : ∀ s e s', J s → I s → ¬ C s e → step s e s' → ¬ I s')
    (run : Run step s trace t) (inv : J s) (start : I s) :
    Throughout I trace t ↔ ∀ p ∈ trace, C p.1 p.2 := by
  constructor
  · intro throughout
    induction run with
    | nil s => exact fun p hp => absurd hp List.not_mem_nil
    | cons first rest ih =>
        obtain ⟨states, last⟩ := throughout
        have later : Throughout I _ _ := ⟨fun p hp => states p (List.mem_cons_of_mem _ hp), last⟩
        have next := later.first rest
        intro p hp
        rcases List.mem_cons.mp hp with rfl | hp
        · by_contra other
          exact broken _ _ _ inv start other first next
        · exact ih (always _ _ _ inv first) next later p hp
  · intro only
    have both := run.invariant_while (I := fun s => J s ∧ I s) (C := C)
      (fun s e s' hs c st => ⟨always s e s' hs.1 st, kept s e s' hs.1 hs.2 c st⟩)
      ⟨inv, start⟩ only
    exact both.imp fun s hs => hs.2

/-- A property that stays lost once it is lost holds throughout a run it holds at
the end of. -/
theorem throughout_of_last {I J : σ → Prop}
    (always : ∀ s e s', J s → step s e s' → J s')
    (lost : ∀ s e s', J s → ¬ I s → step s e s' → ¬ I s')
    (run : Run step s trace t) (inv : J s) (last : I t) : Throughout I trace t := by
  induction run with
  | nil s => exact ⟨fun p hp => absurd hp List.not_mem_nil, last⟩
  | cons first rest ih =>
      have later := ih (always _ _ _ inv first) last
      refine ⟨fun p hp => ?_, last⟩
      rcases List.mem_cons.mp hp with rfl | hp
      · by_contra gone
        exact lost _ _ _ inv gone first (later.first rest)
      · exact later.1 p hp

/-- **A run simulates its specification** when every step does. -/
theorem simulates {α : Type} {R : σ → α → Prop} (spec : α → ε → α)
    (run : Run step s trace t) (kept : ∀ s a e s', R s a → step s e s' → R s' (spec a e)) {a : α}
    (start : R s a) : R t ((trace.map Prod.snd).foldl spec a) := by
  induction run generalizing a with
  | nil s => exact start
  | cons first rest ih => exact ih (kept _ _ _ _ start first)

/-- **A run follows its specification** when every step does: the abstraction of
its last state is what the specification makes of its events. -/
theorem refines {α : Type} {I : σ → Prop} (abs : σ → α) {spec : α → ε → α}
    (run : Run step s trace t) (kept : ∀ s e s', I s → step s e s' → I s')
    (follows : ∀ s e s', I s → step s e s' → abs s' = spec (abs s) e) (start : I s) :
    abs t = (trace.map Prod.snd).foldl spec (abs s) := by
  have related := run.simulates spec (R := fun s a => I s ∧ abs s = a)
    (fun s a e s' related first =>
      ⟨kept s e s' related.1 first, related.2 ▸ follows s e s' related.1 first⟩) ⟨start, rfl⟩
  exact related.2

/-- **A goal can be reached** from every state that satisfies the invariant, when
outside it some step always makes `measure` smaller. -/
theorem exists_run {I Goal : σ → Prop} (measure : σ → Nat)
    (kept : ∀ s e s', I s → step s e s' → I s')
    (progress : ∀ s, I s → ¬ Goal s → ∃ e s', step s e s' ∧ measure s' < measure s)
    (start : I s) : ∃ trace t, Run step s trace t ∧ Goal t := by
  induction size : measure s using Nat.strongRecOn generalizing s with
  | ind n ih =>
      subst size
      by_cases goal : Goal s
      · exact ⟨[], s, .nil s, goal⟩
      · obtain ⟨e, s', taken, smaller⟩ := progress s start goal
        obtain ⟨trace, t, run, reached⟩ := ih _ smaller (kept s e s' start taken) rfl
        exact ⟨_, t, .cons taken run, reached⟩

end Run

end LaliRpc.Theory
