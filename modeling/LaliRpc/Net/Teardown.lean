/-
# Net.Teardown — the end of one connection

What the teardown of a connection comes to, whoever takes its steps. `handleClose`
hands the connection to the base loop and that one hands it back, once for each time
it was called: what is on the way and what has arrived add up (`Books`). So a
connection is closed once if `handleClose` is called once, and that is so when the
poller has nothing more for a connection that has gone through it, and `forceClose` has
not queued it for one (`Quiet`); if they have, there is no way back (`Doomed`).
-/
import LaliRpc.Net.Poller
import Mathlib.Data.List.Count

namespace LaliRpc.Net

set_option autoImplicit false

/-- What is called for a connection. -/
inductive Call where
  /-- the user's `connectionCallback_`, in this state of the connection -/
  | connectionCallback (state : State)
  | messageCallback (n : Nat)
  | handleRead
  | handleWrite
  | handleClose
  | closeCallback
  deriving DecidableEq, Repr

/-- A handler that the poller dispatches. `handleClose` can also be queued, by `forceClose`. -/
def Call.Dispatched (call : Call) : Prop :=
  call = .handleRead ∨ call = .handleWrite ∨ call = .handleClose

instance : DecidablePred Call.Dispatched := fun call =>
  inferInstanceAs (Decidable (call = .handleRead ∨ call = .handleWrite ∨ call = .handleClose))

/-- Once `handleClose` has run no handler is dispatched. -/
def Silenced (calls : List Call) : Prop :=
  calls.Pairwise fun earlier later => earlier = .handleClose → ¬ later.Dispatched

/-- **A connection is closed once**, by the calls made for it in their order. -/
structure ClosedOnce (calls : List Call) : Prop where
  closeCallback : calls.count .closeCallback ≤ 1
  connectionCallback : calls.count (.connectionCallback .disconnected) ≤ 1
  silenced : Silenced calls

/-- The calls made for a connection, the handlers that are still to be called for what
the last poll reported, and how often it is queued to be removed by the base loop and
to be destroyed by its own. -/
structure Teardown where
  calls : List Call
  reported : List Channel.Handler
  removing : Nat
  destroying : Nat

namespace Teardown

open Channel (Handler)

inductive Event where
  | none
  /-- `connectEstablished` -/
  | up
  | report (handlers : List Handler)
  /-- A handler that does not end the connection. -/
  | handle
  /-- A handler that comes to `handleClose`. -/
  | close
  /-- The `handleClose` that `forceClose` has queued. -/
  | force
  /-- `destroyConnectionInLoop` -/
  | remove
  /-- `connectDestroyed` -/
  | down

/-- The calls made by a handler that does not end the connection. -/
inductive Serves : Handler → List Call → Prop where
  | error : Serves .error []
  | read : Serves .read [.handleRead]
  | message (n : Nat) : Serves .read [.handleRead, .messageCallback n]
  | write : Serves .write [.handleWrite]

/-- The calls made by a handler before `handleClose`. -/
inductive Ends : Handler → List Call → Prop where
  | close : Ends .close []
  | read : Ends .read [.handleRead]

inductive Step : Teardown → Event → Teardown → Prop where
  | none {t : Teardown} : Step t .none t
  | up {t : Teardown} :
      Step t .up { t with calls := t.calls ++ [.connectionCallback .connected] }
  | report {t : Teardown} {handlers : List Handler} (handled : t.reported = []) :
      Step t (.report handlers) { t with reported := handlers }
  | handle {t : Teardown} {h : Handler} {rest : List Handler} {calls : List Call}
      (next : t.reported = h :: rest) (serves : Serves h calls) :
      Step t .handle { t with calls := t.calls ++ calls, reported := rest }
  | close {t : Teardown} {h : Handler} {rest : List Handler} {calls : List Call}
      (next : t.reported = h :: rest) (ends : Ends h calls) :
      Step t .close { t with
        calls := t.calls ++ (calls ++ [.handleClose, .closeCallback])
        reported := rest
        removing := t.removing + 1 }
  /-- Functors are run when all that was reported has been handled. -/
  | force {t : Teardown} (handled : t.reported = []) :
      Step t .force { t with
        calls := t.calls ++ [.handleClose, .closeCallback]
        removing := t.removing + 1 }
  | remove {t : Teardown} {n : Nat} (queued : t.removing = n + 1) :
      Step t .remove { t with removing := n, destroying := t.destroying + 1 }
  | down {t : Teardown} {n : Nat} (queued : t.destroying = n + 1) :
      Step t .down { t with
        calls := t.calls ++ [.connectionCallback .disconnected]
        destroying := n }

/-- The poll reports nothing but an error for a connection that has gone through
`handleClose`, and nothing but an error behind the handler that comes to it; and it is not
forced to go through it again. -/
def Quiet (t : Teardown) : Event → Prop
  | .report handlers => .handleClose ∈ t.calls → ∀ h ∈ handlers, h = .error
  | .close => ∀ h ∈ t.reported.tail, h = .error
  | .force => .handleClose ∉ t.calls
  | _ => True

/-- Every call of `closeCallback_` is on its way to `connectDestroyed`, or has got
there. -/
structure Books (t : Teardown) : Prop where
  closed : t.calls.count .closeCallback = t.calls.count .handleClose
  queued : t.calls.count .closeCallback =
    t.removing + t.destroying + t.calls.count (.connectionCallback .disconnected)

/-- Nothing is dispatched after `handleClose`, nor about to be. -/
structure Silent (t : Teardown) : Prop where
  behind : Silenced t.calls
  ahead : .handleClose ∈ t.calls → ∀ h ∈ t.reported, h = .error

variable {t t' : Teardown} {e : Event}

/-- The books are kept by every step, quiet or not. -/
theorem books_step (books : t.Books) (step : t.Step e t') : t'.Books := by
  obtain ⟨closed, queued⟩ := books
  cases step with
  | none => exact ⟨closed, queued⟩
  | up => constructor <;> simpa using ‹_›
  | report => exact ⟨closed, queued⟩
  | handle next serves =>
      cases serves <;> constructor <;> simpa using ‹_›
  | close next ends =>
      cases ends
      · constructor
        · simp [closed]
        · simp [queued]
          omega
      · constructor
        · simp [closed]
        · simp [queued]
          omega
  | force =>
      constructor
      · simp [closed]
      · simp [queued]
        omega
  | remove waiting =>
      refine ⟨closed, ?_⟩
      simp only [queued, waiting]
      omega
  | down waiting =>
      constructor
      · simpa using closed
      · simp [queued, waiting]
        omega

/-- Calls that come to nothing more than what their handler is dispatched for. -/
theorem notMem_of_serves {h : Handler} {calls : List Call} (serves : Serves h calls) :
    .handleClose ∉ calls := by
  cases serves <;> simp

theorem silenced_of_notMem {calls : List Call} (never : .handleClose ∉ calls) :
    Silenced calls := by
  induction calls with
  | nil => exact .nil
  | cons call calls ih =>
      simp only [List.mem_cons, not_or] at never
      exact .cons (fun later _ same => absurd same.symm never.1) (ih never.2)

theorem silenced_append {calls later : List Call} (before : .handleClose ∉ calls)
    (silenced : Silenced later) : Silenced (calls ++ later) := by
  refine List.pairwise_append.mpr ⟨silenced_of_notMem before, silenced, ?_⟩
  intro call early _ _ same
  exact absurd (same ▸ early) before

/-- Of a silenced connection `handleClose` has been called at most once. -/
theorem count_handleClose {calls : List Call} (silenced : Silenced calls) :
    calls.count .handleClose ≤ 1 := by
  induction calls with
  | nil => simp
  | cons call calls ih =>
      obtain ⟨behind, rest⟩ := List.pairwise_cons.mp silenced
      by_cases same : call = .handleClose
      · have never : .handleClose ∉ calls := fun later => behind _ later same (by simp [Call.Dispatched])
        simp [same, List.count_eq_zero_of_not_mem never]
      · rw [List.count_cons_of_ne same]
        exact ih rest

/-- **A quiet step keeps a connection silent.** -/
theorem silent_step (silent : t.Silent) (quiet : t.Quiet e) (step : t.Step e t') : t'.Silent := by
  obtain ⟨behind, ahead⟩ := silent
  -- a call that is not dispatched, made behind the others
  have told (call : Call) (harmless : ¬ call.Dispatched) : Silenced (t.calls ++ [call]) := by
    refine List.pairwise_append.mpr ⟨behind, List.pairwise_singleton _ _, ?_⟩
    intro earlier _ later mem _
    rw [List.mem_singleton.mp mem]
    exact harmless
  cases step with
  | none => exact ⟨behind, ahead⟩
  | up => exact ⟨told _ (by decide), fun closed => ahead (by simpa using closed)⟩
  | report => exact ⟨behind, quiet⟩
  | @handle h rest calls next serves =>
      have served := notMem_of_serves serves
      by_cases closed : Call.handleClose ∈ t.calls
      · -- only the error handler is left, which makes no call
        have error : h = .error := ahead closed h (by simp [next])
        subst error
        cases serves
        refine ⟨by simpa using behind, fun _ g mem => ahead closed g ?_⟩
        rw [next]
        exact List.mem_cons_of_mem _ mem
      · refine ⟨silenced_append closed (silenced_of_notMem served), fun now => ?_⟩
        rcases List.mem_append.mp now with old | new
        · exact absurd old closed
        · exact absurd new served
  | @close h rest calls next ends =>
      have fresh : Call.handleClose ∉ t.calls := by
        intro closed
        have error : h = .error := ahead closed h (by simp [next])
        subst error
        cases ends
      refine ⟨silenced_append fresh ?_, fun _ g mem => quiet g (by simpa [next] using mem)⟩
      cases ends <;> simp [Silenced, Call.Dispatched]
  | force handled =>
      refine ⟨silenced_append quiet (by simp [Silenced, Call.Dispatched]), fun _ g mem => ?_⟩
      rw [handled] at mem
      cases mem
  | remove => exact ⟨behind, ahead⟩
  | down => exact ⟨told _ (by decide), fun closed => ahead (by simpa using closed)⟩

/-- The calls tell of a handler dispatched after `handleClose`, or will do so. -/
def Doomed (t : Teardown) : Prop :=
  ¬ Silenced t.calls ∨ (.handleClose ∈ t.calls ∧ ∃ h ∈ t.reported, h ≠ .error)

/-- What was not silent does not become so by further calls. -/
theorem not_silenced_append {calls : List Call} (noisy : ¬ Silenced calls) (later : List Call) :
    ¬ Silenced (calls ++ later) :=
  fun silenced => noisy (List.pairwise_append.mp silenced).1

/-- Every handler but that of errors is dispatched. -/
theorem dispatched_of_serves {h : Handler} {calls : List Call} (serves : Serves h calls)
    (heard : h ≠ .error) : ∃ call ∈ calls, call.Dispatched := by
  cases serves with
  | error => exact absurd rfl heard
  | read => exact ⟨_, List.mem_cons_self, .inl rfl⟩
  | message n => exact ⟨_, List.mem_cons_self, .inl rfl⟩
  | write => exact ⟨_, List.mem_cons_self, .inr (.inl rfl)⟩

/-- A dispatched call after `handleClose`. -/
theorem not_silenced_of_dispatched {calls later : List Call} {call : Call}
    (closed : .handleClose ∈ calls) (mem : call ∈ later) (dispatched : call.Dispatched) :
    ¬ Silenced (calls ++ later) :=
  fun silenced => (List.pairwise_append.mp silenced).2.2 _ closed call mem rfl dispatched

/-- `handleClose` is forced once more. -/
theorem doomed_of_force (closed : .handleClose ∈ t.calls) (step : t.Step .force t') :
    t'.Doomed := by
  cases step with
  | force =>
      have again : Call.handleClose ∈ [Call.handleClose, .closeCallback] := List.mem_cons_self
      exact .inl (not_silenced_of_dispatched closed again (.inr (.inr rfl)))

/-- **What has gone wrong stays wrong**, and what is about to does. -/
theorem doomed_step (doomed : t.Doomed) (step : t.Step e t') : t'.Doomed := by
  rcases doomed with noisy | ⟨closed, h, reported, heard⟩
  · refine .inl ?_
    cases step with
    | none => exact noisy
    | report => exact noisy
    | remove => exact noisy
    | up => exact not_silenced_append noisy _
    | handle => exact not_silenced_append noisy _
    | close => exact not_silenced_append noisy _
    | force => exact not_silenced_append noisy _
    | down => exact not_silenced_append noisy _
  · cases step with
    | none => exact .inr ⟨closed, h, reported, heard⟩
    | remove => exact .inr ⟨closed, h, reported, heard⟩
    | up => exact .inr ⟨List.mem_append_left _ closed, h, reported, heard⟩
    | down => exact .inr ⟨List.mem_append_left _ closed, h, reported, heard⟩
    | report handled => simp [handled] at reported
    | force handled => simp [handled] at reported
    | @close h rest calls next ends =>
        have again : Call.handleClose ∈ calls ++ [.handleClose, .closeCallback] := by simp
        exact .inl (not_silenced_of_dispatched closed again (.inr (.inr rfl)))
    | handle next serves =>
        rw [next] at reported
        rcases List.mem_cons.mp reported with rfl | left
        · obtain ⟨call, mem, dispatched⟩ := dispatched_of_serves serves heard
          exact .inl (not_silenced_of_dispatched closed mem dispatched)
        · exact .inr ⟨List.mem_append_left _ closed, h, left, heard⟩

/-- **A silent connection with its books in order has been closed once.** -/
theorem closedOnce (books : t.Books) (silent : t.Silent) : ClosedOnce t.calls := by
  have once := count_handleClose silent.behind
  have closed := books.closed
  have queued := books.queued
  exact ⟨by omega, by omega, silent.behind⟩

end Teardown

end LaliRpc.Net
