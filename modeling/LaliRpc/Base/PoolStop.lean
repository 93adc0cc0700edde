/-
# Base.PoolStop — what `stop()` leaves in the queue

`stop()` clears `running_` and wakes everybody under the lock, and then joins the
workers. One that is inside `take` at that moment still gets the first task, if there
is any; but every worker tests `running_` before it calls `take` again, so it takes no
second one. The queue is not drained: when all workers have ended, exactly the tasks
are left that were not among the first ones, as many as workers were inside `take`
(`left_stays`).

So every task accepted before the call of `stop()` is executed if and only if none of
them stood further back in the queue when the flag was cleared (`stop_finishes_iff`).
-/
import LaliRpc.Base.ThreadPool

namespace LaliRpc.Base

set_option autoImplicit false

open Theory (Moves Run)

/-- The worker is between its test of `running_` and the end of `take`. -/
def Worker.inTake : Worker → Bool
  | .entering | .waiting | .notified | .roused => true
  | _ => false

namespace ThreadPool

/-- How many workers are in `take`. -/
def inTake (s : ThreadPool) : Nat := s.workers.countP Worker.inTake

/-- The tasks nobody in `take` comes for: those behind the first `inTake` ones. -/
def left (s : ThreadPool) : List Task := s.queue.drop s.inTake

/-- `stop()` has joined all threads. -/
def Joined (s : ThreadPool) : Prop := ∀ w ∈ s.workers, w = .exited

variable {s s' t : ThreadPool} {e : Event} {w : Worker} {ws : List Worker} {k : Task}

theorem inTake_of_enters (enters : Enters w) : w.inTake = true := by
  rcases enters with rfl | rfl | rfl
  · rfl
  · rfl
  · rfl

theorem inTake_weakup (signal : Weakup s.workers ws) :
    ws.countP Worker.inTake = s.workers.countP Worker.inTake := by
  rcases signal with moves | ⟨-, rfl⟩
  · exact moves.countP_same rfl
  · rfl

theorem inTake_weakupAll (ws : List Worker) :
    (weakupAll ws).countP Worker.inTake = ws.countP Worker.inTake := by
  rw [weakupAll, List.countP_map]
  congr 1
  funext w
  cases w <;> rfl

/-- A stopped pool's `take` makes nobody wait. -/
theorem take_stopped (stopped : s.running = false) :
    s.take.1.inTake = false ∧ s.take.2 = s.queue.drop 1 := by
  rcases take_cases s with ⟨-, running, -⟩ | ⟨k, queue, first, taken⟩ | ⟨taken, empty⟩
  · simp [stopped] at running
  · rw [taken, first]
    exact ⟨rfl, rfl⟩
  · rw [taken, empty]
    exact ⟨rfl, rfl⟩

/-- What is kept of a pool whose flag is cleared. -/
structure Closing (k : Task) (s : ThreadPool) : Prop where
  sound : s.Sound
  called : s.started = true
  stopped : s.running = false
  known : k < s.submitted

/-- **What nobody in `take` comes for is never come for**, and what somebody comes for is. -/
theorem left_step (closing : s.Closing k) (step : Step s e s') :
    s'.Closing k ∧ (k ∈ s'.left ↔ k ∈ s.left) := by
  have sound := sound_step closing.sound step
  obtain ⟨-, called, stopped, known⟩ := closing
  cases step with
  | start numsThreads first => simp [called] at first
  | spawn more =>
      refine ⟨⟨sound, called, stopped, known⟩, ?_⟩
      have idle : Worker.inTake .testing = false := rfl
      simp [left, inTake, idle]
  | call none => exact ⟨⟨sound, called, stopped, Nat.lt_succ_of_lt known⟩, Iff.rfl⟩
  | @push ws some signal =>
      refine ⟨⟨sound, called, stopped, Nat.lt_succ_of_lt known⟩, ?_⟩
      have last : ∀ n, k ∉ [s.submitted].drop n := by
        intro n mem
        rw [List.mem_singleton.mp (List.mem_of_mem_drop mem)] at known
        exact Nat.lt_irrefl _ known
      simp only [left, inTake, inTake_weakup signal, List.drop_append, List.mem_append, last,
        or_false]
  | test moves =>
      rw [stopped] at moves
      refine ⟨⟨sound, called, stopped, known⟩, ?_⟩
      have same := moves.countP_same (p := Worker.inTake) rfl
      simp only [left, inTake, same]
  | take enters moves =>
      refine ⟨⟨sound, called, stopped, known⟩, ?_⟩
      obtain ⟨leaves, rest⟩ := take_stopped stopped
      have fewer := moves.countP_loss (inTake_of_enters enters) leaves
      simp only [left, inTake, rest, fewer, List.drop_drop, Nat.add_comm 1]
  | rouse moves =>
      refine ⟨⟨sound, called, stopped, known⟩, ?_⟩
      have same := moves.countP_same (p := Worker.inTake) rfl
      simp only [left, inTake, same]
  | finish gone moves =>
      refine ⟨⟨sound, called, stopped, known⟩, ?_⟩
      have same : _ = s.workers.countP Worker.inTake := moves.countP_same (p := Worker.inTake)
        (by rcases gone with rfl | rfl <;> rfl)
      simp only [left, inTake, same]
  | stop _ =>
      refine ⟨⟨sound, called, rfl, known⟩, ?_⟩
      simp only [left, inTake, inTake_weakupAll]

theorem left_run {trace : List (ThreadPool × Event)} (closing : s.Closing k)
    (run : Run Step s trace t) : t.Closing k ∧ (k ∈ t.left ↔ k ∈ s.left) := by
  have both := run.invariant_last (I := fun t => t.Closing k ∧ (k ∈ t.left ↔ k ∈ s.left))
    (fun u e u' before step => by
      obtain ⟨closing', same⟩ := left_step before.1 step
      exact ⟨closing', same.trans before.2⟩)
  exact both ⟨closing, Iff.rfl⟩

/-- Once all threads have ended, a task has been executed once, or is still in the queue. -/
theorem executed_iff (sound : s.Sound) (joined : s.Joined) (known : k < s.submitted) :
    s.executed.count k = 1 ↔ k ∉ s.left := by
  have nobody : s.inTake = 0 := by
    rw [inTake, List.countP_eq_zero]
    intro w mem
    rw [joined w mem]
    simp [Worker.inTake]
  have idle : s.workers.filterMap Worker.held = [] := by
    rw [List.filterMap_eq_nil_iff]
    intro w mem
    rw [joined w mem]
    rfl
  have places := sound.places.count_eq k
  have once : (List.range s.submitted).count k = 1 := by rw [List.count_range, if_pos known]
  rw [everywhere, idle, List.append_nil, List.count_append, once] at places
  rw [left, nobody, List.drop_zero, ← List.count_eq_zero]
  omega

theorem submitted_run {trace : List (ThreadPool × Event)} (run : Run Step s trace t) :
    s.submitted ≤ t.submitted :=
  run.invariant_last (I := fun t => s.submitted ≤ t.submitted)
    (fun _ _ _ le step => Nat.le_trans le (submitted_step step)) (Nat.le_refl _)

/-- The step of `stop()` under the lock. -/
theorem closing_stop (sound : s.Sound) (known : k < s.submitted) (stop : Step s .stop s') :
    s'.Closing k ∧ s'.left = s.left := by
  have sound' := sound_step sound stop
  cases stop with
  | stop called =>
      refine ⟨⟨sound', called, rfl, known⟩, ?_⟩
      simp only [left, inTake, inTake_weakupAll]

/-- **`stop()` finishes the accepted work exactly when none of it stands further back in
the queue than there are workers in `take`**: in a run in which `stop()` is called in
`u`, clears the flag in `s` and has joined everybody in `t`. -/
theorem stop_finishes_iff {u : ThreadPool} {trace before after : List (ThreadPool × Event)}
    (early : Run Step constructed trace u) (toLock : Run Step u before s)
    (stop : Step s .stop s') (toReturn : Run Step s' after t) (joined : t.Joined) :
    (∀ k, k < u.submitted → t.executed.count k = 1) ↔ ∀ k, k < u.submitted → k ∉ s.left := by
  have sound : s.Sound :=
    (early.append toLock).invariant_last (fun _ _ _ => sound_step) sound_constructed
  have each : ∀ k, k < u.submitted → (t.executed.count k = 1 ↔ k ∉ s.left) := by
    intro k accepted
    have known : k < s.submitted := Nat.lt_of_lt_of_le accepted (submitted_run toLock)
    obtain ⟨closing, same⟩ := closing_stop sound known stop
    obtain ⟨closed, stays⟩ := left_run closing toReturn
    rw [executed_iff closed.sound joined closed.known, stays, same]
  exact forall₂_congr each

/-- A pool with one worker, which has not yet tested the flag, and a task. -/
def oneTask : ThreadPool :=
  { constructed with
    running := true, started := true, workers := [.testing], submitted := 1, queue := [0] }

theorem run_oneTask : ∃ trace, Run Step constructed trace oneTask :=
  ⟨_, .cons (.start 1 rfl) <| .cons (.spawn rfl) <|
    .cons (.push (by decide) (.inr ⟨by decide, rfl⟩)) <| .nil _⟩

/-- The worker goes into `take` before the flag is cleared, and executes the task. -/
theorem entered_task_finished : ∃ t : ThreadPool, t.Joined ∧
    ∀ k, k < oneTask.submitted → t.executed.count k = 1 := by
  obtain ⟨trace, early⟩ := run_oneTask
  have toLock : Run Step oneTask _ { oneTask with workers := [.entering] } :=
    .cons (.test (.intro [] [] Worker.testing _)) (.nil _)
  have toReturn : ∃ after t,
      Run Step { oneTask with workers := [.entering], running := false, stopped := true } after t ∧
        t.Joined := by
    refine ⟨_, _, .cons (.take (.inl rfl) (.intro [] [] Worker.entering _)) <|
      .cons (.finish (.inl rfl) (.intro [] [] (Worker.holding 0) _)) <|
      .cons (.test (.intro [] [] Worker.testing _)) <| .nil _, ?_⟩
    simp [Joined]
  obtain ⟨after, t, toReturn, joined⟩ := toReturn
  refine ⟨t, joined, ?_⟩
  refine (stop_finishes_iff early toLock (.stop rfl) toReturn joined).mpr ?_
  decide

/-- The flag is cleared first: the worker ends without looking into the queue. -/
theorem task_left_behind : ∃ trace before after u s s' t, Run Step constructed trace u ∧
    Run Step u before s ∧ Step s .stop s' ∧ Run Step s' after t ∧ t.Joined ∧
    0 < u.submitted ∧ t.executed.count 0 = 0 := by
  obtain ⟨trace, early⟩ := run_oneTask
  refine ⟨trace, _, _, _, oneTask, _, _, early, .nil _, .stop rfl,
    .cons (.test (.intro [] [] Worker.testing _)) <| .nil _, ?_, by decide, rfl⟩
  simp [Joined]

end ThreadPool

end LaliRpc.Base
