/-
# Base.PoolCapacity — tasks that throw

`runInqueue` catches whatever a task throws, but its `try` block is around the loop: a
worker whose task has thrown prints a line and ends, while the pool goes on. So the
number of workers that serve the queue is the number of those started, less one for
each task that has thrown (`lost_run`), and it is kept by exactly the runs in which
none does (`capacity_kept_iff`). As long as it is kept, every submitted task can
still be executed (`executable`). When it has come down to nothing, no task is
executed again (`executed_deserted`), and those that call `run` do not notice.
-/
import LaliRpc.Base.ThreadPool

namespace LaliRpc.Base

set_option autoImplicit false

open Theory (Moves Run)

/-- The worker has not left `runInqueue`. -/
def Worker.serves (w : Worker) : Bool := w != .exited

/-- How many steps a worker may be away from taking a task. -/
def Worker.distance : Worker → Nat
  | .holding _ => 4
  | .testing => 3
  | .entering => 2
  | .waiting => 2
  | .notified => 1
  | .roused => 1
  | .exited => 0

namespace ThreadPool

/-- The steps of a pool, those behind a task by what the task did. -/
inductive TaskEvent where
  | step (e : Event)
  | returned (t : Task)
  | threw (t : Task)

def TaskEvent.throws : TaskEvent → Bool
  | .threw _ => true
  | _ => false

/-- A step before `stop()` has the lock. The exception leaves the loop of the worker. -/
inductive WorkStep : ThreadPool → TaskEvent → ThreadPool → Prop where
  | step {s s' : ThreadPool} {e : Event} (taken : Step s e s') (running : ∀ t, e ≠ .finish t)
      (early : e ≠ .stop) : WorkStep s (.step e) s'
  | returned {s : ThreadPool} {t : Task} {ws : List Worker}
      (moves : Moves (.holding t) .testing s.workers ws) :
      WorkStep s (.returned t) { s with workers := ws, executed := s.executed ++ [t] }
  | threw {s : ThreadPool} {t : Task} {ws : List Worker}
      (moves : Moves (.holding t) .exited s.workers ws) :
      WorkStep s (.threw t) { s with workers := ws, executed := s.executed ++ [t] }

/-- A step in which no task throws. -/
def CalmStep (s : ThreadPool) (e : TaskEvent) (s' : ThreadPool) : Prop :=
  WorkStep s e s' ∧ e.throws = false

/-- How many workers serve the queue. -/
def serving (s : ThreadPool) : Nat := s.workers.countP Worker.serves

/-- How many do not any more. -/
def lost (s : ThreadPool) : Nat := s.workers.count .exited

/-- What the pool owes its callers as long as it is not stopped: as many workers serve
the queue as were started, and every task in it can still be executed. -/
structure Staffed (s : ThreadPool) : Prop where
  serving : s.serving = s.workers.length
  executes : ∀ k ∈ s.queue, ∃ trace t, Run CalmStep s trace t ∧ k ∈ t.executed

variable {s s' t : ThreadPool} {e : TaskEvent} {w : Worker} {ws : List Worker} {k : Task}

theorem serving_add_lost (s : ThreadPool) : s.serving + s.lost = s.workers.length := by
  have split := List.length_eq_countP_add_countP Worker.serves (l := s.workers)
  have others : s.workers.countP (fun w => ¬ Worker.serves w = true) = s.lost := by
    rw [lost, List.count]
    congr 1
    funext w
    cases w <;> rfl
  rw [others] at split
  exact split.symm

/-! ## How many are lost -/

/-- What holds of a pool that is not stopped. -/
structure Working (s : ThreadPool) : Prop where
  sound : s.Sound
  spawned : s.workers ≠ [] → s.running = true
  spawning : s.toSpawn ≠ 0 → s.running = true
  staffed : s.queue ≠ [] → s.workers ≠ []

theorem working_constructed : constructed.Working :=
  ⟨sound_constructed, fun h => absurd rfl h, fun h => absurd rfl h, fun h => absurd rfl h⟩

theorem WorkStep.sound (sound : s.Sound) (step : WorkStep s e s') : s'.Sound := by
  cases step with
  | step taken => exact sound_step sound taken
  | returned moves => exact sound_finish sound (.inl rfl) moves
  | threw moves => exact sound_finish sound (.inr rfl) moves

theorem ne_nil_of_moves {a b : Worker} (moves : Moves a b s.workers ws) :
    s.workers ≠ [] ∧ ws ≠ [] := by
  obtain ⟨before, after, first, rfl⟩ := moves
  rw [first]
  simp

/-- A worker's step of a kind that leaves the queue as it is, or takes of it. -/
theorem working_moves (working : s.Working) {a b : Worker} (moves : Moves a b s.workers ws)
    (sound : s'.Sound) (workers : s'.workers = ws) (running : s'.running = s.running) :
    s'.Working := by
  obtain ⟨some', some''⟩ := ne_nil_of_moves moves
  have up : s'.running = true := running.trans (working.spawned some')
  exact ⟨sound, fun _ => up, fun _ => up, fun _ => workers ▸ some''⟩

theorem working_step (working : s.Working) (step : WorkStep s e s') : s'.Working := by
  have sound := step.sound working.sound
  cases step with
  | returned moves => exact working_moves working moves sound rfl rfl
  | threw moves => exact working_moves working moves sound rfl rfl
  | @step _ e taken running early =>
      cases taken with
      | start numsThreads first => exact ⟨sound, fun _ => rfl, fun _ => rfl, working.staffed⟩
      | spawn more =>
          have up : s.running = true := working.spawning (by simp [more])
          exact ⟨sound, fun _ => up, fun _ => up, fun _ => by simp⟩
      | call none => exact ⟨sound, working.spawned, working.spawning, working.staffed⟩
      | @push ws some' signal =>
          have up := working.spawned some'
          refine ⟨sound, fun _ => up, working.spawning, fun _ => ?_⟩
          rcases signal with moves | ⟨-, rfl⟩
          · exact (ne_nil_of_moves moves).2
          · exact some'
      | test moves => exact working_moves working moves sound rfl rfl
      | take enters moves => exact working_moves working moves sound rfl rfl
      | rouse moves => exact working_moves working moves sound rfl rfl
      | finish gone moves => exact absurd rfl (running _)
      | stop called => exact absurd rfl early

theorem lost_same {a b : Worker} (moves : Moves a b s.workers ws) (leaves : a ≠ .exited)
    (stays : b ≠ .exited) : ws.count .exited = s.lost := moves.count_other leaves stays

theorem ne_exited_of_enters (enters : Enters w) : w ≠ .exited := by
  rcases enters with rfl | rfl | rfl
  · simp
  · simp
  · simp

theorem take_ne_exited (s : ThreadPool) : s.take.1 ≠ .exited := by
  rcases take_cases s with ⟨taken, -⟩ | ⟨k, queue, -, taken⟩ | ⟨taken, -⟩
  · simp [taken]
  · simp [taken]
  · simp [taken]

/-- **A step loses the worker whose task throws**, and nobody otherwise. -/
theorem lost_step (working : s.Working) (step : WorkStep s e s') :
    s'.lost = s.lost + e.throws.toNat := by
  cases step with
  | returned moves => exact lost_same moves (by simp) (by simp)
  | threw moves => exact moves.count_to (by simp)
  | @step _ e taken running early =>
      cases taken with
      | start numsThreads first => rfl
      | spawn more => simp [lost, TaskEvent.throws]
      | call none => rfl
      | push some' signal =>
          rcases signal with moves | ⟨-, rfl⟩
          · exact lost_same moves (by simp) (by simp)
          · rfl
      | test moves =>
          rw [if_pos (working.spawned (ne_nil_of_moves moves).1)] at moves
          exact lost_same moves (by simp) (by simp)
      | take enters moves =>
          exact lost_same moves (ne_exited_of_enters enters) (take_ne_exited s)
      | rouse moves => exact lost_same moves (by simp) (by simp)
      | finish gone moves => exact absurd rfl (running _)
      | stop called => exact absurd rfl early

/-- **Every exception costs a worker.** -/
theorem lost_run {trace : List (ThreadPool × TaskEvent)} (run : Run WorkStep s trace t)
    (working : s.Working) :
    t.lost = s.lost + trace.countP (fun p => p.2.throws) := by
  induction run with
  | nil s => rfl
  | @cons s s' t e trace first rest ih =>
      rw [ih (working_step working first), lost_step working first, List.countP_cons]
      cases e.throws with
      | false => rfl
      | true =>
          simp only [Bool.toNat_true, if_true]
          omega

theorem submitted_workStep (step : WorkStep s e s') : s.submitted ≤ s'.submitted := by
  cases step with
  | returned moves => exact Nat.le_refl _
  | threw moves => exact Nat.le_refl _
  | step taken => exact submitted_step taken

/-! ## What the others still do -/

/-- What the pool is away from having executed everything in it. -/
def distance (s : ThreadPool) : Nat :=
  10 * s.queue.length + (s.workers.map Worker.distance).sum

/-- All workers serve. -/
def Full (s : ThreadPool) : Prop := s.lost = 0

theorem full_calmStep (working : s.Working) (full : s.Full) (step : CalmStep s e s') :
    s'.Full := by
  rw [Full, lost_step working step.1, step.2, full]
  rfl

theorem ne_exited_of_full (full : s.Full) (mem : w ∈ s.workers) : w ≠ .exited := by
  rintro rfl
  exact absurd full (Nat.ne_of_gt (List.count_pos_iff.mpr mem))

/-- A worker comes closer to its end without changing the queue. -/
theorem nearer {a b : Worker} (moves : Moves a b s.workers ws) (queue : s'.queue = s.queue)
    (workers : s'.workers = ws) (smaller : b.distance < a.distance) : s'.distance < s.distance := by
  have shares := moves.sum_map Worker.distance
  rw [distance, distance, queue, workers]
  omega

/-- Wherever a worker is, it can come closer to taking the first task of the queue. -/
theorem advances (working : s.Working) (full : s.Full) (mem : w ∈ s.workers)
    (queued : s.queue ≠ []) : ∃ e s', CalmStep s e s' ∧ s'.distance < s.distance := by
  have up : s.running = true := working.spawned (List.ne_nil_of_mem mem)
  have takes : Enters w → ∃ e s', CalmStep s e s' ∧ s'.distance < s.distance := by
    intro enters
    rcases take_cases s with ⟨-, -, none⟩ | ⟨k, queue, first, taken⟩ | ⟨-, none⟩
    · exact absurd none queued
    · obtain ⟨ws, moves⟩ := Moves.exists_of_mem mem s.take.1
      refine ⟨_, _, ⟨.step (.take enters moves) nofun nofun, rfl⟩, ?_⟩
      have shares := moves.sum_map Worker.distance
      have held : s.take.1.distance = 4 := by rw [taken]; rfl
      simp only [distance, first, taken, List.length_cons] at shares held ⊢
      omega
    · exact absurd none queued
  cases w with
  | testing =>
      obtain ⟨ws, moves⟩ := Moves.exists_of_mem mem (if s.running then .entering else .exited)
      refine ⟨_, _, ⟨.step (.test moves) nofun nofun, rfl⟩, ?_⟩
      rw [if_pos up] at moves
      exact nearer moves rfl rfl (by decide)
  | entering => exact takes (.inl rfl)
  | waiting =>
      obtain ⟨ws, moves⟩ := Moves.exists_of_mem mem .roused
      exact ⟨_, _, ⟨.step (.rouse moves) nofun nofun, rfl⟩, nearer moves rfl rfl (by decide)⟩
  | notified => exact takes (.inr (.inl rfl))
  | roused => exact takes (.inr (.inr rfl))
  | holding k =>
      obtain ⟨ws, moves⟩ := Moves.exists_of_mem mem .testing
      exact ⟨_, _, ⟨.returned moves, rfl⟩, nearer moves rfl rfl (by simp [Worker.distance])⟩
  | exited => exact absurd rfl (ne_exited_of_full full mem)

/-- Every submitted task is executed, or somebody comes closer to it. -/
theorem progress (working : s.Working) (full : s.Full) (known : k < s.submitted)
    (open' : k ∉ s.executed) : ∃ e s', CalmStep s e s' ∧ s'.distance < s.distance := by
  have somewhere := (working.sound.conserves.somewhere k).mpr known
  rw [everywhere, List.mem_append, List.mem_append] at somewhere
  rcases somewhere with (queued | held) | done
  · have some' := List.ne_nil_of_mem queued
    obtain ⟨w, mem⟩ := List.exists_mem_of_ne_nil _ (working.staffed some')
    exact advances working full mem some'
  · obtain ⟨w, mem, holds⟩ := List.mem_filterMap.mp held
    cases w with
    | holding k' =>
        obtain ⟨ws, moves⟩ := Moves.exists_of_mem mem .testing
        exact ⟨_, _, ⟨.returned moves, rfl⟩, nearer moves rfl rfl (by simp [Worker.distance])⟩
    | _ => cases holds
  · exact absurd done open'

/-- **A pool that has lost nobody can execute every submitted task.** -/
theorem executable (working : s.Working) (full : s.Full) (known : k < s.submitted) :
    ∃ trace t, Run CalmStep s trace t ∧ k ∈ t.executed := by
  refine Run.exists_run (I := fun s => s.Working ∧ s.Full ∧ k < s.submitted) distance ?_ ?_
    ⟨working, full, known⟩
  · rintro s e s' ⟨working, full, known⟩ step
    refine ⟨working_step working step.1, full_calmStep working full step, ?_⟩
    exact Nat.lt_of_lt_of_le known (submitted_workStep step.1)
  · rintro s ⟨working, full, known⟩ open'
    exact progress working full known open'

/-- **The pool keeps its workers in exactly the runs in which no task throws**, and as
long as it does, every task in the queue can be executed. -/
theorem capacity_kept_iff {trace : List (ThreadPool × TaskEvent)}
    (run : Run WorkStep constructed trace s) :
    Run.Throughout Staffed trace s ↔ ∀ p ∈ trace, p.2.throws = false := by
  have working := run.invariant (I := Working) (fun _ _ _ => working_step) working_constructed
  have kept : Run.Throughout Full trace s ↔ ∀ p ∈ trace, p.2.throws = false := by
    refine run.invariant_iff (I := Full) (J := Working) (C := fun _ e => e.throws = false)
      (fun _ _ _ => working_step) ?_ ?_ working_constructed rfl
    · intro s e s' working full calm step
      exact full_calmStep working full ⟨step, calm⟩
    · intro s e s' working full throws step gone
      have more := lost_step working step
      rw [eq_true_of_ne_false throws, full, gone] at more
      cases more
  rw [← kept]
  constructor
  · intro staffed
    refine staffed.imp fun s staffed => ?_
    have split := serving_add_lost s
    have all := staffed.serving
    rw [Full]
    omega
  · intro full
    have both : ∀ s : ThreadPool, s.Working → s.Full → s.Staffed := by
      intro s working full
      refine ⟨?_, fun k queued => executable working full ?_⟩
      · have split := serving_add_lost s
        rwa [full, Nat.add_zero] at split
      · exact working.sound.known k (List.mem_append_right _ queued)
    exact ⟨fun p mem => both _ (working.1 p mem) (full.1 p mem), both _ working.2 full.2⟩

/-! ## Nobody left -/

/-- All threads have been started, and all of them have ended. -/
structure Deserted (s : ThreadPool) : Prop where
  started : s.started = true
  spawned : s.toSpawn = 0
  some' : s.workers ≠ []
  ended : ∀ w ∈ s.workers, w = .exited

theorem Deserted.absurd_moves {a b : Worker} (deserted : s.Deserted)
    (moves : Moves a b s.workers ws) (serves : a ≠ .exited) : False := by
  obtain ⟨before, after, split, -⟩ := moves
  exact serves (deserted.ended a (by simp [split]))

theorem deserted_step {e : Event} (deserted : s.Deserted) (step : Step s e s') :
    s'.Deserted ∧ s'.executed = s.executed := by
  cases step with
  | start numsThreads first => simp [deserted.started] at first
  | spawn more => simp [deserted.spawned] at more
  | call none => exact absurd none deserted.some'
  | push some' signal =>
      rcases signal with moves | ⟨-, rfl⟩
      · exact (deserted.absurd_moves moves (by simp)).elim
      · exact ⟨⟨deserted.started, deserted.spawned, deserted.some', deserted.ended⟩, rfl⟩
  | test moves => exact (deserted.absurd_moves moves (by simp)).elim
  | take enters moves => exact (deserted.absurd_moves moves (ne_exited_of_enters enters)).elim
  | rouse moves => exact (deserted.absurd_moves moves (by simp)).elim
  | finish left moves => exact (deserted.absurd_moves moves (by simp)).elim
  | stop called =>
      refine ⟨⟨called, deserted.spawned, by simpa [weakupAll] using deserted.some', ?_⟩, rfl⟩
      intro w mem
      obtain ⟨w', mem', rfl⟩ := List.mem_map.mp mem
      rw [deserted.ended w' mem']
      rfl

/-- **A deserted pool executes nothing any more**, whatever is submitted to it. -/
theorem executed_deserted {trace : List (ThreadPool × Event)} (run : Run Step s trace t)
    (deserted : s.Deserted) : t.executed = s.executed := by
  have both := run.invariant_last (I := fun t => t.Deserted ∧ t.executed = s.executed)
    (fun u e u' before step => by
      obtain ⟨deserted', same⟩ := deserted_step before.1 step
      exact ⟨deserted', same.trans before.2⟩) ⟨deserted, rfl⟩
  exact both.2

/-! ### One worker -/

/-- The worker executes a task that returns, and waits for the next. -/
theorem capacity_kept_one_task : ∃ trace s, Run WorkStep constructed trace s ∧
    s.executed = [0] ∧ Run.Throughout Staffed trace s := by
  have run : ∃ trace s, Run WorkStep constructed trace s ∧ s.executed = [0] ∧
      ∀ p ∈ trace, p.2.throws = false := by
    refine ⟨_, _, .cons (.step (.start 1 rfl) nofun nofun) <|
      .cons (.step (.spawn rfl) nofun nofun) <|
      .cons (.step (.push (by decide) (.inr ⟨by decide, rfl⟩)) nofun nofun) <|
      .cons (.step (.test (.intro [] [] Worker.testing _)) nofun nofun) <|
      .cons (.step (.take (.inl rfl) (.intro [] [] Worker.entering _)) nofun nofun) <|
      .cons (.returned (.intro [] [] (Worker.holding 0) _)) <| .nil _, rfl, ?_⟩
    simp [TaskEvent.throws]
  obtain ⟨trace, s, run, executed, calm⟩ := run
  exact ⟨trace, s, run, executed, (capacity_kept_iff run).mpr calm⟩

/-- The worker executes a task that throws; the second one stays in the queue. -/
theorem worker_lost : ∃ trace s, Run WorkStep constructed trace s ∧ s.queue = [1] ∧
    s.workers.length = 1 ∧ s.serving = 0 ∧
    ∀ trace' t, Run Step s trace' t → 1 ∉ t.executed := by
  refine ⟨_, _, .cons (.step (.start 1 rfl) nofun nofun) <|
    .cons (.step (.spawn rfl) nofun nofun) <|
    .cons (.step (.push (by decide) (.inr ⟨by decide, rfl⟩)) nofun nofun) <|
    .cons (.step (.push (by decide) (.inr ⟨by decide, rfl⟩)) nofun nofun) <|
    .cons (.step (.test (.intro [] [] Worker.testing _)) nofun nofun) <|
    .cons (.step (.take (.inl rfl) (.intro [] [] Worker.entering _)) nofun nofun) <|
    .cons (.threw (.intro [] [] (Worker.holding 0) _)) <| .nil _, rfl, rfl, rfl, ?_⟩
  intro trace' t run
  have deserted := executed_deserted run ⟨rfl, rfl, by decide, by decide⟩
  rw [deserted]
  decide

end ThreadPool

end LaliRpc.Base
