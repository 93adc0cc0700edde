/-
# Base.ThreadPool — tasks, workers and their condition variable

`run` puts a task into `queue_` and signals; a worker takes the first task under
the lock, or waits while the queue is empty and the pool is running. A signal
wakes one waiting worker, but before that one has the lock again, another may
have taken the task, and a wait may also end without a signal.

No task is lost or run twice (`places`), they leave the queue in the order of
their submission (`order`), and no signal is missed: while a worker waits
unnotified, there are at least as many notified ones on their way as tasks in the
queue (`notified`). After `stop()` nobody waits (`quiet`).
-/
import Mathlib.Data.List.Range
import LaliRpc.Theory.Crew
import LaliRpc.Theory.Transition

namespace LaliRpc.Base

set_option autoImplicit false

open Theory (Answered Moves Run)

/-- A non-empty function, by the number of its submission. -/
abbrev Task := Nat

/-- Where a worker is: in front of the test in `runInqueue`, in front of the lock in
`take`, in its wait, signalled there, awake without a signal, behind `take` with a
task until the call returns or throws, or at the end. -/
inductive Worker where
  | testing | entering | waiting | notified | roused
  | holding (t : Task)
  | exited
  deriving DecidableEq

/-- The task a worker holds. -/
def Worker.held : Worker → Option Task
  | .holding t => some t
  | _ => none

/-- The pool, how many threads `start` has yet to make, how many tasks were submitted,
those taken from the queue and those executed in their order, and whether `start` and
`stop` were called. -/
structure ThreadPool where
  running : Bool
  queue : List Task
  workers : List Worker
  toSpawn : Nat
  submitted : Nat
  taken : List Task
  executed : List Task
  started : Bool
  stopped : Bool

namespace ThreadPool

def constructed : ThreadPool where
  running := false
  queue := []
  workers := []
  toSpawn := 0
  submitted := 0
  taken := []
  executed := []
  started := false
  stopped := false

/-- `weakup()`: one of those that wait is notified, if anybody waits. -/
def Weakup (ws ws' : List Worker) : Prop :=
  Moves .waiting .notified ws ws' ∨ (.waiting ∉ ws ∧ ws' = ws)

/-- `weakupAll()`. -/
def weakupAll (ws : List Worker) : List Worker :=
  ws.map fun w => if w = .waiting then .notified else w

/-- `take` from the test of its loop on, under the lock: where the worker goes (an
empty function takes it back to `runInqueue`), and the queue it leaves. -/
def take (s : ThreadPool) : Worker × List Task :=
  if s.running && s.queue.isEmpty then (.waiting, s.queue)
  else
    match s.queue with
    | [] => (.testing, [])
    | t :: queue => (.holding t, queue)

/-- Those that go on at the test of the loop in `take` when they get the lock. -/
def Enters (w : Worker) : Prop := w = .entering ∨ w = .notified ∨ w = .roused

inductive Event where
  | start (numsThreads : Nat)
  | spawn
  | run
  | test
  | take
  | rouse
  | finish (t : Task)
  | stop

/-- Any thread's next step; a part under the lock is one step. Without threads `run`
calls the task itself. -/
inductive Step : ThreadPool → Event → ThreadPool → Prop where
  | start {s : ThreadPool} (numsThreads : Nat) (first : s.started = false) :
      Step s (.start numsThreads) { s with running := true, started := true, toSpawn := numsThreads }
  | spawn {s : ThreadPool} {n : Nat} (more : s.toSpawn = n + 1) :
      Step s .spawn { s with toSpawn := n, workers := s.workers ++ [.testing] }
  | call {s : ThreadPool} (none : s.workers = []) :
      Step s .run { s with submitted := s.submitted + 1, executed := s.executed ++ [s.submitted] }
  | push {s : ThreadPool} {ws : List Worker} (some : s.workers ≠ []) (signal : Weakup s.workers ws) :
      Step s .run { s with
        submitted := s.submitted + 1, queue := s.queue ++ [s.submitted], workers := ws }
  | test {s : ThreadPool} {ws : List Worker}
      (moves : Moves .testing (if s.running then .entering else .exited) s.workers ws) :
      Step s .test { s with workers := ws }
  | take {s : ThreadPool} {w : Worker} {ws : List Worker} (enters : Enters w)
      (moves : Moves w s.take.1 s.workers ws) :
      Step s .take { s with
        workers := ws, queue := s.take.2, taken := s.taken ++ s.take.1.held.toList }
  | rouse {s : ThreadPool} {ws : List Worker} (moves : Moves .waiting .roused s.workers ws) :
      Step s .rouse { s with workers := ws }
  | finish {s : ThreadPool} {t : Task} {w : Worker} {ws : List Worker}
      (left : w = .testing ∨ w = .exited) (moves : Moves (.holding t) w s.workers ws) :
      Step s (.finish t) { s with workers := ws, executed := s.executed ++ [t] }
  | stop {s : ThreadPool} (called : s.started = true) :
      Step s .stop { s with running := false, workers := weakupAll s.workers, stopped := true }

/-! ## The invariant -/

/-- The tasks in the queue, those that workers hold, and the executed ones. -/
def everywhere (s : ThreadPool) : List Task :=
  s.queue ++ s.workers.filterMap Worker.held ++ s.executed

structure Sound (s : ThreadPool) : Prop where
  places : s.everywhere.Perm (List.range s.submitted)
  order : (s.taken ++ s.queue).Pairwise (· < ·)
  known : ∀ t ∈ s.taken ++ s.queue, t < s.submitted
  notified : .waiting ∈ s.workers → s.queue.length ≤ s.workers.count .notified
  opened : s.stopped = true → s.started = true
  halted : s.stopped = true → s.running = false
  quiet : s.stopped = true → .waiting ∉ s.workers

theorem sound_constructed : constructed.Sound where
  places := List.Perm.refl _
  order := List.Pairwise.nil
  known := by simp [constructed]
  notified := by simp [constructed]
  opened := by simp [constructed]
  halted := by simp [constructed]
  quiet := by simp [constructed]

/-- No signal is lost. -/
theorem Sound.answered {s : ThreadPool} (sound : s.Sound) :
    Answered .waiting .notified s.queue.length s.workers := sound.notified

section Steps

variable {s : ThreadPool} {w : Worker} {ws : List Worker}

/-- What `take` can do: wait, take the first task, or find the pool stopped. -/
theorem take_cases (s : ThreadPool) :
    (s.take = (.waiting, s.queue) ∧ s.running = true ∧ s.queue = []) ∨
      (∃ t queue, s.queue = t :: queue ∧ s.take = (.holding t, queue)) ∨
      (s.take = (.testing, s.queue) ∧ s.queue = []) := by
  unfold take
  cases here : s.queue with
  | nil =>
      cases s.running with
      | true => simp
      | false => simp
  | cons t queue => exact .inr (.inl ⟨t, queue, rfl, by simp⟩)

theorem weakup_held (signal : Weakup s.workers ws) :
    ws.filterMap Worker.held = s.workers.filterMap Worker.held := by
  rcases signal with moves | ⟨-, rfl⟩
  · exact moves.held_same rfl
  · rfl

theorem weakupAll_held (ws : List Worker) :
    (weakupAll ws).filterMap Worker.held = ws.filterMap Worker.held := by
  rw [weakupAll, List.filterMap_map]
  congr 1
  funext w
  cases w <;> rfl

theorem waiting_notMem_weakupAll (ws : List Worker) : .waiting ∉ weakupAll ws := by
  intro mem
  obtain ⟨w, -, still⟩ := List.mem_map.mp mem
  split at still
  · cases still
  · contradiction

/-- The step of one worker that neither takes a task nor finishes one. -/
theorem sound_move (sound : s.Sound) {a b : Worker} (moves : Moves a b s.workers ws)
    (held : b.held = a.held) (waits : b ≠ .waiting) (notified : a ≠ .notified)
    (unnotified : b ≠ .notified) : Sound { s with workers := ws } :=
  { sound with
    places := by
      simp only [everywhere, moves.held_same held]
      exact sound.places
    notified := sound.answered.move moves waits notified unnotified
    quiet := fun stopped mem => sound.quiet stopped (moves.mem_of_ne waits.symm mem) }

theorem held_of_enters (enters : Enters w) : w.held = none := by
  rcases enters with rfl | rfl | rfl
  · rfl
  · rfl
  · rfl

/-- **A worker waits only when the queue is empty**, and takes the first task with at
most one notification. -/
theorem sound_take (sound : s.Sound) (enters : Enters w)
    (moves : Moves w s.take.1 s.workers ws) :
    Sound { s with
      workers := ws, queue := s.take.2, taken := s.taken ++ s.take.1.held.toList } := by
  have free := held_of_enters enters
  rcases take_cases s with ⟨taken, running, empty⟩ | ⟨t, queue, first, taken⟩ | ⟨taken, empty⟩
  · rw [taken] at moves
    simp only [taken, Worker.held, Option.toList_none, List.append_nil]
    exact
      { sound with
        places := by
          have same : ws.filterMap Worker.held = s.workers.filterMap Worker.held :=
            moves.held_same free.symm
          simp only [everywhere, same]
          exact sound.places
        notified := by
          intro _
          simp [empty]
        quiet := by
          intro stopped
          have := sound.halted stopped
          simp [running] at this }
  · rw [taken] at moves
    have places := sound.places
    have order := sound.order
    have known := sound.known
    simp only [taken, Worker.held, Option.toList_some]
    simp only [everywhere, first] at places
    rw [first] at order known
    have answered := sound.answered
    rw [first, List.length_cons] at answered
    exact
      { sound with
        places := by
          have gain := moves.held_gain free rfl
          have swap : (queue ++ t :: s.workers.filterMap Worker.held).Perm
              (t :: queue ++ s.workers.filterMap Worker.held) := List.perm_middle
          exact (((gain.append_left queue).trans swap).append_right s.executed).trans places
        order := by simpa using order
        known := by simpa using known
        notified := answered.take moves (by simp) (by simp)
        quiet := fun stopped mem => sound.quiet stopped (moves.mem_of_ne (by simp) mem) }
  · rw [taken] at moves
    simp only [taken, Worker.held, Option.toList_none, List.append_nil]
    exact
      { sound with
        places := by
          have same : ws.filterMap Worker.held = s.workers.filterMap Worker.held :=
            moves.held_same free.symm
          simp only [everywhere, same]
          exact sound.places
        notified := by
          intro _
          simp [empty]
        quiet := fun stopped mem => sound.quiet stopped (moves.mem_of_ne (by simp) mem) }

/-- **A push notifies somebody whenever somebody waits.** -/
theorem sound_push (sound : s.Sound) (signal : Weakup s.workers ws) :
    Sound { s with
      submitted := s.submitted + 1, queue := s.queue ++ [s.submitted], workers := ws } where
  places := by
    simp only [everywhere, weakup_held signal, List.range_succ]
    have last : (s.queue ++ [s.submitted] ++ s.workers.filterMap Worker.held ++ s.executed).Perm
        (s.everywhere ++ [s.submitted]) := by
      simp only [everywhere, List.append_assoc]
      refine List.Perm.append_left s.queue ?_
      have rotate : ([s.submitted] ++ (s.workers.filterMap Worker.held ++ s.executed)).Perm
          ((s.workers.filterMap Worker.held ++ s.executed) ++ [s.submitted]) :=
        List.perm_append_comm
      rwa [List.append_assoc] at rotate
    exact last.trans (sound.places.append_right _)
  order := by
    rw [← List.append_assoc, List.pairwise_append]
    refine ⟨sound.order, List.pairwise_singleton _ _, ?_⟩
    intro t mem t' new
    rw [List.mem_singleton.mp new]
    exact sound.known t mem
  known := by
    intro t mem
    rw [← List.append_assoc, List.mem_append] at mem
    show t < s.submitted + 1
    rcases mem with old | new
    · exact Nat.lt_succ_of_lt (sound.known t old)
    · rw [List.mem_singleton.mp new]
      exact Nat.lt_succ_self _
  notified := by
    rw [List.length_append]
    exact sound.answered.signal (by simp) signal
  opened := sound.opened
  halted := sound.halted
  quiet := by
    intro stopped mem
    rcases signal with moves | ⟨nobody, rfl⟩
    · exact sound.quiet stopped (moves.mem_of_ne (by simp) mem)
    · exact nobody mem

theorem sound_finish (sound : s.Sound) {t : Task} (left : w = .testing ∨ w = .exited)
    (moves : Moves (.holding t) w s.workers ws) :
    Sound { s with workers := ws, executed := s.executed ++ [t] } := by
  have free : w.held = none := by rcases left with rfl | rfl <;> rfl
  have awake : w ≠ .waiting := by rcases left with rfl | rfl <;> simp
  have unnotified : w ≠ .notified := by rcases left with rfl | rfl <;> simp
  exact
    { sound with
      places := by
        have loss : (s.workers.filterMap Worker.held).Perm (t :: ws.filterMap Worker.held) :=
          moves.held_loss rfl free
        have rotate : (ws.filterMap Worker.held ++ (s.executed ++ [t])).Perm
            ((t :: ws.filterMap Worker.held) ++ s.executed) := by
          rw [← List.append_assoc]
          exact List.perm_append_comm
        have back := rotate.trans (loss.symm.append_right s.executed)
        have places := sound.places
        simp only [everywhere, List.append_assoc] at places ⊢
        exact (back.append_left s.queue).trans places
      notified := sound.answered.move moves awake (by simp) unnotified
      quiet := fun stopped mem => sound.quiet stopped (moves.mem_of_ne awake.symm mem) }

end Steps

/-! ## Runs -/

theorem sound_step {s s' : ThreadPool} {e : Event} (sound : s.Sound) (step : Step s e s') :
    s'.Sound := by
  cases step with
  | start numsThreads first =>
      have never : s.stopped = true → False := by
        intro stopped
        have := sound.opened stopped
        simp [first] at this
      exact
        { sound with
          opened := fun _ => rfl
          halted := fun stopped => (never stopped).elim }
  | spawn more =>
      exact
        { sound with
          places := by
            have idle : [Worker.testing].filterMap Worker.held = [] := rfl
            simp only [everywhere, List.filterMap_append, idle, List.append_nil]
            exact sound.places
          notified := by
            intro mem
            simpa using sound.notified (by simpa using mem)
          quiet := by
            intro stopped mem
            exact sound.quiet stopped (by simpa using mem) }
  | call none =>
      exact
        { sound with
          places := by
            have last := sound.places.append_right [s.submitted]
            simpa [everywhere, List.range_succ] using last
          known := by
            intro t mem
            exact Nat.lt_succ_of_lt (sound.known t mem) }
  | push some signal => exact sound_push sound signal
  | test moves =>
      split at moves
      · exact sound_move sound moves rfl (by simp) (by simp) (by simp)
      · exact sound_move sound moves rfl (by simp) (by simp) (by simp)
  | take enters moves => exact sound_take sound enters moves
  | rouse moves => exact sound_move sound moves rfl (by simp) (by simp) (by simp)
  | finish left moves => exact sound_finish sound left moves
  | stop called =>
      exact
        { sound with
          places := by
            simp only [everywhere, weakupAll_held]
            exact sound.places
          notified := fun mem => absurd mem (waiting_notMem_weakupAll _)
          opened := fun _ => called
          halted := fun _ => rfl
          quiet := fun _ => waiting_notMem_weakupAll _ }

/-- What the pool owes those who submit tasks, in a state. -/
structure Conserves (s : ThreadPool) : Prop where
  /-- Every submitted task is in one place, and there once. -/
  somewhere : ∀ t, t ∈ s.everywhere ↔ t < s.submitted
  once : s.everywhere.Nodup
  /-- Those that left the queue did so in the order of their submission, before the others. -/
  order : (s.taken ++ s.queue).Pairwise (· < ·)
  /-- While somebody waits, every task in the queue has a notified worker coming for it. -/
  wakesUp : .waiting ∈ s.workers → s.queue.length ≤ s.workers.count .notified
  /-- After `stop()` nobody waits. -/
  stops : s.stopped = true → .waiting ∉ s.workers

theorem Sound.conserves {s : ThreadPool} (sound : s.Sound) : s.Conserves where
  somewhere := by
    intro t
    rw [sound.places.mem_iff, List.mem_range]
  once := sound.places.nodup_iff.mpr List.nodup_range
  order := sound.order
  wakesUp := sound.notified
  stops := sound.quiet

theorem submitted_step {s s' : ThreadPool} {e : Event} (step : Step s e s') :
    s.submitted ≤ s'.submitted := by
  cases step with
  | call none => exact Nat.le_succ _
  | push some signal => exact Nat.le_succ _
  | _ => exact Nat.le_refl _

theorem stopped_stays {s s' : ThreadPool} {e : Event} (stopped : s.stopped = true)
    (step : Step s e s') : s'.stopped = true := by
  cases step with
  | stop called => rfl
  | _ => exact stopped

/-- Whatever comes behind a `stop()` is stopped. -/
theorem stopped_of_mem {trace : List (ThreadPool × Event)} {s t : ThreadPool}
    (run : Run Step s trace t) {p : ThreadPool × Event} (mem : p ∈ trace) (stop : p.2 = .stop) :
    t.stopped = true := by
  obtain ⟨before, e⟩ := p
  obtain rfl : e = .stop := stop
  obtain ⟨early, late, rfl⟩ := List.append_of_mem mem
  obtain ⟨u, -, last⟩ := run.split
  cases last with
  | cons first rest =>
      cases first with
      | stop called =>
          exact rest.invariant_last (I := fun s => s.stopped = true)
            (fun _ _ _ => stopped_stays) rfl

/-- **The pool loses no task and misses no signal**, in every state of every run, and
once `stop()` has cleared the flag and woken everybody, nobody waits again. -/
theorem pool_conserves {trace : List (ThreadPool × Event)} {s : ThreadPool}
    (run : Run Step constructed trace s) :
    Run.Throughout Conserves trace s ∧
      ∀ p ∈ trace, p.2 = .stop → .waiting ∉ s.workers := by
  have sound := run.invariant (I := Sound) (fun _ _ _ => sound_step) sound_constructed
  constructor
  · apply sound.imp
    intro s sound
    exact sound.conserves
  · intro p mem stop
    exact sound.2.quiet (stopped_of_mem run mem stop)

/-- A worker waits, is notified of a task, takes and executes it. -/
theorem pool_conserves_one_task : ∃ trace s, Run Step constructed trace s ∧
    s.executed = [0] ∧ Run.Throughout Conserves trace s := by
  have run : ∃ trace s, Run Step constructed trace s ∧ s.executed = [0] := by
    refine ⟨_, _, .cons (.start 1 rfl) <| .cons (.spawn rfl) <|
      .cons (.test (.intro [] [] Worker.testing _)) <|
      .cons (.take (.inl rfl) (.intro [] [] Worker.entering _)) <|
      .cons (.push (by decide) (.inl (.intro [] [] _ _))) <|
      .cons (.take (.inr (.inl rfl)) (.intro [] [] Worker.notified _)) <|
      .cons (.finish (.inl rfl) (.intro [] [] (Worker.holding 0) _)) <| .nil _, ?_⟩
    rfl
  obtain ⟨trace, s, run, executed⟩ := run
  exact ⟨trace, s, run, executed, (pool_conserves run).1⟩

end ThreadPool

end LaliRpc.Base
