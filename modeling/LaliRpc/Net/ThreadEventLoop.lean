/-
# Net.ThreadEventLoop — a loop in a thread of its own

`startLoop` starts the thread and waits until `threadFunc` has published the loop it
constructed; from then on another thread can call `quit()`. It sets a flag and does
nothing else, and `loop()` clears the flag when it starts. So a quit is noticed, and
kept, exactly when it comes neither before `loop()` has started nor while the loop
thread is on its way into the poll, or in it, with no wake-up pending
(`quit_noticed_iff`).
-/
import LaliRpc.Net.EventLoop

namespace LaliRpc.Net

open LaliRpc.Theory

set_option autoImplicit false

/-- Where `threadFunc` is. -/
inductive ThreadEventLoop.Stage where
  /-- the thread does not run -/
  | unstarted
  | started
  /-- the loop is constructed -/
  | constructed
  /-- `loop_` is set -/
  | published
  /-- `loop_` is cleared, behind `loop()` -/
  | cleared
  deriving DecidableEq, Repr

structure ThreadEventLoop (φ τ : Type) where
  stage : ThreadEventLoop.Stage
  loop : EventLoop φ τ
  /-- `startLoop()` has returned. -/
  returned : Bool
  /-- A call of `quit()` has returned. -/
  quitReturned : Bool

namespace ThreadEventLoop

variable {φ τ : Type}

/-- `ThreadEventLoop()`. -/
def fresh : ThreadEventLoop φ τ := ⟨.unstarted, .fresh, false, false⟩

inductive Action (φ τ : Type) where
  /-- `startLoop()` starts the thread. -/
  | start
  | construct
  | publish
  /-- `startLoop()` finds `loop_` set and returns. -/
  | startReturns
  /-- A step of the loop other than a `quit()`. -/
  | run (a : EventLoop.Action φ τ)
  | quit (thread : Option τ)
  | clear

variable [DecidableEq τ]

/-- What can happen next. `threadFunc` calls `loop()` once `loop_` is set. The loop
belongs to other threads from `startLoop()`'s return until it is cleared, and to the
code that it runs itself. -/
inductive Step : ThreadEventLoop φ τ → Action φ τ → ThreadEventLoop φ τ → Prop where
  | start {s : ThreadEventLoop φ τ} (here : s.stage = .unstarted) :
      Step s .start { s with stage := .started }
  | construct {s : ThreadEventLoop φ τ} (here : s.stage = .started) :
      Step s .construct { s with stage := .constructed }
  | publish {s : ThreadEventLoop φ τ} (here : s.stage = .constructed) :
      Step s .publish { s with stage := .published }
  | startReturns {s : ThreadEventLoop φ τ} (set : s.stage = .published) :
      Step s .startReturns { s with returned := true }
  | run {s : ThreadEventLoop φ τ} {a : EventLoop.Action φ τ} {loop : EventLoop φ τ}
      (set : s.stage = .published) (step : s.loop.Step a loop) (other : a ≠ .quit)
      (known : ∀ thread cb, a = .queue (some thread) cb → s.returned = true) :
      Step s (.run a) { s with loop := loop }
  | quit {s : ThreadEventLoop φ τ} {thread : Option τ} (set : s.stage = .published)
      (known : ∀ t, thread = some t → s.returned = true)
      (user : thread = none → s.loop.phase = .handling ∨ s.loop.phase = .running) :
      Step s (.quit thread) { s with loop := { s.loop with quit := true }, quitReturned := true }
  | clear {s : ThreadEventLoop φ τ} (set : s.stage = .published) (done : s.loop.phase = .exited) :
      Step s .clear { s with stage := .cleared }

/-- The loop has a quit that was called still before it, and does not sleep on it. -/
structure Noticed (s : ThreadEventLoop φ τ) : Prop where
  kept : s.quitReturned = true → s.loop.phase ≠ .exited → s.loop.quit = true
  awake : s.loop.phase = .polling → s.loop.quit = true → s.loop.WakeupPending

/-- `loop()` clears no quit, and nobody is in the poll, or goes there, with a quit and
without a wake-up. -/
def InTime (s : ThreadEventLoop φ τ) : Action φ τ → Prop
  | .run .enter => s.quitReturned = false
  | .run .poll => s.loop.quit = true → s.loop.WakeupPending
  | .quit _ => s.loop.phase = .polling → s.loop.WakeupPending
  | _ => True

/-! ## Steps of the loop -/

section Steps

variable {l l' : EventLoop φ τ} {a : EventLoop.Action φ τ}

/-- A step other than the start and a quit leaves the flag. -/
theorem quit_step (step : l.Step a l') (notEnter : a ≠ .enter) (notQuit : a ≠ .quit) :
    l'.quit = l.quit := by
  cases step with
  | enter => exact absurd rfl notEnter
  | quit => exact absurd rfl notQuit
  | _ => rfl

/-- A loop that has returned does not start again. -/
theorem exited_step (step : l.Step a l') (here : l.phase = .exited) : l'.phase = .exited := by
  cases step with
  | queue | weakup | quit => exact here
  | enter here' | stop here' | goOn here' | poll here' | woken here' | ready here' | handleRead here'
  | call here' | swap here' | runFunctor here' | finish here' =>
      exact absurd (here.symm.trans here') (by decide)

/-- Who is in the poll was there already, or has just entered. -/
theorem polling_step (step : l.Step a l') (notPoll : a ≠ .poll) (here : l'.phase = .polling) :
    l.phase = .polling := by
  cases step with
  | poll => exact absurd rfl notPoll
  | handleRead | runFunctor | queue | weakup | quit => exact here
  | _ => cases here

/-- There a wake-up stays pending. -/
theorem wakeupPending_step (step : l.Step a l') (here : l.phase = .polling)
    (pending : l.WakeupPending) : l'.WakeupPending := by
  cases step with
  | @queue thread cb free user =>
      refine EventLoop.wakeupPending_queueInLoop fun own => ?_
      rcases user own with busy | busy <;> rw [here] at busy <;> cases busy
  | weakup pushed => exact .inl (EventLoop.weakupFd_weakup l)
  | handleRead handling =>
      rw [here] at handling
      cases handling
  | _ => exact pending

end Steps

/-! ## The flag is kept and noticed -/

section Noticing

variable {s s' : ThreadEventLoop φ τ} {a : Action φ τ}

/-- A step of the loop that is in time keeps the flag noticed. -/
theorem noticed_run {act : EventLoop.Action φ τ} {loop : EventLoop φ τ} (noticed : s.Noticed)
    (inTime : s.InTime (.run act)) (other : act ≠ .quit) (step : s.loop.Step act loop) :
    Noticed { s with loop := loop } := by
  constructor
  · intro returned running
    have running' : s.loop.phase ≠ .exited := fun here => running (exited_step step here)
    by_cases entered : act = .enter
    · subst entered
      rw [show s.quitReturned = false from inTime] at returned
      cases returned
    · rw [quit_step step entered other]
      exact noticed.kept returned running'
  · intro here quit
    by_cases entered : act = .poll
    · subst entered
      cases step with
      | poll tested => exact inTime quit
    · have before := polling_step step entered here
      have notEnter : act ≠ .enter := by
        rintro rfl
        cases step
        cases here
      rw [quit_step step notEnter other] at quit
      exact wakeupPending_step step before (noticed.awake before quit)

theorem noticed_step (noticed : s.Noticed) (inTime : s.InTime a) (step : s.Step a s') :
    s'.Noticed := by
  cases step with
  | run set step other known => exact noticed_run noticed inTime other step
  | quit set known user => exact ⟨fun _ _ => rfl, fun here _ => inTime here⟩
  | _ => exact ⟨noticed.kept, noticed.awake⟩

/-- Any other step loses the quit, or sleeps on it. -/
theorem noticed_broken (late : ¬ s.InTime a) (step : s.Step a s') : ¬ s'.Noticed := by
  intro noticed
  cases step with
  | start | construct | publish | startReturns | clear => exact late trivial
  | quit set known user => exact late fun here => noticed.awake here rfl
  | @run act loop set step other known =>
      cases step with
      | enter here =>
          refine late (Bool.eq_false_iff.mpr fun returned => ?_)
          have flag := noticed.kept returned nofun
          cases flag
      | poll here => exact late fun quit => noticed.awake rfl quit
      | _ => exact late trivial

/-- **A quit is kept until the loop exits, and never slept on, exactly in the runs
whose steps are all in time.** -/
theorem quit_noticed_iff {trace : List (ThreadEventLoop φ τ × Action φ τ)}
    (run : Run Step fresh trace s) :
    Run.Throughout Noticed trace s ↔ ∀ p ∈ trace, p.1.InTime p.2 :=
  run.invariant_iff (J := fun _ => True) (fun _ _ _ _ _ => trivial)
    (fun _ _ _ _ noticed inTime step => noticed_step noticed inTime step)
    (fun _ _ _ _ _ late step => noticed_broken late step) trivial ⟨nofun, nofun⟩

end Noticing

/-! ### Three quits -/

/-- A loop that has been started by another thread. -/
def published : ThreadEventLoop Nat Unit := ⟨.published, .fresh, true, false⟩

def startup : List (ThreadEventLoop Nat Unit × Action Nat Unit) :=
  [(fresh, .start), (⟨.started, .fresh, false, false⟩, .construct),
    (⟨.constructed, .fresh, false, false⟩, .publish),
    (⟨.published, .fresh, false, false⟩, .startReturns)]

theorem run_startup : Run Step fresh startup published :=
  .cons (.start rfl) <| .cons (.construct rfl) <| .cons (.publish rfl) <|
    .cons (.startReturns rfl) <| .nil _

/-- A quit while a functor runs is noticed, and the loop exits. -/
theorem quit_in_functor :
    ∃ (trace : List (ThreadEventLoop Nat Unit × Action Nat Unit)) (s : ThreadEventLoop Nat Unit),
      Run Step fresh trace s ∧ s.quitReturned = true ∧ s.loop.phase = .exited ∧
      Run.Throughout Noticed trace s := by
  have run := run_startup.append <|
    .cons (.run rfl (.enter rfl) nofun nofun) <| .cons (.run rfl (.goOn rfl rfl) nofun nofun) <|
    .cons (.run rfl (.poll rfl) nofun nofun) <| .cons (.run rfl (.ready rfl) nofun nofun) <|
    .cons (.run rfl (.call rfl rfl rfl) nofun nofun) <| .cons (.run rfl (.swap rfl) nofun nofun) <|
    .cons (.quit rfl (fun _ _ => rfl) nofun : Step _ (.quit (some ())) _) <|
    .cons (.run rfl (.finish rfl rfl rfl) nofun nofun) <|
    .cons (.run rfl (.stop rfl rfl) nofun nofun) <| .nil _
  refine ⟨_, _, run, rfl, rfl, (quit_noticed_iff run).mpr fun p mem => ?_⟩
  simp only [startup, List.cons_append, List.nil_append, List.mem_cons, List.not_mem_nil,
    or_false] at mem
  rcases mem with rfl | rfl | rfl | rfl | rfl | rfl | rfl | rfl | rfl | rfl | rfl | rfl | rfl <;>
    first | trivial | rfl | exact fun quit => by cases quit

/-- A quit before `loop()` has started is lost; one in the poll waits for its timeout. -/
theorem quit_lost_or_slept_on :
    (∃ (trace : List (ThreadEventLoop Nat Unit × Action Nat Unit)) (s : ThreadEventLoop Nat Unit),
      Run Step fresh trace s ∧ s.quitReturned = true ∧ s.loop.phase = .polling ∧
      s.loop.quit = false ∧ ¬ Run.Throughout Noticed trace s) ∧
    ∃ (trace : List (ThreadEventLoop Nat Unit × Action Nat Unit)) (s : ThreadEventLoop Nat Unit),
      Run Step fresh trace s ∧ s.quitReturned = true ∧ s.loop.phase = .polling ∧
      ¬ s.loop.WakeupPending ∧ ¬ Run.Throughout Noticed trace s := by
  have early := run_startup.append <|
    .cons (.quit rfl (fun _ _ => rfl) nofun : Step _ (.quit (some ())) _) <|
    .cons (.run rfl (.enter rfl) nofun nofun) <| .cons (.run rfl (.goOn rfl rfl) nofun nofun) <|
    .cons (.run rfl (.poll rfl) nofun nofun) <| .nil _
  have polling := run_startup.append <|
    .cons (.run rfl (.enter rfl) nofun nofun) <| .cons (.run rfl (.goOn rfl rfl) nofun nofun) <|
    .cons (.run rfl (.poll rfl) nofun nofun) <|
    .cons (.quit rfl (fun _ _ => rfl) nofun : Step _ (.quit (some ())) _) <| .nil _
  have asleep : ∀ l : EventLoop Nat Unit, l.weakupFd = 0 → l.waking = (fun _ => false) →
      ¬ l.WakeupPending := by
    rintro l unread nobody (readable | ⟨thread, waking⟩)
    · exact readable unread
    · rw [nobody] at waking
      cases waking
  refine ⟨⟨_, _, early, rfl, rfl, rfl, fun noticed => ?_⟩,
    ⟨_, _, polling, rfl, rfl, asleep _ rfl rfl, fun noticed => ?_⟩⟩
  · have flag := noticed.2.kept rfl nofun
    cases flag
  · exact asleep _ rfl rfl (noticed.2.awake rfl rfl)

end ThreadEventLoop

end LaliRpc.Net
