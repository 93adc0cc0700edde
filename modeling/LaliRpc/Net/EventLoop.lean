/-
# Net.EventLoop — functors queued to a loop

An `EventLoop` with its own thread and any number of others. A thread's
`queueInLoop` is two steps, the `push_back` under the lock and the write to the
eventfd behind it, and every other thread may step in between (`queueInLoop`,
`waking`). The loop thread's `loop` and `doPendingFunctor` are cut at each access to
what is shared: testing the flag, entering and leaving the poll, reading the eventfd,
swapping the list.

No functor is lost, duplicated or overtaken (`Sound.order`), and the loop never waits
in the poll for one that has no wake-up on its way (`Sound.awake`): between the event
phase and the next poll the list is swapped out, and whatever is queued behind the
swap wakes the loop. Both are in `functors_exactly_once`, with what follows for the
functors' execution.
-/
import LaliRpc.Theory.Transition
import Mathlib.Logic.Function.Basic

namespace LaliRpc.Net

open LaliRpc.Theory

set_option autoImplicit false

/-- Where the loop thread is. -/
inductive EventLoop.Phase where
  /-- not in `loop()` yet -/
  | idle
  /-- at `while(!quit_)` -/
  | testing
  /-- behind the test, before the poll -/
  | tested
  | polling
  /-- handling the active channels -/
  | handling
  /-- in `doPendingFunctor`, before the swap -/
  | calling
  /-- behind the swap, running the functors -/
  | running
  /-- `loop()` has returned -/
  | exited
  deriving DecidableEq, Repr

/-- The largest value of an eventfd counter. -/
def maxCount : Nat := 0xFFFFFFFFFFFFFFFE

/-- The state of a loop. A thread is `some` other thread or the loop's own, `none`. -/
structure EventLoop (φ τ : Type) where
  quit : Bool
  callPendingFunctor : Bool
  pendingFunctors : List φ
  /-- the counter of `weakupFd_` -/
  weakupFd : Nat
  phase : EventLoop.Phase
  /-- The local list of `doPendingFunctor`, less what has been run. -/
  functors : List φ
  /-- `weakupChannel_` is among the active channels that are still to be handled. -/
  reported : Bool
  /-- The thread is between its `push_back` and its write. -/
  waking : Option τ → Bool
  /-- every functor appended so far, and every one executed -/
  appended : List φ
  executed : List φ

namespace EventLoop

variable {φ τ : Type}

/-- `EventLoop()`. -/
def fresh : EventLoop φ τ :=
  ⟨false, false, [], 0, .idle, [], false, fun _ => false, [], []⟩

/-- A write of 1 to the eventfd, which fails when the counter is full. -/
def weakup (l : EventLoop φ τ) : EventLoop φ τ :=
  { l with weakupFd := if l.weakupFd < maxCount then l.weakupFd + 1 else l.weakupFd }

/-- The read of the eventfd takes the whole counter. -/
def handleRead (l : EventLoop φ τ) : EventLoop φ τ := { l with weakupFd := 0, reported := false }

variable [DecidableEq τ]

/-- `queueInLoop` up to the wake-up, which a thread does if it is not the loop's or
functors are being called. -/
def queueInLoop (l : EventLoop φ τ) (thread : Option τ) (cb : φ) : EventLoop φ τ :=
  { l with
    pendingFunctors := l.pendingFunctors ++ [cb]
    appended := l.appended ++ [cb]
    waking := Function.update l.waking thread (thread.isSome || l.callPendingFunctor) }

inductive Action (φ τ : Type) where
  /-- `loop()` is called, up to `quit_ = false`. -/
  | enter
  | test
  | poll
  /-- The poll returns because the eventfd is readable. -/
  | woken
  /-- The poll returns for another channel or after its timeout. -/
  | ready
  | handleRead
  /-- All channels are handled, and `doPendingFunctor` is called. -/
  | call
  | swap
  | runFunctor
  /-- `doPendingFunctor` returns. -/
  | finish
  | queue (thread : Option τ) (cb : φ)
  | weakup (thread : Option τ)
  | quit

/-- What can happen next. The loop thread does nothing else between a `push_back` of
its own and the write behind it. It queues functors from event handlers and from
functors; a `runInLoop` there runs its functor in place, and that of another thread is
`queueInLoop`. -/
inductive Step : EventLoop φ τ → Action φ τ → EventLoop φ τ → Prop where
  | enter {l : EventLoop φ τ} (here : l.phase = .idle) :
      Step l .enter { l with quit := false, phase := .testing }
  | stop {l : EventLoop φ τ} (here : l.phase = .testing) (quit : l.quit = true) :
      Step l .test { l with phase := .exited }
  | goOn {l : EventLoop φ τ} (here : l.phase = .testing) (quit : l.quit = false) :
      Step l .test { l with phase := .tested }
  | poll {l : EventLoop φ τ} (here : l.phase = .tested) : Step l .poll { l with phase := .polling }
  | woken {l : EventLoop φ τ} (here : l.phase = .polling) (readable : l.weakupFd ≠ 0) :
      Step l .woken { l with phase := .handling, reported := true }
  | ready {l : EventLoop φ τ} (here : l.phase = .polling) :
      Step l .ready { l with phase := .handling, reported := decide (l.weakupFd ≠ 0) }
  | handleRead {l : EventLoop φ τ} (here : l.phase = .handling) (free : l.waking none = false)
      (active : l.reported = true) : Step l .handleRead l.handleRead
  | call {l : EventLoop φ τ} (here : l.phase = .handling) (free : l.waking none = false)
      (handled : l.reported = false) :
      Step l .call { l with phase := .calling, callPendingFunctor := true }
  | swap {l : EventLoop φ τ} (here : l.phase = .calling) :
      Step l .swap { l with phase := .running, functors := l.pendingFunctors, pendingFunctors := [] }
  | runFunctor {l : EventLoop φ τ} {f : φ} {fs : List φ} (here : l.phase = .running)
      (free : l.waking none = false) (next : l.functors = f :: fs) :
      Step l .runFunctor { l with functors := fs, executed := l.executed ++ [f] }
  | finish {l : EventLoop φ τ} (here : l.phase = .running) (free : l.waking none = false)
      (done : l.functors = []) :
      Step l .finish { l with phase := .testing, callPendingFunctor := false }
  | queue {l : EventLoop φ τ} {thread : Option τ} {cb : φ} (free : l.waking thread = false)
      (user : thread = none → l.phase = .handling ∨ l.phase = .running) :
      Step l (.queue thread cb) (l.queueInLoop thread cb)
  | weakup {l : EventLoop φ τ} {thread : Option τ} (pushed : l.waking thread = true) :
      Step l (.weakup thread) { l.weakup with waking := Function.update l.waking thread false }
  | quit {l : EventLoop φ τ} : Step l .quit { l with quit := true }

/-- The poll returns, or will as soon as a write comes that is on its way. -/
def WakeupPending (l : EventLoop φ τ) : Prop :=
  l.weakupFd ≠ 0 ∨ ∃ thread, l.waking thread = true

/-! ## The invariant -/

/-- The loop thread runs no code of a user, and the list has been swapped out. -/
def Phase.Quiet (p : Phase) : Prop := p ≠ .handling ∧ p ≠ .calling ∧ p ≠ .running

instance : DecidablePred Phase.Quiet := fun p =>
  inferInstanceAs (Decidable (p ≠ .handling ∧ p ≠ .calling ∧ p ≠ .running))

/-- Before the swap the list may hold functors that nobody wakes the loop for. -/
structure Sound (l : EventLoop φ τ) : Prop where
  order : l.appended = l.executed ++ l.functors ++ l.pendingFunctors
  batch : l.phase ≠ .running → l.functors = []
  calls : l.phase = .calling ∨ l.phase = .running → l.callPendingFunctor = true
  own : l.waking none = true → l.phase = .handling ∨ l.phase = .running
  awake : l.phase ≠ .handling → l.phase ≠ .calling → l.pendingFunctors ≠ [] → l.WakeupPending

variable {l l' : EventLoop φ τ}

omit [DecidableEq τ] in
theorem sound_fresh : (fresh : EventLoop φ τ).Sound where
  order := rfl
  batch _ := rfl
  calls here := by rcases here with here | here <;> cases here
  own pushed := by cases pushed
  awake _ _ some := absurd rfl some

omit [DecidableEq τ] in
/-- Going on to another quiet phase. -/
theorem Sound.move (sound : l.Sound) (here : l.phase.Quiet) {p : Phase}
    (there : p.Quiet) (quit : Bool) : Sound { l with quit := quit, phase := p } where
  order := sound.order
  batch _ := sound.batch here.2.2
  calls busy := by rcases busy with busy | busy <;> simp_all [Phase.Quiet]
  own pushed := by rcases sound.own pushed with busy | busy <;> simp_all [Phase.Quiet]
  awake _ _ := sound.awake here.1 here.2.1

omit [DecidableEq τ] in
/-- Leaving the poll. -/
theorem Sound.leavePoll (sound : l.Sound) (here : l.phase = .polling) (reported : Bool) :
    Sound { l with phase := .handling, reported := reported } where
  order := sound.order
  batch _ := sound.batch (by rw [here]; nofun)
  calls busy := by rcases busy with busy | busy <;> cases busy
  own _ := .inl rfl
  awake no := absurd rfl no

omit [DecidableEq τ] in
theorem weakupFd_weakup (l : EventLoop φ τ) : l.weakup.weakupFd ≠ 0 := by
  show (if l.weakupFd < maxCount then l.weakupFd + 1 else l.weakupFd) ≠ 0
  split
  · exact Nat.succ_ne_zero _
  · rename_i full
    have : 0 < maxCount := by decide
    omega

/-- A functor queued by another thread, or while functors are called, has its wake-up on
the way. -/
theorem wakeupPending_queueInLoop {thread : Option τ} {cb : φ}
    (wakes : thread = none → l.callPendingFunctor = true) :
    (l.queueInLoop thread cb).WakeupPending := by
  refine .inr ⟨thread, ?_⟩
  show Function.update l.waking thread _ thread = true
  rw [Function.update_self]
  cases thread with
  | none => simp [wakes rfl]
  | some thread => rfl

theorem sound_queueInLoop (sound : l.Sound) {thread : Option τ} {cb : φ}
    (user : thread = none → l.phase = .handling ∨ l.phase = .running) :
    (l.queueInLoop thread cb).Sound where
  order := by
    show l.appended ++ [cb] = l.executed ++ l.functors ++ (l.pendingFunctors ++ [cb])
    rw [sound.order, List.append_assoc]
  batch := sound.batch
  calls := sound.calls
  own pushed := by
    cases thread with
    | none => exact user rfl
    | some thread =>
        refine sound.own ?_
        simpa [queueInLoop] using pushed
  awake notHandling notCalling _ :=
    wakeupPending_queueInLoop fun own =>
      sound.calls (.inr ((user own).resolve_left notHandling))

/-- **Every step keeps the invariant.** -/
theorem sound_step {a : Action φ τ} (sound : l.Sound) (step : l.Step a l') : l'.Sound := by
  cases step with
  | enter here => exact sound.move (here ▸ by decide) (by decide) false
  | stop here quit => exact sound.move (here ▸ by decide) (by decide) l.quit
  | goOn here quit => exact sound.move (here ▸ by decide) (by decide) l.quit
  | poll here => exact sound.move (here ▸ by decide) (by decide) l.quit
  | woken here readable => exact sound.leavePoll here true
  | ready here => exact sound.leavePoll here _
  | handleRead here free active =>
      exact ⟨sound.order, sound.batch, sound.calls, sound.own, fun no => absurd here no⟩
  | call here free handled =>
      have empty := sound.batch (here ▸ by decide)
      refine ⟨sound.order, fun _ => empty, fun _ => rfl, fun pushed => ?_, fun _ no => absurd rfl no⟩
      rw [free] at pushed
      cases pushed
  | swap here =>
      have empty := sound.batch (here ▸ by decide)
      have order := sound.order
      rw [empty, List.append_nil] at order
      refine ⟨?_, fun no => absurd rfl no, fun _ => sound.calls (.inl here), fun _ => .inr rfl,
        fun _ _ some => absurd rfl some⟩
      rw [List.append_nil]
      exact order
  | @runFunctor f fs here free next =>
      have order := sound.order
      rw [next, List.append_cons] at order
      exact ⟨order, fun no => absurd here no, sound.calls, sound.own, sound.awake⟩
  | finish here free done =>
      refine ⟨sound.order, fun _ => done, nofun, fun pushed => ?_, fun _ _ => ?_⟩
      · rw [free] at pushed
        cases pushed
      · exact sound.awake (here ▸ by decide) (here ▸ by decide)
  | queue free user => exact sound_queueInLoop sound user
  | @weakup thread pushed =>
      refine ⟨sound.order, sound.batch, sound.calls, fun waking => ?_, fun _ _ _ =>
        .inl (weakupFd_weakup l)⟩
      cases thread with
      | none => exact sound.own pushed
      | some thread =>
          refine sound.own ?_
          simpa using waking
  | quit => exact ⟨sound.order, sound.batch, sound.calls, sound.own, sound.awake⟩

/-! ## What has been queued is executed -/

/-- What is executed stays executed, and the batch is only ever taken from its front. -/
theorem executed_step {a : Action φ τ} (sound : l.Sound) (step : l.Step a l') :
    l.executed <+: l'.executed ∧ l.executed ++ l.functors <+: l'.executed ++ l'.functors := by
  cases step with
  | swap here =>
      have empty := sound.batch (here ▸ by decide)
      refine ⟨List.prefix_rfl, ?_⟩
      rw [empty, List.append_nil]
      exact List.prefix_append _ _
  | @runFunctor f fs here free next =>
      have batch : l.executed ++ l.functors = l.executed ++ [f] ++ fs := by
        rw [next, List.append_cons]
      exact ⟨List.prefix_append _ _, batch ▸ List.prefix_rfl⟩
  | _ => exact ⟨List.prefix_rfl, List.prefix_rfl⟩

theorem appended_step {a : Action φ τ} (step : l.Step a l') : l.appended <+: l'.appended := by
  cases step with
  | queue free user => exact List.prefix_append _ _
  | _ => exact List.prefix_rfl

/-- Over a run all three lists only grow. -/
theorem grows_run {trace : List (EventLoop φ τ × Action φ τ)} (run : Run Step l trace l')
    (sound : l.Sound) : l.executed <+: l'.executed ∧
      l.executed ++ l.functors <+: l'.executed ++ l'.functors ∧ l.appended <+: l'.appended ∧
      l'.Sound := by
  induction run with
  | nil l => exact ⟨List.prefix_rfl, List.prefix_rfl, List.prefix_rfl, sound⟩
  | cons first rest ih =>
      obtain ⟨executed, batch, appended, last⟩ := ih (sound_step sound first)
      obtain ⟨executed', batch'⟩ := executed_step sound first
      exact ⟨executed'.trans executed, batch'.trans batch, (appended_step first).trans appended, last⟩

/-- The trace has a whole `doPendingFunctor` behind its swap. -/
def CompletesBatch (trace : List (EventLoop φ τ × Action φ τ)) : Prop :=
  ∃ before during after p q, trace = before ++ (p, .swap) :: (during ++ (q, .finish) :: after)

/-- What was appended before a swap is executed when the batch is through. -/
theorem executed_of_completes {trace : List (EventLoop φ τ × Action φ τ)}
    (run : Run Step l trace l') (sound : l.Sound) (completes : CompletesBatch trace) :
    l.appended <+: l'.executed := by
  obtain ⟨before, during, after, p, q, rfl⟩ := completes
  obtain ⟨u, early, late⟩ := run.split
  obtain ⟨-, -, appended, sound⟩ := grows_run early sound
  cases late with
  | cons swap late =>
      have sound' := sound_step sound swap
      obtain ⟨v, running, last⟩ := late.split
      obtain ⟨-, batch, -, sound''⟩ := grows_run running sound'
      cases last with
      | cons finish rest =>
          obtain ⟨executed, -, -, -⟩ := grows_run rest (sound_step sound'' finish)
          cases swap with
          | swap here =>
              cases finish with
              | finish here' free done =>
                  have taken := sound'.order
                  rw [List.append_nil] at taken
                  rw [done, List.append_nil, ← taken] at batch
                  exact (appended.trans batch).trans executed

/-! ### Without a timeout -/

/-- The steps of the loop thread, and the wake-ups that are on their way. The poll
returns for a wake-up alone. -/
def Action.Own : Action φ τ → Prop
  | .ready | .queue .. | .quit => False
  | _ => True

/-- How far it is to the next swap, through a wake-up. -/
def toSwap (l : EventLoop φ τ) : Nat :=
  match l.phase with
  | .idle => 9
  | .running => 8
  | .testing => 7
  | .tested => 6
  | .polling => if l.weakupFd = 0 then 5 else 4
  | .handling => if l.reported then 3 else 2
  | .calling => 1
  | .exited => 0

/-- How far it is until everything queued has been executed. -/
def remaining (l : EventLoop φ τ) : Nat :=
  (if l.waking none then 1 else 0) + l.functors.length +
    if l.pendingFunctors = [] then 0 else l.pendingFunctors.length + l.toSwap

/-- The loop is in its `while`, and nobody has quit it. -/
def Looping (l : EventLoop φ τ) : Prop := l.phase ≠ .idle ∧ l.phase ≠ .exited ∧ l.quit = false

theorem looping_step {a : Action φ τ} (looping : l.Looping) (own : a.Own) (step : l.Step a l') :
    l'.Looping ∧ l'.appended = l.appended := by
  obtain ⟨notIdle, notExited, going⟩ := looping
  cases step with
  | enter here => exact absurd here notIdle
  | stop here quit =>
      rw [going] at quit
      cases quit
  | ready | queue | quit => cases own
  | handleRead | runFunctor | weakup => exact ⟨⟨notIdle, notExited, going⟩, rfl⟩
  | _ => exact ⟨⟨nofun, nofun, going⟩, rfl⟩

omit [DecidableEq τ] in
/-- A write brings a polling loop closer, and any other no further away. -/
theorem toSwap_weakup (l : EventLoop φ τ) (waking : Option τ → Bool) :
    toSwap { l.weakup with waking := waking } ≤ l.toSwap ∧
      (l.phase = .polling → l.weakupFd = 0 → toSwap { l.weakup with waking := waking } < l.toSwap) := by
  have written : l.weakup.weakupFd ≠ 0 := weakupFd_weakup l
  cases here : l.phase with
  | polling =>
      have near : toSwap { l.weakup with waking := waking } = 4 := by
        simp only [toSwap, weakup, here]
        exact if_neg written
      rw [near]
      simp only [toSwap, here]
      refine ⟨?_, fun _ asleep => ?_⟩
      · split <;> omega
      · rw [if_pos asleep]
        omega
  | _ => exact ⟨by simp [toSwap, weakup, here], nofun⟩

/-- Outside the goal the loop always has a step that brings it closer. -/
theorem exists_step_own (sound : l.Sound) (looping : l.Looping)
    (left : ¬ (l.functors = [] ∧ l.pendingFunctors = [])) :
    ∃ a l', (l.Step a l' ∧ a.Own) ∧ l'.remaining < l.remaining := by
  obtain ⟨notIdle, notExited, going⟩ := looping
  by_cases pushed : l.waking none = true
  · refine ⟨_, _, ⟨.weakup pushed, trivial⟩, ?_⟩
    have closer := (toSwap_weakup l (Function.update l.waking none false)).1
    by_cases empty : l.pendingFunctors = []
    · simp [remaining, weakup, pushed, empty]
    · simp [remaining, weakup, pushed, empty] at closer ⊢
      omega
  · have free : l.waking none = false := by simpa using pushed
    by_cases running : l.phase = .running
    · cases batch : l.functors with
      | nil =>
          have some : l.pendingFunctors ≠ [] := fun none => left ⟨batch, none⟩
          refine ⟨_, _, ⟨.finish running free batch, trivial⟩, ?_⟩
          simp [remaining, toSwap, running, free, some]
      | cons f fs =>
          refine ⟨_, _, ⟨.runFunctor running free batch, trivial⟩, ?_⟩
          simp [remaining, toSwap, running, batch]
    · have empty := sound.batch running
      have some : l.pendingFunctors ≠ [] := fun none => left ⟨empty, none⟩
      cases here : l.phase with
      | idle => exact absurd here notIdle
      | exited => exact absurd here notExited
      | running => exact absurd here running
      | testing =>
          refine ⟨_, _, ⟨.goOn here going, trivial⟩, ?_⟩
          simp [remaining, toSwap, here, some]
      | tested =>
          refine ⟨_, _, ⟨.poll here, trivial⟩, ?_⟩
          simp [remaining, toSwap, here, some]
          split <;> omega
      | polling =>
          by_cases asleep : l.weakupFd = 0
          · -- the wake-up is still on its way
            obtain readable | ⟨thread, waking⟩ := sound.awake (here ▸ by decide) (here ▸ by decide) some
            · exact absurd asleep readable
            · refine ⟨_, _, ⟨.weakup waking, trivial⟩, ?_⟩
              have closer := (toSwap_weakup l (Function.update l.waking thread false)).2 here asleep
              have other : thread ≠ none := fun own => by simp_all
              simp only [remaining, Function.update_of_ne (Ne.symm other)]
              simp [weakup, some] at closer ⊢
              omega
          · refine ⟨_, _, ⟨.woken here asleep, trivial⟩, ?_⟩
            simp [remaining, toSwap, here, some, asleep]
      | handling =>
          cases active : l.reported with
          | true =>
              refine ⟨_, _, ⟨.handleRead here free active, trivial⟩, ?_⟩
              simp [remaining, toSwap, handleRead, here, some, active]
          | false =>
              refine ⟨_, _, ⟨.call here free active, trivial⟩, ?_⟩
              simp [remaining, toSwap, here, some, active]
      | calling =>
          refine ⟨_, _, ⟨.swap here, trivial⟩, ?_⟩
          simp [remaining, toSwap, here, some, empty]

/-- A loop that nobody quits can execute everything queued, and needs no timeout and no
other event for it. -/
theorem can_execute (sound : l.Sound) (looping : l.Looping) :
    ∃ trace m, Run Step l trace m ∧ (∀ p ∈ trace, p.2.Own) ∧ m.executed = l.appended := by
  have reach : ∃ trace m, Run (fun l a l' => Step l a l' ∧ a.Own) l trace m ∧
      m.executed = l.appended := by
    refine Run.exists_run (I := fun m => m.Sound ∧ m.Looping ∧ m.appended = l.appended) remaining
      (fun m a m' inv step => ?_) (fun m inv left => ?_) ⟨sound, looping, rfl⟩
    · obtain ⟨looping, same⟩ := looping_step inv.2.1 step.2 step.1
      exact ⟨sound_step inv.1 step.1, looping, same.trans inv.2.2⟩
    · refine exists_step_own inv.1 inv.2.1 fun through => left ?_
      have order := inv.1.order
      rw [through.1, through.2, List.append_nil, List.append_nil] at order
      exact order.symm.trans inv.2.2
  obtain ⟨trace, m, run, reached⟩ := reach
  obtain ⟨taken, own⟩ := run.restricted
  exact ⟨trace, m, taken, own, reached⟩

/-- **Functors are executed once each and in order, and the loop never sleeps on one.** -/
theorem functors_exactly_once {trace : List (EventLoop φ τ × Action φ τ)}
    (run : Run Step fresh trace l) :
    l.appended = l.executed ++ l.functors ++ l.pendingFunctors ∧
    (l.phase = .polling → l.pendingFunctors ≠ [] →
      l.weakupFd ≠ 0 ∨ ∃ thread, l.waking (some thread) = true) ∧
    (∀ later m, Run Step l later m → CompletesBatch later → l.appended <+: m.executed) ∧
    (l.Looping → ∃ later m, Run Step l later m ∧ (∀ p ∈ later, p.2.Own) ∧
      m.executed = l.appended) := by
  have sound := run.invariant_last (fun _ _ _ sound step => sound_step sound step) sound_fresh
  refine ⟨sound.order, fun here some => ?_, fun later m run completes => ?_, can_execute sound⟩
  · obtain readable | ⟨thread, waking⟩ := sound.awake (here ▸ by decide) (here ▸ by decide) some
    · exact .inl readable
    · cases thread with
      | none =>
          have user := sound.own waking
          rw [here] at user
          rcases user with busy | busy <;> cases busy
      | some thread => exact .inr ⟨thread, waking⟩
  · exact executed_of_completes run sound completes

/-- A functor queued while the loop polls, its wake-up still on the way. -/
theorem queued_while_polling :
    ∃ (trace : List (EventLoop Nat Unit × Action Nat Unit)) (l : EventLoop Nat Unit),
      Run Step fresh trace l ∧ l.phase = .polling ∧ l.pendingFunctors = [7] ∧ l.weakupFd = 0 ∧
      (l.weakupFd ≠ 0 ∨ ∃ thread, l.waking (some thread) = true) ∧
      ∃ later m, Run Step l later m ∧ (∀ p ∈ later, p.2.Own) ∧ m.executed = [7] := by
  have run := Run.cons (Step.enter rfl : (fresh : EventLoop Nat Unit).Step _ _) <|
    .cons (.goOn rfl rfl) <| .cons (.poll rfl) <|
    .cons (.queue rfl nofun : Step _ (.queue (some ()) 7) _) <| .nil _
  obtain ⟨-, awake, -, execute⟩ := functors_exactly_once run
  exact ⟨_, _, run, rfl, rfl, rfl, awake rfl nofun, execute ⟨nofun, nofun, rfl⟩⟩

end EventLoop

end LaliRpc.Net
