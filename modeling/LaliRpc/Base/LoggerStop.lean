/-
# Base.LoggerStop — what `stop()` leaves unwritten

`stop()` clears `running_`, wakes the thread and joins it. The thread leaves its
loop at the next test of the flag, without another collection. If it has tested
the flag and not collected yet, the collection to come takes everything; else
what is in `buffers_` and `currentBuffer_` is never written.

`flushed_iff`: when `stop()` has returned, the file has every message appended
before it, if and only if it was called between the test and the collection, or
with nothing in those buffers.
-/
import LaliRpc.Base.AsyncLogging

namespace LaliRpc.Base

set_option autoImplicit false

open Theory (Packed Run)

namespace AsyncLogging

/-- The bytes of all buffers collected. -/
def collectedBytes (s : AsyncLogging) : Bytes := s.collections.flatten.flatMap content

/-- The thread has tested the flag and has not collected yet. -/
def Collecting (s : AsyncLogging) : Prop := s.phase = .locking ∨ s.phase = .waiting

/-- When `stop()` is called in this state, nothing is left behind. -/
def InTime (s : AsyncLogging) : Prop :=
  s.Collecting ∨ (s.buffers ++ [s.currentBuffer]).flatMap content = []

/-- What was appended before `stop()` has been collected or still will be. -/
def Covered (s : AsyncLogging) : Prop :=
  ∀ ms, s.stopped = some ms → s.Collecting ∨ ms.flatten.length ≤ s.collectedBytes.length

/-- The file has the messages appended before `stop()`, and behind them at most some
of those appended later, each once and in order. -/
def Flushed (s : AsyncLogging) : Prop :=
  ∀ ms, s.stopped = some ms →
    ∃ later, s.fileBytes = (ms ++ later).flatten ∧ ms ++ later <+: s.appended

/-- What holds from the call of `stop()` on. -/
structure Stopping (s : AsyncLogging) : Prop where
  halted : s.stopped.isSome → s.running = false
  before : ∀ ms, s.stopped = some ms → ms <+: s.appended
  started : s.phase = .unstarted → s.stopped = none
  joined : s.joined → s.phase = .exited

theorem stopping_constructed : constructed.Stopping where
  halted := by simp [constructed]
  before := by simp [constructed]
  started := by simp [constructed]
  joined := by simp [constructed]

section Steps

variable {s s' : AsyncLogging} {e : Event}

/-- An append changes none of what `stop()` and the thread look at. -/
theorem append_frame (sound : s.Sound) {msg : Bytes} (short : msg.length < kLargerBuffer)
    (done : s.append msg = some s') :
    s'.running = s.running ∧ s'.stopped = s.stopped ∧ s'.phase = s.phase ∧
      s'.collections = s.collections ∧ s'.joined = s.joined ∧ s.appended <+: s'.appended := by
  rcases append_cases sound short done with ⟨-, -, -, -, rfl⟩ | ⟨-, -, rfl⟩
  · exact ⟨rfl, rfl, rfl, rfl, rfl, List.prefix_append _ _⟩
  · exact ⟨rfl, rfl, rfl, rfl, rfl, List.prefix_append _ _⟩

/-- What a step of the thread can do. -/
theorem advance_cases (done : s.advance = some s') :
    ((s.phase = .unstarted ∨ s.phase = .exited) ∧ s' = s) ∨
      (s.phase = .head ∧ s' = { s with phase := if s.running then .locking else .exited }) ∨
      (s.phase = .locking ∧ s' = { s with phase := .waiting }) ∨
      (s.Collecting ∧ s' = s.collect) ∨
      (s.phase = .collected ∧ s' = s.trim) ∨
      ∃ i, s.phase = .writing i ∧
        ((∃ b : Buffer, s' = { s with
          phase := .writing (i + 1), output := s.output ++ [.data b.data] }) ∨
        ∃ spare1 spare2, s' = { s with
          phase := .head, newBuffer1 := spare1, newBuffer2 := spare2, bufferToWrite := [] }) := by
  unfold advance at done
  cases phase : s.phase with
  | unstarted =>
      simp only [phase, Option.some.injEq] at done
      exact .inl ⟨.inl rfl, done.symm⟩
  | head =>
      simp only [phase, Option.some.injEq] at done
      exact .inr <| .inl ⟨rfl, done.symm⟩
  | locking =>
      simp only [phase, Option.some.injEq] at done
      split at done
      · exact .inr <| .inr <| .inl ⟨rfl, done.symm⟩
      · exact .inr <| .inr <| .inr <| .inl ⟨.inl phase, done.symm⟩
  | waiting =>
      simp only [phase, Option.some.injEq] at done
      exact .inr <| .inr <| .inr <| .inl ⟨.inr phase, done.symm⟩
  | collected =>
      simp only [phase, Option.some.injEq] at done
      exact .inr <| .inr <| .inr <| .inr <| .inl ⟨rfl, done.symm⟩
  | writing i =>
      refine .inr <| .inr <| .inr <| .inr <| .inr ⟨i, rfl, ?_⟩
      simp only [phase] at done
      split at done
      · obtain ⟨r1, -, again⟩ := Option.bind_eq_some_iff.mp done
        obtain ⟨r2, -, made⟩ := Option.map_eq_some_iff.mp again
        exact .inr ⟨r1.1, r2.1, made.symm⟩
      · cases done
      · rename_i b found
        exact .inl ⟨b, (Option.some.inj done).symm⟩
  | exited =>
      simp only [phase, Option.some.injEq] at done
      exact .inl ⟨.inr rfl, done.symm⟩

/-- What the thread's steps leave alone. -/
theorem advance_frame (done : s.advance = some s') :
    s'.running = s.running ∧ s'.stopped = s.stopped ∧ s'.joined = s.joined ∧
      s'.appended = s.appended ∧ (s'.phase = .unstarted → s.phase = .unstarted) ∧
      (s.phase = .exited → s'.phase = .exited) := by
  rcases advance_cases done with ⟨-, rfl⟩ | ⟨phase, rfl⟩ | ⟨phase, rfl⟩ |
    ⟨phase | phase, rfl⟩ | ⟨phase, rfl⟩ | ⟨i, phase, ⟨b, rfl⟩ | ⟨spare1, spare2, rfl⟩⟩
  · exact ⟨rfl, rfl, rfl, rfl, id, id⟩
  · cases running : s.running <;> simp [phase]
  · simp [phase]
  · simp [collect, phase]
  · simp [collect, phase]
  · unfold trim
    split <;> simp [phase]
  · simp [phase]
  · simp [phase]

theorem stopping_step (sound : s.Sound) (stopping : s.Stopping) (step : Step s e s') :
    s'.Stopping := by
  cases step with
  | start new =>
      have none := stopping.started new
      exact
        { halted := by simp [start, none]
          before := stopping.before
          started := by simp [start]
          joined := by
            intro finished
            have := stopping.joined finished
            simp [new] at this }
  | append msg short done =>
      obtain ⟨running, stopped, phase, -, joined, more⟩ := append_frame sound short done
      exact
        { halted := by
            rw [running, stopped]
            exact stopping.halted
          before := by
            intro ms called
            rw [stopped] at called
            exact (stopping.before ms called).trans more
          started := by
            rw [phase, stopped]
            exact stopping.started
          joined := by
            rw [phase, joined]
            exact stopping.joined }
  | advance done =>
      obtain ⟨running, stopped, joined, appended, unstarted, exited⟩ := advance_frame done
      exact
        { halted := by
            rw [running, stopped]
            exact stopping.halted
          before := by
            rw [stopped, appended]
            exact stopping.before
          started := by
            intro new
            rw [stopped]
            exact stopping.started (unstarted new)
          joined := by
            rw [joined]
            intro finished
            exact exited (stopping.joined finished) }
  | stop started first =>
      exact
        { halted := fun _ => rfl
          before := by
            intro ms called
            obtain rfl : s.appended = ms := Option.some.inj called
            exact List.prefix_refl _
          started := fun new => absurd new started
          joined := stopping.joined }
  | join called finished =>
      exact
        { halted := stopping.halted
          before := stopping.before
          started := stopping.started
          joined := fun _ => finished }

/-- At the call it is decided what will be covered. -/
theorem covered_stop (sound : s.Sound) : s.stop.Covered ↔ s.InTime := by
  have whole : s.appended.flatten =
      s.collectedBytes ++ (s.buffers ++ [s.currentBuffer]).flatMap content := by
    rw [sound.packed.flatten_eq, collectedBytes, ← List.flatMap_append, List.flatMap_def,
      List.append_assoc]
  have bytes : s.appended.flatten.length ≤ s.collectedBytes.length ↔
      (s.buffers ++ [s.currentBuffer]).flatMap content = [] := by
    rw [whole, List.length_append, ← List.length_eq_zero_iff]
    omega
  constructor
  · intro covered
    exact (covered s.appended rfl).imp id bytes.mp
  · intro inTime ms called
    obtain rfl : s.appended = ms := Option.some.inj called
    exact inTime.imp id bytes.mpr

/-- A collection behind `stop()` covers everything. -/
theorem covered_collect (sound : s.Sound) (stopping : s.Stopping) : s.collect.Covered := by
  intro ms called
  obtain ⟨later, more⟩ := stopping.before ms called
  refine .inr ?_
  have all : s.collect.collectedBytes = s.appended.flatten := by
    rw [sound.packed.flatten_eq, collectedBytes, List.flatMap_def, collect, List.flatten_append,
      List.flatten_singleton, List.append_assoc]
  rw [all, ← more, List.flatten_append, List.length_append]
  omega

theorem covered_of_not_stopped (running : s.stopped = none) : s.Covered := by
  intro ms called
  simp [running] at called

theorem covered_congr (stopped : s'.stopped = s.stopped) (collections : s'.collections = s.collections)
    (collecting : s'.Collecting ↔ s.Collecting) : s'.Covered ↔ s.Covered := by
  simp only [Covered, collectedBytes, stopped, collections, collecting]

/-- After `stop()` the thread does not get from the loop's test to another
collection; where it does collect, everything is covered before and after. -/
theorem covered_advance (sound : s.Sound) (stopping : s.Stopping) (done : s.advance = some s') :
    s'.Covered ↔ s.Covered := by
  cases called : s.stopped with
  | none =>
      have called' : s'.stopped = none := (advance_frame done).2.1.trans called
      exact iff_of_true (covered_of_not_stopped called') (covered_of_not_stopped called)
  | some ms =>
      have halted := stopping.halted (by simp [called])
      rcases advance_cases done with ⟨-, rfl⟩ | ⟨phase, rfl⟩ | ⟨phase, rfl⟩ |
        ⟨collecting, rfl⟩ | ⟨phase, rfl⟩ | ⟨i, phase, ⟨b, rfl⟩ | ⟨spare1, spare2, rfl⟩⟩
      · exact Iff.rfl
      · rw [halted]
        exact covered_congr rfl rfl (by simp [Collecting, phase])
      · exact covered_congr rfl rfl (by simp [Collecting, phase])
      · exact iff_of_true (covered_collect sound stopping) fun _ _ => .inl collecting
      · unfold trim
        split
        · exact covered_congr rfl rfl (by simp [Collecting, phase])
        · exact covered_congr rfl rfl (by simp [Collecting, phase])
      · exact covered_congr rfl rfl (by simp [Collecting, phase])
      · exact covered_congr rfl rfl (by simp [Collecting, phase])

/-- Only the call of `stop()` decides. -/
theorem covered_step (sound : s.Sound) (stopping : s.Stopping) (step : Step s e s') :
    s'.Covered ↔ s.Covered ∧ (e = .stop → s.InTime) := by
  cases step with
  | start new =>
      have none := stopping.started new
      have before : s.Covered := covered_of_not_stopped none
      exact iff_of_true (covered_of_not_stopped none) ⟨before, by simp⟩
  | append msg short done =>
      obtain ⟨-, stopped, phase, collections, -⟩ := append_frame sound short done
      rw [covered_congr stopped collections (by simp [Collecting, phase])]
      simp
  | advance done =>
      rw [covered_advance sound stopping done]
      simp
  | stop started first =>
      rw [covered_stop sound]
      simp [covered_of_not_stopped first]
  | join called finished =>
      rw [show Covered { s with joined := true } ↔ s.Covered from covered_congr rfl rfl Iff.rfl]
      simp

end Steps

/-! ## Runs -/

variable {s t : AsyncLogging} {trace : List (AsyncLogging × Event)}

/-- Once the thread has left its loop, the file has what was collected. -/
theorem flushed_iff_covered (sound : s.Sound) (stopping : s.Stopping) (finished : s.phase = .exited)
    (few : ∀ full ∈ s.collections, full.length ≤ 25) : s.Flushed ↔ s.Covered := by
  have file : s.fileBytes = s.collectedBytes := by
    simpa [unwritten, finished, collectedBytes] using bytes_eq sound few
  have passed : ¬ s.Collecting := by simp [Collecting, finished]
  constructor
  · intro flushed ms called
    obtain ⟨later, whole, -⟩ := flushed ms called
    refine .inr ?_
    rw [← file, whole, List.flatten_append, List.length_append]
    omega
  · intro covered ms called
    have enough := (covered ms called).resolve_left passed
    have before := stopping.before ms called
    have packed := sound.packed
    rw [List.append_assoc, List.map_append] at packed
    obtain ⟨early, isPrefix, share⟩ := packed.split
    have bytes : s.fileBytes = early.flatten := by
      rw [file, share.flatten_eq, collectedBytes, List.flatMap_def]
    rcases List.prefix_or_prefix_of_prefix before isPrefix with ⟨later, rfl⟩ | ⟨extra, rfl⟩
    · exact ⟨later, bytes, isPrefix⟩
    · have none : extra.flatten = [] := by
        rw [← file, bytes, List.flatten_append, List.length_append] at enough
        apply List.length_eq_zero_iff.mp
        omega
      refine ⟨[], ?_, by simpa using before⟩
      simp [bytes, none]

/-- **Stopping flushes everything exactly when `stop()` comes in time.** In every run
in which `stop()` has returned and no collection exceeded 25 buffers, the file has
all messages appended before the call, once and in order, if and only if the thread
was between its test of `running_` and a collection, or no message was left in
`buffers_` and `currentBuffer_`. -/
theorem flushed_iff (run : Run Step constructed trace t) (returned : t.joined)
    (few : ∀ full ∈ t.collections, full.length ≤ 25) :
    t.Flushed ↔ ∀ p ∈ trace, p.2 = .stop → p.1.InTime := by
  have always : ∀ s e s', (Sound s ∧ Stopping s) → Step s e s' → Sound s' ∧ Stopping s' :=
    fun s e s' inv step => ⟨sound_step inv.1 step, stopping_step inv.1 inv.2 step⟩
  have start : Sound constructed ∧ Stopping constructed :=
    ⟨sound_constructed, stopping_constructed⟩
  have start' : Covered constructed := covered_of_not_stopped rfl
  obtain ⟨sound, stopping⟩ := run.invariant_last always start
  rw [flushed_iff_covered sound stopping (stopping.joined returned) few]
  have exactly : Run.Throughout Covered trace t ↔ ∀ p ∈ trace, p.2 = .stop → p.1.InTime :=
    run.invariant_iff (C := fun s e => e = .stop → s.InTime) always
      (fun s e s' inv covered inTime step => (covered_step inv.1 inv.2 step).mpr ⟨covered, inTime⟩)
      (fun s e s' inv _ late step covered => late ((covered_step inv.1 inv.2 step).mp covered).2)
      start start'
  constructor
  · intro covered
    apply exactly.mp
    exact run.throughout_of_last always
      (fun s e s' inv lost step covered => lost ((covered_step inv.1 inv.2 step).mp covered).1)
      start covered
  · intro inTime
    exact (exactly.mpr inTime).2

/-- A message appended while the thread waits, and `stop()` before it wakes up. -/
theorem stopped_while_waiting : ∃ trace t, Run Step constructed trace t ∧ t.joined = true ∧
    t.stopped = some [ascii "down"] ∧ t.Flushed := by
  have run : ∃ trace t, Run Step constructed trace t ∧ t.joined = true ∧
      t.stopped = some [ascii "down"] ∧ (∀ full ∈ t.collections, full.length ≤ 25) ∧
      ∀ p ∈ trace, p.2 = .stop → p.1.InTime := by
    refine ⟨_, _, .cons (.start rfl) <| .cons (.advance rfl) <| .cons (.advance rfl) <|
      .cons (.append (ascii "down") (by decide) rfl) <| .cons (.stop (by decide) rfl) <|
      .cons (.advance rfl) <| .cons (.advance rfl) <| .cons (.advance rfl) <|
      .cons (.advance rfl) <| .cons (.advance rfl) <| .cons (.join rfl rfl) <| .nil _,
      rfl, rfl, ?_, ?_⟩
    · decide
    · simp only [List.forall_mem_cons, reduceCtorEq, false_implies, true_and]
      refine ⟨fun _ => .inl (.inr rfl), ?_⟩
      simp
  obtain ⟨trace, t, run, returned, stopped, few, inTime⟩ := run
  exact ⟨trace, t, run, returned, stopped, (flushed_iff run returned few).mpr inTime⟩

/-- `start()`, one message and `stop()` before the thread first tests `running_`. -/
theorem lost_at_loop_head : ∃ trace t, Run Step constructed trace t ∧ t.joined = true ∧
    t.stopped = some [ascii "last"] ∧ (∀ full ∈ t.collections, full.length ≤ 25) ∧
    ¬ t.Flushed := by
  refine ⟨_, _, .cons (.start rfl) <| .cons (.append (ascii "last") (by decide) rfl) <|
    .cons (.stop (by decide) rfl) <| .cons (.advance rfl) <| .cons (.join rfl rfl) <| .nil _,
    rfl, rfl, by decide, ?_⟩
  intro flushed
  obtain ⟨later, whole, -⟩ := flushed _ rfl
  have size := congrArg List.length whole
  simp [fileBytes, constructed, start, stop, ascii] at size

end AsyncLogging

end LaliRpc.Base
