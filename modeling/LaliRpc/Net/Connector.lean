/-
# Net.Connector — connecting, retrying, stopping

A `Connector` has no state variable of its own. `channel_` is there from `connect` until
a queued `resetChannel`; a failed attempt leaves a retry timer behind; the queue holds
`startInLoop`, `stopInLoop` and `resetChannel` functors; and calls of `start`, `stop` and
`restart` come in between. Neither `connecting`, which asserts that there is no channel,
nor `removeAndResetChannel`, which dereferences it, is guarded against any of this:

* they are reached in order exactly while nobody starts an attempt that finds another
  one, or its reset, and nobody stops where there is none (`one_attempt_iff`);
* `connect_` is never cleared, so that `stopInLoop` schedules a retry like any failed
  attempt, and the connector is stopped only until a timer runs out
  (`stays_stopped_iff`).
-/
import LaliRpc.Theory.History
import LaliRpc.Theory.Transition

namespace LaliRpc.Net

open LaliRpc.Theory

set_option autoImplicit false

/-- A functor in the queue of the loop. A `stopInLoop` comes with the number of `start`
and `restart` calls before its `stop`. -/
inductive Connector.Functor where
  | startInLoop
  | stopInLoop (starts : Nat)
  | resetChannel
  deriving DecidableEq, Repr

inductive Connector.Event where
  /-- `start` or `restart` is called. -/
  | started
  /-- `stopInLoop` has run, with no `start` or `restart` since its `stop`. -/
  | stopped
  /-- `connect` creates a socket. -/
  | socket
  | close
  /-- `retry` schedules `startInLoop`. -/
  | runAfter (delay : Nat)
  | newConnectionCallback
  deriving DecidableEq, Repr

/-- A channel is registered until it is removed from the poller. -/
structure Connector where
  connect : Bool
  channel : Option Bool
  /-- channels that were destroyed while registered -/
  dangling : Nat
  retryDelatMs : Nat
  pendingFunctors : List Connector.Functor
  /-- the delays of the retry timers that have not run out -/
  timers : List Nat
  /-- calls of `start` on other threads that have set `connect_` and queue next -/
  starting : Nat
  starts : Nat
  /-- The assertion or a dereference has failed. -/
  failed : Bool
  log : List Connector.Event

namespace Connector

def KInitRetryDelayMs : Nat := 500

def kMaxRetryDelayMs : Nat := 30 * 1000

def fresh : Connector where
  connect := false
  channel := none
  dangling := 0
  retryDelatMs := KInitRetryDelayMs
  pendingFunctors := []
  timers := []
  starting := 0
  starts := 0
  failed := false
  log := []

def record (s : Connector) (e : Event) : Connector := { s with log := s.log ++ [e] }

def queueInLoop (s : Connector) (cb : Functor) : Connector :=
  { s with pendingFunctors := s.pendingFunctors ++ [cb] }

def connecting (s : Connector) : Connector :=
  if s.channel.isSome then { s with failed := true } else { s with channel := some true }

/-- The result of `::connect` is not looked at. -/
def connectSocket (s : Connector) : Connector := (s.record .socket).connecting

def startInLoop (s : Connector) : Connector := if s.connect then s.connectSocket else s

/-- A channel that is removed already is removed again. -/
def removeAndResetChannel (s : Connector) : Connector :=
  if s.channel.isSome then { s with channel := some false }.queueInLoop .resetChannel
  else { s with failed := true }

def retry (s : Connector) : Connector :=
  let s := s.record .close
  if s.connect then
    { s.record (.runAfter s.retryDelatMs) with
      timers := s.timers ++ [s.retryDelatMs]
      retryDelatMs := min (s.retryDelatMs * 2) kMaxRetryDelayMs }
  else s

def stopInLoop (s : Connector) (starts : Nat) : Connector :=
  let s := s.removeAndResetChannel
  if s.failed then s
  else
    let s := s.retry
    if starts = s.starts then s.record .stopped else s

def resetChannel (s : Connector) : Connector :=
  { s with
    channel := none
    dangling := if s.channel = some true then s.dangling + 1 else s.dangling }

/-- `err` is the error of the socket. -/
def handleWrite (s : Connector) (err : Int) : Connector :=
  let s := s.removeAndResetChannel
  if s.failed then s
  else if err ≠ 0 then s.retry
  else if s.connect then s.record .newConnectionCallback
  else s.record .close

/-- `start` up to its `runInLoop`. -/
def start (s : Connector) : Connector :=
  { s.record .started with connect := true, starts := s.starts + 1 }

def restart (s : Connector) : Connector :=
  { s.start with retryDelatMs := KInitRetryDelayMs }.startInLoop

def runFunctor (s : Connector) : Functor → Connector
  | .startInLoop => s.startInLoop
  | .stopInLoop starts => s.stopInLoop starts
  | .resetChannel => s.resetChannel

inductive Action where
  /-- `start` on the loop's thread. -/
  | start
  /-- `start` on another thread, which then queues the functor. -/
  | startElsewhere
  | queueStart
  | stop
  | restart
  | timer (delay : Nat)
  /-- A channel of the connector's becomes writable. -/
  | writable (err : Int)
  | runFunctor
  deriving DecidableEq, Repr

/-- What can happen next, as long as nothing has failed. -/
inductive Step : Connector → Action → Connector → Prop where
  | start {s : Connector} (fine : s.failed = false) : Step s .start s.start.startInLoop
  | startElsewhere {s : Connector} (fine : s.failed = false) :
      Step s .startElsewhere { s.start with starting := s.starting + 1 }
  | queueStart {s : Connector} {n : Nat} (fine : s.failed = false) (some : s.starting = n + 1) :
      Step s .queueStart ({ s with starting := n }.queueInLoop .startInLoop)
  | stop {s : Connector} (fine : s.failed = false) :
      Step s .stop (s.queueInLoop (.stopInLoop s.starts))
  | restart {s : Connector} (fine : s.failed = false) : Step s .restart s.restart
  | timer {s : Connector} {delay : Nat} (fine : s.failed = false) (due : delay ∈ s.timers) :
      Step s (.timer delay) { s with timers := s.timers.erase delay }.startInLoop
  | writable {s : Connector} {err : Int} (fine : s.failed = false)
      (registered : s.channel = some true ∨ 0 < s.dangling) :
      Step s (.writable err) (s.handleWrite err)
  | runFunctor {s : Connector} {f : Functor} {fs : List Functor} (fine : s.failed = false)
      (first : s.pendingFunctors = f :: fs) :
      Step s .runFunctor ({ s with pendingFunctors := fs }.runFunctor f)

/-! ## One attempt at a time -/

/-- No attempt is under way, and no reset of an earlier one is still to come. -/
def AtRest (s : Connector) : Prop := s.channel = none ∧ .resetChannel ∉ s.pendingFunctors

instance (s : Connector) : Decidable s.AtRest := inferInstanceAs (Decidable (_ ∧ _))

/-- An attempt is only started at rest, and stopping finds a channel. -/
def FunctorInTurn (s : Connector) : Functor → Prop
  | .startInLoop => s.connect = true → s.AtRest
  | .stopInLoop _ => s.channel ≠ none
  | .resetChannel => True

instance (s : Connector) : DecidablePred s.FunctorInTurn := fun f => by
  cases f <;> unfold FunctorInTurn <;> infer_instance

def InTurn (s : Connector) : Action → Prop
  | .start | .restart => s.AtRest
  | .timer _ => s.FunctorInTurn .startInLoop
  | .runFunctor => ∀ f ∈ s.pendingFunctors.head?, s.FunctorInTurn f
  | _ => True

instance (s : Connector) : DecidablePred s.InTurn := fun a => by
  cases a <;> unfold InTurn <;> infer_instance

/-- Neither the assertion of `connecting` nor a dereference in `removeAndResetChannel` has
failed, and none is bound to: no channel is destroyed while it is registered, or will be. -/
structure Sound (s : Connector) : Prop where
  fine : s.failed = false
  owned : s.dangling = 0
  reset : .resetChannel ∈ s.pendingFunctors → s.channel ≠ some true

variable {s s' : Connector} {a : Action}

theorem sound_fresh : fresh.Sound := ⟨rfl, rfl, fun mem => absurd mem List.not_mem_nil⟩

/-- `connect` at rest begins an attempt. -/
theorem connectSocket_of_none (none : s.channel = none) :
    s.connectSocket = { s.record .socket with channel := some true } := by
  have empty : (s.record .socket).channel.isSome = false := by simp [record, none]
  rw [connectSocket, connecting, if_neg (by simp [empty])]

theorem connectSocket_of_some (some : s.channel ≠ none) :
    s.connectSocket = { s.record .socket with failed := true } := by
  have there : (s.record .socket).channel.isSome = true := by
    simpa [record, Option.isSome_iff_ne_none] using some
  rw [connectSocket, connecting, if_pos there]

theorem Sound.connectSocket (sound : s.Sound) (rest : s.AtRest) : s.connectSocket.Sound := by
  rw [connectSocket_of_none rest.1]
  exact ⟨sound.fine, sound.owned, fun mem => absurd mem rest.2⟩

/-- An attempt that is started out of turn fails, or will be reset while it is under way. -/
theorem not_sound_connectSocket (busy : ¬ s.AtRest) : ¬ s.connectSocket.Sound := by
  intro sound
  by_cases none : s.channel = none
  · rw [connectSocket_of_none none] at sound
    apply sound.reset
    · by_contra absent
      exact busy ⟨none, absent⟩
    · rfl
  · rw [connectSocket_of_some none] at sound
    cases sound.fine

theorem Sound.startInLoop (sound : s.Sound) (rest : s.FunctorInTurn .startInLoop) :
    s.startInLoop.Sound := by
  unfold Connector.startInLoop
  split
  · rename_i connect
    exact sound.connectSocket (rest connect)
  · exact sound

theorem not_sound_startInLoop (busy : ¬ s.FunctorInTurn .startInLoop) : ¬ s.startInLoop.Sound := by
  have found : s.connect = true ∧ ¬ s.AtRest := by
    simpa [FunctorInTurn] using busy
  unfold Connector.startInLoop
  rw [if_pos found.1]
  exact not_sound_connectSocket found.2

theorem removeAndResetChannel_of_some (there : s.channel ≠ none) :
    s.removeAndResetChannel =
      { s with channel := some false, pendingFunctors := s.pendingFunctors ++ [.resetChannel] } := by
  rw [removeAndResetChannel, if_pos (Option.isSome_iff_ne_none.mpr there)]
  rfl

theorem removeAndResetChannel_of_none (none : s.channel = none) :
    s.removeAndResetChannel = { s with failed := true } := by
  rw [removeAndResetChannel, if_neg (by simp [none])]

theorem stopInLoop_of_none (none : s.channel = none) (starts : Nat) :
    s.stopInLoop starts = { s with failed := true } := by
  simp [stopInLoop, removeAndResetChannel_of_none none]

theorem handleWrite_of_none (none : s.channel = none) (err : Int) :
    s.handleWrite err = { s with failed := true } := by
  simp [handleWrite, removeAndResetChannel_of_none none]

theorem failed_removeAndResetChannel (fine : s.failed = false) (there : s.channel ≠ none) :
    ¬ s.removeAndResetChannel.failed = true := by
  simp [removeAndResetChannel_of_some there, fine]

theorem Sound.removeAndResetChannel (sound : s.Sound) (some : s.channel ≠ none) :
    s.removeAndResetChannel.Sound := by
  rw [removeAndResetChannel_of_some some]
  exact ⟨sound.fine, sound.owned, fun _ => by simp⟩

/-- Only the log, the timers and the delay change. -/
theorem Sound.retry (sound : s.Sound) : s.retry.Sound := by
  simp only [Connector.retry]
  split
  · exact ⟨sound.fine, sound.owned, sound.reset⟩
  · exact ⟨sound.fine, sound.owned, sound.reset⟩

theorem Sound.record (sound : s.Sound) (e : Event) : (s.record e).Sound :=
  ⟨sound.fine, sound.owned, sound.reset⟩

theorem Sound.stopInLoop (sound : s.Sound) (some : s.channel ≠ none) (starts : Nat) :
    (s.stopInLoop starts).Sound := by
  have removed := sound.removeAndResetChannel some
  simp only [Connector.stopInLoop, if_neg (failed_removeAndResetChannel sound.fine some)]
  split
  · exact removed.retry.record .stopped
  · exact removed.retry

theorem Sound.handleWrite (sound : s.Sound) (some : s.channel ≠ none) (err : Int) :
    (s.handleWrite err).Sound := by
  have removed := sound.removeAndResetChannel some
  simp only [Connector.handleWrite, if_neg (failed_removeAndResetChannel sound.fine some)]
  split
  · exact removed.retry
  · split
    · exact removed.record .newConnectionCallback
    · exact removed.record .close

theorem sound_kept (sound : s.Sound) (inTurn : s.InTurn a) (step : Step s a s') : s'.Sound := by
  have started : s.start.Sound := ⟨sound.fine, sound.owned, sound.reset⟩
  cases step with
  | start fine => exact started.startInLoop fun _ => inTurn
  | startElsewhere fine => exact ⟨started.fine, started.owned, started.reset⟩
  | queueStart fine some =>
      refine ⟨sound.fine, sound.owned, fun mem => sound.reset ?_⟩
      simpa [queueInLoop] using mem
  | stop fine =>
      refine ⟨sound.fine, sound.owned, fun mem => sound.reset ?_⟩
      simpa [queueInLoop] using mem
  | restart fine =>
      have started' : Sound { s.start with retryDelatMs := KInitRetryDelayMs } :=
        ⟨started.fine, started.owned, started.reset⟩
      exact started'.startInLoop fun _ => inTurn
  | @timer delay fine due =>
      have rest : Sound { s with timers := s.timers.erase delay } :=
        ⟨sound.fine, sound.owned, sound.reset⟩
      exact rest.startInLoop inTurn
  | writable fine registered =>
      refine sound.handleWrite ?_ _
      intro none
      rw [none, sound.owned] at registered
      simp at registered
  | @runFunctor f fs fine first =>
      have turn : s.FunctorInTurn f := inTurn f (by simp [first])
      have taken : Sound { s with pendingFunctors := fs } := by
        refine ⟨sound.fine, sound.owned, fun mem => sound.reset ?_⟩
        rw [first]
        exact List.mem_cons_of_mem _ mem
      cases f with
      | startInLoop =>
          refine taken.startInLoop fun connect => ⟨(turn connect).1, fun mem => ?_⟩
          apply (turn connect).2
          rw [first]
          exact List.mem_cons_of_mem _ mem
      | stopInLoop starts => exact taken.stopInLoop turn starts
      | resetChannel =>
          have removed : s.channel ≠ some true := sound.reset (by simp [first])
          refine ⟨sound.fine, ?_, nofun⟩
          show (if s.channel = some true then s.dangling + 1 else s.dangling) = 0
          rw [if_neg removed]
          exact sound.owned

theorem sound_broken (out : ¬ s.InTurn a) (step : Step s a s') : ¬ s'.Sound := by
  cases step with
  | start fine =>
      refine not_sound_startInLoop fun rest => out ?_
      exact rest rfl
  | restart fine =>
      refine not_sound_startInLoop fun rest => out ?_
      exact rest rfl
  | timer fine due => exact not_sound_startInLoop out
  | @runFunctor f fs fine first =>
      have turn : ¬ s.FunctorInTurn f := by simpa [InTurn, first] using out
      cases f with
      | startInLoop =>
          refine not_sound_startInLoop fun rest => turn fun connect => ⟨(rest connect).1, ?_⟩
          rw [first]
          simpa using (rest connect).2
      | stopInLoop starts =>
          have none : s.channel = none := by simpa [FunctorInTurn] using turn
          intro sound
          have failed := sound.fine
          rw [Connector.runFunctor,
            stopInLoop_of_none (s := { s with pendingFunctors := fs }) none] at failed
          cases failed
      | resetChannel => exact absurd trivial turn
  | _ => exact absurd trivial out

/-- **There is one attempt at a time exactly if attempts are started at rest and stopped
while there is one**: over every run, whatever the order of calls, timers, events and
functors. While that lasts no assertion and no dereference fails. -/
theorem one_attempt_iff {trace : List (Connector × Action)} {last : Connector}
    (run : Run Step fresh trace last) :
    (Run.Throughout Sound trace last ↔ ∀ p ∈ trace, p.1.InTurn p.2) ∧
      ((∀ p ∈ trace, p.1.InTurn p.2) → Run.Throughout (fun s => s.failed = false) trace last) := by
  have exact' : Run.Throughout Sound trace last ↔ ∀ p ∈ trace, p.1.InTurn p.2 :=
    run.invariant_iff (I := Sound) (J := fun _ => True) (C := InTurn) (fun _ _ _ _ _ => trivial)
      (fun _ _ _ _ sound inTurn step => sound_kept sound inTurn step)
      (fun _ _ _ _ _ out step => sound_broken out step) trivial sound_fresh
  refine ⟨exact', fun inTurn => ?_⟩
  apply (exact'.mpr inTurn).imp
  intro s sound
  exact sound.fine

/-- An attempt fails and is retried, and the second one is stopped. -/
theorem retried_and_stopped : ∃ trace last, Run Step fresh trace last ∧
    last.log = [.started, .socket, .close, .runAfter 500, .socket, .close, .runAfter 1000,
      .stopped] ∧
    Run.Throughout (fun s => s.failed = false) trace last := by
  have run : ∃ trace last, Run Step fresh trace last ∧ (∀ p ∈ trace, p.1.InTurn p.2) ∧
      last.log = [.started, .socket, .close, .runAfter 500, .socket, .close, .runAfter 1000,
        .stopped] := by
    refine ⟨_, _, .cons (.start rfl) <|
      .cons (@Step.writable _ 1 rfl (.inl rfl)) <|
      .cons (.runFunctor rfl rfl) <|
      .cons (@Step.timer _ 500 rfl (by decide)) <|
      .cons (.stop rfl) <|
      .cons (.runFunctor rfl rfl) <|
      .cons (.runFunctor rfl rfl) <| .nil _, ?_, ?_⟩
    · decide
    · decide
  obtain ⟨trace, last, run, inTurn, log⟩ := run
  exact ⟨trace, last, run, log, (one_attempt_iff run).2 inTurn⟩

/-- `start` is called twice. -/
theorem started_twice : ∃ trace last, Run Step fresh trace last ∧ last.failed = true :=
  ⟨_, _, .cons (.start rfl) <| .cons (.start rfl) <| .nil _, rfl⟩

/-! ## Being stopped -/

/-- The connector is stopped: a `stopInLoop` has run, with no `start` or `restart` since. -/
def stopped (log : List Event) : Bool :=
  log.foldl (fun was e => match e with
    | .started => false
    | .stopped => true
    | _ => was) false

/-- The connector creates a socket, schedules a retry or hands a connection over. -/
def Event.Connects : Event → Prop
  | .socket | .runAfter _ | .newConnectionCallback => True
  | _ => False

/-- A connector that is stopped does nothing of the kind. -/
def StaysStopped : List Event → Prop := AtEach fun early e => stopped early = true → ¬ e.Connects

/-- The step has a stopped connector start over: a timer runs out, an event of the socket
or a functor finds it at work. -/
def Revives (s : Connector) (a : Action) : Prop :=
  stopped s.log = true ∧
    match a with
    | .timer _ => True
    | .writable _ => s.channel ≠ none
    | .runFunctor => ∃ f ∈ s.pendingFunctors.head?,
        f = .startInLoop ∨ (f ≠ .resetChannel ∧ s.channel ≠ none)
    | _ => False

/-- `connect_` has been set where there is a channel, and where something was stopped. -/
structure Connecting (s : Connector) : Prop where
  channel : s.channel ≠ none → s.connect = true
  stopped : stopped s.log = true → s.connect = true

section Log

variable {log : List Event} {e : Event}

@[simp] theorem stopped_concat (log : List Event) (e : Event) :
    stopped (log ++ [e]) = match e with
      | .started => false
      | .stopped => true
      | _ => stopped log := by
  simp [stopped]

/-- One more event matters if the connector is stopped. -/
theorem staysStopped_concat : StaysStopped (log ++ [e]) ↔
    StaysStopped log ∧ (stopped log = true → ¬ e.Connects) := atEach_concat

end Log

@[simp] theorem log_connectSocket : s.connectSocket.log = s.log ++ [.socket] := by
  by_cases none : s.channel = none
  · simp [connectSocket_of_none none, record]
  · simp [connectSocket_of_some none, record]

@[simp] theorem connect_connectSocket : s.connectSocket.connect = s.connect := by
  by_cases none : s.channel = none
  · simp [connectSocket_of_none none, record]
  · simp [connectSocket_of_some none, record]

@[simp] theorem log_removeAndResetChannel : s.removeAndResetChannel.log = s.log := by
  by_cases none : s.channel = none
  · simp [removeAndResetChannel_of_none none]
  · simp [removeAndResetChannel_of_some none]

@[simp] theorem connect_removeAndResetChannel : s.removeAndResetChannel.connect = s.connect := by
  by_cases none : s.channel = none
  · simp [removeAndResetChannel_of_none none]
  · simp [removeAndResetChannel_of_some none]

/-- `retry` closes the socket, and schedules another attempt if `connect_` is set. -/
theorem log_retry : s.retry.log =
    if s.connect = true then s.log ++ [.close] ++ [.runAfter s.retryDelatMs]
    else s.log ++ [.close] := by
  by_cases connect : s.connect = true <;> simp [retry, record, connect]

@[simp] theorem stopped_retry : stopped s.retry.log = stopped s.log := by
  rw [log_retry]
  split
  · rw [stopped_concat, stopped_concat]
  · rw [stopped_concat]

@[simp] theorem connect_retry : s.retry.connect = s.connect := by
  by_cases connect : s.connect = true <;> simp [retry, record, connect]

theorem connecting_fresh : fresh.Connecting := ⟨nofun, nofun⟩

/-- Whatever sets `connect_` first may go on. -/
theorem connecting_of_connect (connect : s.connect = true) : s.Connecting :=
  ⟨fun _ => connect, fun _ => connect⟩

theorem Connecting.startInLoop (connecting : s.Connecting) : s.startInLoop.Connecting := by
  unfold Connector.startInLoop
  split
  · rename_i connect
    exact connecting_of_connect (by simpa using connect)
  · exact connecting

theorem Connecting.stopInLoop (connecting : s.Connecting) (starts : Nat) :
    (s.stopInLoop starts).Connecting := by
  by_cases none : s.channel = none
  · rw [stopInLoop_of_none none]
    exact ⟨connecting.channel, connecting.stopped⟩
  · apply connecting_of_connect
    have connect := connecting.channel none
    simp only [Connector.stopInLoop]
    split
    · simpa using connect
    · split <;> simpa [record] using connect

theorem Connecting.handleWrite (connecting : s.Connecting) (err : Int) :
    (s.handleWrite err).Connecting := by
  by_cases none : s.channel = none
  · rw [handleWrite_of_none none]
    exact ⟨connecting.channel, connecting.stopped⟩
  · apply connecting_of_connect
    have connect := connecting.channel none
    simp only [Connector.handleWrite]
    split
    · simpa using connect
    · split
      · simpa using connect
      · split <;> simpa [record] using connect

theorem connecting_step (connecting : s.Connecting) (step : Step s a s') : s'.Connecting := by
  cases step with
  | start fine => exact (connecting_of_connect rfl).startInLoop
  | startElsewhere fine => exact connecting_of_connect rfl
  | restart fine =>
      have started : Connecting { s.start with retryDelatMs := KInitRetryDelayMs } :=
        connecting_of_connect rfl
      exact started.startInLoop
  | @timer delay fine due =>
      have rest : Connecting { s with timers := s.timers.erase delay } :=
        ⟨connecting.channel, connecting.stopped⟩
      exact rest.startInLoop
  | writable fine registered => exact connecting.handleWrite _
  | @runFunctor f fs fine first =>
      have taken : Connecting { s with pendingFunctors := fs } :=
        ⟨connecting.channel, connecting.stopped⟩
      cases f with
      | startInLoop => exact taken.startInLoop
      | stopInLoop starts => exact taken.stopInLoop starts
      | resetChannel => exact ⟨nofun, connecting.stopped⟩
  | _ => exact ⟨connecting.channel, connecting.stopped⟩

/-! ### What is logged -/

/-- There is a channel to remove only while the connector is going. -/
theorem going_removeAndResetChannel (idle : stopped s.log = true → s.channel = none)
    (there : s.channel ≠ none) : stopped s.removeAndResetChannel.log ≠ true := by
  rw [log_removeAndResetChannel]
  exact fun ceased => there (idle ceased)

theorem staysStopped_startInLoop (stays : StaysStopped s.log) (going : stopped s.log ≠ true) :
    StaysStopped s.startInLoop.log := by
  unfold startInLoop
  split
  · rw [log_connectSocket, staysStopped_concat]
    exact ⟨stays, fun ceased => absurd ceased going⟩
  · exact stays

theorem not_staysStopped_startInLoop (ceased : stopped s.log = true) (connect : s.connect = true) :
    ¬ StaysStopped s.startInLoop.log := by
  unfold startInLoop
  rw [if_pos connect, log_connectSocket, staysStopped_concat]
  rintro ⟨-, last⟩
  exact last ceased trivial

theorem staysStopped_retry (stays : StaysStopped s.log) (going : stopped s.log ≠ true) :
    StaysStopped s.retry.log := by
  rw [log_retry]
  split
  · rw [staysStopped_concat, staysStopped_concat, stopped_concat]
    exact ⟨⟨stays, fun ceased => absurd ceased going⟩, fun ceased => absurd ceased going⟩
  · rw [staysStopped_concat]
    exact ⟨stays, fun ceased => absurd ceased going⟩

theorem not_staysStopped_retry (ceased : stopped s.log = true) (connect : s.connect = true) :
    ¬ StaysStopped s.retry.log := by
  rw [log_retry, if_pos connect, staysStopped_concat, stopped_concat]
  rintro ⟨-, last⟩
  exact last ceased trivial

theorem staysStopped_stopInLoop (fine : s.failed = false) (stays : StaysStopped s.log)
    (idle : stopped s.log = true → s.channel = none) (starts : Nat) :
    StaysStopped (s.stopInLoop starts).log := by
  by_cases none : s.channel = none
  · rw [stopInLoop_of_none none]
    exact stays
  · have going := going_removeAndResetChannel idle none
    have retried : StaysStopped s.removeAndResetChannel.retry.log :=
      staysStopped_retry (by rwa [log_removeAndResetChannel]) going
    simp only [stopInLoop, if_neg (failed_removeAndResetChannel fine none)]
    split
    · exact staysStopped_concat.mpr ⟨retried, fun _ => id⟩
    · exact retried

/-- Stopping again schedules another retry. -/
theorem not_staysStopped_stopInLoop (fine : s.failed = false) (ceased : stopped s.log = true)
    (connect : s.connect = true) (there : s.channel ≠ none) (starts : Nat) :
    ¬ StaysStopped (s.stopInLoop starts).log := by
  have revived : ¬ StaysStopped s.removeAndResetChannel.retry.log := by
    apply not_staysStopped_retry
    · rwa [log_removeAndResetChannel]
    · rwa [connect_removeAndResetChannel]
  simp only [stopInLoop, if_neg (failed_removeAndResetChannel fine there)]
  split
  · intro stays
    exact revived (staysStopped_concat.mp stays).1
  · exact revived

theorem staysStopped_handleWrite (fine : s.failed = false) (stays : StaysStopped s.log)
    (idle : stopped s.log = true → s.channel = none) (err : Int) :
    StaysStopped (s.handleWrite err).log := by
  by_cases none : s.channel = none
  · rw [handleWrite_of_none none]
    exact stays
  · have going := going_removeAndResetChannel idle none
    have before : StaysStopped s.removeAndResetChannel.log := by rwa [log_removeAndResetChannel]
    simp only [handleWrite, if_neg (failed_removeAndResetChannel fine none)]
    split
    · exact staysStopped_retry before going
    · split
      · exact staysStopped_concat.mpr ⟨before, fun ceased => absurd ceased going⟩
      · exact staysStopped_concat.mpr ⟨before, fun ceased => absurd ceased going⟩

theorem not_staysStopped_handleWrite (fine : s.failed = false) (ceased : stopped s.log = true)
    (connect : s.connect = true) (there : s.channel ≠ none) (err : Int) :
    ¬ StaysStopped (s.handleWrite err).log := by
  have ceased' : stopped s.removeAndResetChannel.log = true := by rwa [log_removeAndResetChannel]
  have connect' : s.removeAndResetChannel.connect = true := by
    rwa [connect_removeAndResetChannel]
  simp only [handleWrite, if_neg (failed_removeAndResetChannel fine there)]
  split
  · exact not_staysStopped_retry ceased' connect'
  · intro stays
    exact (staysStopped_concat.mp stays).2 ceased' trivial

theorem staysStopped_kept (stays : StaysStopped s.log) (stop : ¬ s.Revives a)
    (step : Step s a s') : StaysStopped s'.log := by
  have started : StaysStopped s.start.log := staysStopped_concat.mpr ⟨stays, fun _ => id⟩
  have going : stopped s.start.log ≠ true := by simp [start, record]
  cases step with
  | start fine => exact staysStopped_startInLoop started going
  | startElsewhere fine => exact started
  | restart fine =>
      exact staysStopped_startInLoop (s := { s.start with retryDelatMs := KInitRetryDelayMs })
        started going
  | @timer delay fine due =>
      apply staysStopped_startInLoop (s := { s with timers := s.timers.erase delay }) stays
      intro ceased
      exact stop ⟨ceased, trivial⟩
  | writable fine registered =>
      apply staysStopped_handleWrite fine stays
      intro ceased
      by_contra there
      exact stop ⟨ceased, there⟩
  | @runFunctor f fs fine first =>
      have head : f ∈ s.pendingFunctors.head? := by simp [first]
      cases f with
      | startInLoop =>
          apply staysStopped_startInLoop (s := { s with pendingFunctors := fs }) stays
          intro ceased
          exact stop ⟨ceased, _, head, .inl rfl⟩
      | stopInLoop starts =>
          apply staysStopped_stopInLoop (s := { s with pendingFunctors := fs }) fine stays
          intro ceased
          by_contra there
          exact stop ⟨ceased, _, head, .inr ⟨nofun, there⟩⟩
      | resetChannel => exact stays
  | _ => exact stays

theorem staysStopped_broken (connecting : s.Connecting) (revives : s.Revives a)
    (step : Step s a s') : ¬ StaysStopped s'.log := by
  obtain ⟨ceased, how⟩ := revives
  have connect := connecting.stopped ceased
  cases step with
  | @timer delay fine due =>
      exact not_staysStopped_startInLoop (s := { s with timers := s.timers.erase delay }) ceased connect
  | writable fine registered => exact not_staysStopped_handleWrite fine ceased connect how _
  | @runFunctor f fs fine first =>
      obtain ⟨g, head, which⟩ := how
      have same : f = g := by simpa [first] using head
      subst same
      cases f with
      | startInLoop =>
          exact not_staysStopped_startInLoop (s := { s with pendingFunctors := fs }) ceased connect
      | stopInLoop starts =>
          have there : s.channel ≠ none := (which.resolve_left nofun).2
          exact not_staysStopped_stopInLoop (s := { s with pendingFunctors := fs }) fine ceased
            connect there starts
      | resetChannel => simp at which
  | _ => cases how

/-- **A stopped connector stays stopped exactly until a retry timer runs out**, or an event
or a functor that was on its way finds it: over every run. -/
theorem stays_stopped_iff {trace : List (Connector × Action)} {last : Connector}
    (run : Run Step fresh trace last) :
    Run.Throughout (fun s => StaysStopped s.log) trace last ↔
      ∀ p ∈ trace, ¬ p.1.Revives p.2 :=
  run.invariant_iff (I := fun s : Connector => StaysStopped s.log) (J := Connecting)
    (C := fun s a => ¬ s.Revives a)
    (fun _ _ _ connecting step => connecting_step connecting step)
    (fun _ _ _ _ stays stop step => staysStopped_kept stays stop step)
    (fun _ _ _ connecting _ revives step =>
      staysStopped_broken connecting (not_not.mp revives) step)
    connecting_fresh atEach_nil

/-! ### The retry that is pending -/

/-- A retry timer is running wherever the connector is stopped. -/
def RetryPending (s : Connector) : Prop := stopped s.log = true → s.timers ≠ []

theorem retryPending_startInLoop (going : stopped s.log ≠ true) : s.startInLoop.RetryPending := by
  intro ceased
  unfold startInLoop at ceased
  split at ceased
  · simp [going] at ceased
  · exact absurd ceased going

theorem timers_retry (connect : s.connect = true) : s.retry.timers = s.timers ++ [s.retryDelatMs] := by
  simp [retry, record, connect]

theorem retryPending_stopInLoop (connecting : s.Connecting) (fine : s.failed = false)
    (pending : s.RetryPending) (starts : Nat) : (s.stopInLoop starts).RetryPending := by
  by_cases none : s.channel = none
  · rw [stopInLoop_of_none none]
    exact pending
  · have connect : s.removeAndResetChannel.connect = true := by
      rw [connect_removeAndResetChannel]
      exact connecting.channel none
    have scheduled : s.removeAndResetChannel.retry.timers ≠ [] := by
      rw [timers_retry connect]
      exact List.append_ne_nil_of_right_ne_nil _ (List.cons_ne_nil _ _)
    intro _
    simp only [stopInLoop, if_neg (failed_removeAndResetChannel fine none)]
    split
    · exact scheduled
    · exact scheduled

theorem retryPending_handleWrite (fine : s.failed = false) (pending : s.RetryPending)
    (idle : stopped s.log = true → s.channel = none) (err : Int) :
    (s.handleWrite err).RetryPending := by
  by_cases none : s.channel = none
  · rw [handleWrite_of_none none]
    exact pending
  · have going := going_removeAndResetChannel idle none
    intro ceased
    simp only [handleWrite, if_neg (failed_removeAndResetChannel fine none)] at ceased
    split at ceased
    · rw [stopped_retry] at ceased
      exact absurd ceased going
    · split at ceased
      · exact absurd ((stopped_concat _ _).symm.trans ceased) going
      · exact absurd ((stopped_concat _ _).symm.trans ceased) going

theorem retryPending_step (connecting : s.Connecting) (pending : s.RetryPending)
    (stop : ¬ s.Revives a) (step : Step s a s') : s'.RetryPending := by
  have started : stopped s.start.log ≠ true := by simp [start, record]
  cases step with
  | start fine => exact retryPending_startInLoop started
  | startElsewhere fine => exact fun ceased => absurd ceased started
  | restart fine =>
      exact retryPending_startInLoop (s := { s.start with retryDelatMs := KInitRetryDelayMs }) started
  | @timer delay fine due =>
      apply retryPending_startInLoop (s := { s with timers := s.timers.erase delay })
      intro ceased
      exact stop ⟨ceased, trivial⟩
  | writable fine registered =>
      apply retryPending_handleWrite fine pending
      intro ceased
      by_contra there
      exact stop ⟨ceased, there⟩
  | @runFunctor f fs fine first =>
      have head : f ∈ s.pendingFunctors.head? := by simp [first]
      cases f with
      | startInLoop =>
          apply retryPending_startInLoop (s := { s with pendingFunctors := fs })
          intro ceased
          exact stop ⟨ceased, _, head, .inl rfl⟩
      | stopInLoop starts =>
          have taken : Connecting { s with pendingFunctors := fs } :=
            ⟨connecting.channel, connecting.stopped⟩
          exact retryPending_stopInLoop taken fine pending starts
      | resetChannel => exact pending
  | _ => exact pending

/-- **A connector that has stayed stopped will not**: the timer that makes it start over is
running. -/
theorem retry_pending {trace : List (Connector × Action)} (run : Run Step fresh trace s)
    (only : ∀ p ∈ trace, ¬ p.1.Revives p.2) (ceased : stopped s.log = true)
    (fine : s.failed = false) :
    ∃ delay s', Step s (.timer delay) s' ∧ ¬ StaysStopped s'.log := by
  have inv := run.invariant_while (I := fun s => s.Connecting ∧ s.RetryPending)
    (C := fun s a => ¬ s.Revives a)
    (fun _ _ _ inv stop step =>
      ⟨connecting_step inv.1 step, retryPending_step inv.1 inv.2 stop step⟩)
    ⟨connecting_fresh, nofun⟩ only
  obtain ⟨connecting, pending⟩ := inv.2
  obtain ⟨delay, due⟩ := List.exists_mem_of_ne_nil _ (pending ceased)
  have fires : Step s (.timer delay) _ := .timer fine due
  exact ⟨delay, _, fires, staysStopped_broken connecting ⟨ceased, trivial⟩ fires⟩

/-- A connector is stopped, and started again. -/
theorem stopped_and_started : ∃ trace last, Run Step fresh trace last ∧
    last.log = [.started, .socket, .close, .runAfter 500, .stopped, .started, .socket] ∧
    Run.Throughout (fun s => StaysStopped s.log) trace last := by
  have run : ∃ trace last, Run Step fresh trace last ∧
      (∀ p ∈ trace, stopped p.1.log = false ∨ p.2 = .runFunctor ∧
        p.1.pendingFunctors = [.resetChannel] ∨ p.2 = .start) ∧
      last.log = [.started, .socket, .close, .runAfter 500, .stopped, .started, .socket] := by
    refine ⟨_, _, .cons (.start rfl) <|
      .cons (.stop rfl) <|
      .cons (.runFunctor rfl rfl) <|
      .cons (.runFunctor rfl rfl) <|
      .cons (.start rfl) <| .nil _, ?_, ?_⟩
    · decide
    · decide
  obtain ⟨trace, last, run, harmless, log⟩ := run
  refine ⟨trace, last, run, log, (stays_stopped_iff run).mpr fun p mem => ?_⟩
  rintro ⟨ceased, how⟩
  rcases harmless p mem with going | ⟨reset, only⟩ | start
  · rw [going] at ceased
    cases ceased
  · rw [reset] at how
    simp [only] at how
  · rw [start] at how
    exact how

/-- The retry that `stopInLoop` has scheduled creates a socket. -/
theorem reconnects_after_stop : ∃ trace last, Run Step fresh trace last ∧
    last.log = [.started, .socket, .close, .runAfter 500, .stopped, .socket] ∧
    ¬ StaysStopped last.log := by
  refine ⟨_, _, .cons (.start rfl) <|
    .cons (.stop rfl) <|
    .cons (.runFunctor rfl rfl) <|
    .cons (.runFunctor rfl rfl) <|
    .cons (@Step.timer _ 500 rfl (by decide)) <| .nil _, rfl, ?_⟩
  intro stays
  exact stays [.started, .socket, .close, .runAfter 500, .stopped] .socket [] rfl rfl trivial

end Connector

end LaliRpc.Net
