/-
# Net.GracefulShutdown — `send` and `shutdown` from any thread

One connection on its loop, with the loop's own thread and any number of others
calling `send` and `shutdown`. A call is cut where another thread can step in: `send`
tests the state and then has its message written, in place on the loop's thread and
through the functor queue on another; `shutdown` tests the state, changes it, and has
`shutdownInLoop` run in the same way. The loop is the machine of `Net.EventLoop`.

What is sent before a `shutdown` should be written before the sending direction is
closed (`Graceful`). Neither way of closing waits for the queue: `shutdown` on the
loop's thread closes at once, and a `handleWrite` that drains a disconnecting
connection closes in front of every message still queued. `shutdown_graceful_iff`
says that these are the only ways to lose a message.
-/
import LaliRpc.Net.EventLoop
import LaliRpc.Net.HalfClose
import LaliRpc.Theory.History

namespace LaliRpc.Net

open LaliRpc.Theory

set_option autoImplicit false
set_option linter.unusedSectionVars false

/-- A functor in the queue of the loop. Messages are numbered as they are handed over. -/
inductive SharedConnection.Functor where
  | sendInLoop (k : Nat) (message : Bytes)
  | shutdownInLoop
  /-- any other, among them the two callbacks that `sendInLoop` queues -/
  | other
  deriving DecidableEq, Repr

/-- Where a thread is between its steps. -/
inductive SharedConnection.Call where
  | none
  /-- in `send`, having found the state `Connected` -/
  | sending (message : Bytes)
  /-- in `send`, behind `sendInLoop` or `queueInLoop` -/
  | sent (k : Nat) (message : Bytes)
  /-- in `shutdown`, before the test of the state -/
  | shutdown
  /-- in `shutdown`, having found the state `Connected` -/
  | tested
  /-- in `shutdown`, behind `setState(Disconnecting)` -/
  | disconnecting
  deriving DecidableEq, Repr

inductive SharedConnection.Event where
  /-- a `send` that found the state `Connected` returns -/
  | sendReturned (k : Nat) (message : Bytes)
  | shutdownCalled
  | sendInLoop (k : Nat) (message : Bytes)
  | effect (e : Effect)
  deriving DecidableEq, Repr

/-- A connection and its loop. A thread is `some` other thread or the loop's own, `none`. -/
structure SharedConnection (τ : Type) where
  conn : TcpConnection
  loop : EventLoop SharedConnection.Functor τ
  calls : Option τ → SharedConnection.Call
  /-- the number of the next message -/
  next : Nat
  log : List SharedConnection.Event

namespace SharedConnection

variable {τ : Type}

/-- What the connection itself has done. -/
def effects (log : List Event) : List Effect :=
  log.filterMap fun
    | .effect e => some e
    | _ => Option.none

/-- What happened before `shutdown` was called for the first time. -/
def beforeShutdown (log : List Event) : List Event := log.takeWhile (· != .shutdownCalled)

/-- Every message whose `send` returned before `shutdown` was called has been handed to
`sendInLoop`, and `::write` has accepted its bytes. -/
def AllSent (log : List Event) : Prop :=
  ∀ k message, .sendReturned k message ∈ beforeShutdown log →
    .sendInLoop k message ∈ log ∧ message <:+: accepted (effects log)

/-- Whenever the sending direction is closed, everything has been sent. -/
def Graceful : List Event → Prop :=
  AtEach fun early e => e = .effect .shutdownWrite → AllSent early

/-- The functors that the loop still has to run. -/
def waiting (s : SharedConnection τ) : List Functor := s.loop.functors ++ s.loop.pendingFunctors

/-- A connection after `connectEstablished`, on a loop that has not started. -/
def start (highWaterMark : Nat) (writeComplete highWater : Bool) : SharedConnection τ where
  conn := TcpConnection.established highWaterMark writeComplete highWater
  loop := EventLoop.fresh
  calls := fun _ => .none
  next := 0
  log := []

variable [DecidableEq τ]

def setCall (s : SharedConnection τ) (thread : Option τ) (call : Call) : SharedConnection τ :=
  { s with calls := Function.update s.calls thread call }

def record (s : SharedConnection τ) (events : List Event) : SharedConnection τ :=
  { s with log := s.log ++ events }

/-- `sendInLoop` of a numbered message, on the loop's thread. -/
def sendInLoop (s : SharedConnection τ) (k : Nat) (message : Bytes) (kernel : Kernel) :
    SharedConnection τ :=
  let done := s.conn.sendInLoop message kernel
  { s with
    conn := done.1
    log := s.log ++ .sendInLoop k message :: done.2.map .effect }

def shutdownInLoop (s : SharedConnection τ) : SharedConnection τ :=
  s.record (s.conn.shutdownInLoop.map .effect)

def handleWrite (s : SharedConnection τ) (kernel : Kernel) : SharedConnection τ :=
  let done := s.conn.handleWrite kernel
  { s with
    conn := done.1
    log := s.log ++ done.2.map .effect }

def runFunctor (s : SharedConnection τ) (kernel : Kernel) : Functor → SharedConnection τ
  | .sendInLoop k message => s.sendInLoop k message kernel
  | .shutdownInLoop => s.shutdownInLoop
  | .other => s

inductive Action (τ : Type) where
  /-- `send` is called, and tests the state. -/
  | send (thread : Option τ) (message : Bytes)
  /-- `send` on the loop's thread writes in place. -/
  | sendInLoop (kernel : Kernel)
  /-- `send` on another thread queues the functor. -/
  | queueSend (thread : τ)
  | sendReturns (thread : Option τ)
  | shutdown (thread : Option τ)
  | testState (thread : Option τ)
  | setState (thread : Option τ)
  /-- `shutdown` on the loop's thread runs `shutdownInLoop` in place. -/
  | shutdownInLoop
  /-- `shutdown` on another thread queues it. -/
  | queueShutdown (thread : τ)
  | queueOther (thread : Option τ)
  | handleWrite (kernel : Kernel)
  | runFunctor (kernel : Kernel)
  /-- The loop goes on, a wake-up arrives, or the loop is told to quit. -/
  | loop (a : EventLoop.Action Functor τ)

/-- The steps of the loop that run no code of the connection's. -/
def Internal : EventLoop.Action Functor τ → Prop
  | .queue .. | .runFunctor => False
  | _ => True

/-- Another thread does these steps while the loop's own is in a call. -/
def Foreign : EventLoop.Action Functor τ → Prop
  | .weakup _ | .quit => True
  | _ => False

/-- The thread can make a call: it is in none, and the loop's own runs code of the user. -/
def Free (s : SharedConnection τ) (thread : Option τ) : Prop :=
  s.calls thread = .none ∧ s.loop.waking thread = false ∧
    (thread = none → s.loop.phase = .handling ∨ s.loop.phase = .running)

/-- What can happen next. -/
inductive Step : SharedConnection τ → Action τ → SharedConnection τ → Prop where
  | send {s : SharedConnection τ} {thread : Option τ} {message : Bytes} (free : s.Free thread) :
      Step s (.send thread message)
        (s.setCall thread (if s.conn.state = .connected then .sending message else .none))
  | sendInLoop {s : SharedConnection τ} {message : Bytes} {kernel : Kernel}
      (here : s.calls none = .sending message) : Step s (.sendInLoop kernel)
        { (s.sendInLoop s.next message kernel).setCall none (.sent s.next message) with
          next := s.next + 1 }
  | queueSend {s : SharedConnection τ} {thread : τ} {message : Bytes}
      {l : EventLoop Functor τ} (here : s.calls (some thread) = .sending message)
      (queued : s.loop.Step (.queue (some thread) (.sendInLoop s.next message)) l) :
      Step s (.queueSend thread)
        { s.setCall (some thread) (.sent s.next message) with loop := l, next := s.next + 1 }
  | sendReturns {s : SharedConnection τ} {thread : Option τ} {k : Nat} {message : Bytes}
      (here : s.calls thread = .sent k message) (woken : s.loop.waking thread = false) :
      Step s (.sendReturns thread) ((s.record [.sendReturned k message]).setCall thread .none)
  | shutdown {s : SharedConnection τ} {thread : Option τ} (free : s.Free thread) :
      Step s (.shutdown thread) ((s.record [.shutdownCalled]).setCall thread .shutdown)
  | testState {s : SharedConnection τ} {thread : Option τ} (here : s.calls thread = .shutdown) :
      Step s (.testState thread)
        (s.setCall thread (if s.conn.state = .connected then .tested else .none))
  | setState {s : SharedConnection τ} {thread : Option τ} (here : s.calls thread = .tested) :
      Step s (.setState thread)
        { s.setCall thread .disconnecting with conn := { s.conn with state := .disconnecting } }
  | shutdownInLoop {s : SharedConnection τ} (here : s.calls none = .disconnecting) :
      Step s .shutdownInLoop (s.shutdownInLoop.setCall none .none)
  | queueShutdown {s : SharedConnection τ} {thread : τ} {l : EventLoop Functor τ}
      (here : s.calls (some thread) = .disconnecting)
      (queued : s.loop.Step (.queue (some thread) .shutdownInLoop) l) :
      Step s (.queueShutdown thread) { s.setCall (some thread) .none with loop := l }
  | queueOther {s : SharedConnection τ} {thread : Option τ} {l : EventLoop Functor τ}
      (queued : s.loop.Step (.queue thread .other) l) :
      Step s (.queueOther thread) { s with loop := l }
  | handleWrite {s : SharedConnection τ} {kernel : Kernel} (free : s.Free none)
      (here : s.loop.phase = .handling) : Step s (.handleWrite kernel) (s.handleWrite kernel)
  | runFunctor {s : SharedConnection τ} {kernel : Kernel} {f : Functor} {fs : List Functor}
      {l : EventLoop Functor τ} (idle : s.calls none = .none) (first : s.loop.functors = f :: fs)
      (taken : s.loop.Step .runFunctor l) :
      Step s (.runFunctor kernel) (({ s with loop := l } : SharedConnection τ).runFunctor kernel f)
  | loop {s : SharedConnection τ} {a : EventLoop.Action Functor τ} {l : EventLoop Functor τ}
      (internal : Internal a) (idle : s.calls none = .none ∨ Foreign a)
      (taken : s.loop.Step a l) : Step s (.loop a) { s with loop := l }

/-- The next step executes `socket_->shutdownWrite()`. -/
def ShutsDown (s : SharedConnection τ) : Action τ → Prop
  | .shutdownInLoop => s.conn.channel.isWriting = false
  | .handleWrite kernel => s.conn.drains kernel = true ∧ s.conn.state = .disconnecting
  | .runFunctor _ =>
      s.loop.functors.head? = some .shutdownInLoop ∧ s.conn.channel.isWriting = false
  | _ => False

/-- If the next step closes the sending direction, no message that was sent before
`shutdown` is waiting in the queue of the loop. -/
def NoneQueued (s : SharedConnection τ) (a : Action τ) : Prop :=
  s.ShutsDown a → ∀ k message, .sendInLoop k message ∈ s.waiting →
    .sendReturned k message ∉ beforeShutdown s.log

/-! ## The log -/

section Log

variable {log es : List Event} {k : Nat} {message : Bytes}

@[simp] theorem effects_append (log es : List Event) :
    effects (log ++ es) = effects log ++ effects es := List.filterMap_append

@[simp] theorem effects_map (es : List Effect) : effects (es.map .effect) = es := by
  induction es with
  | nil => rfl
  | cons e es ih => exact congrArg (e :: ·) ih

@[simp] theorem effects_sendInLoop (es : List Effect) :
    effects (.sendInLoop k message :: es.map .effect) = es := effects_map es

/-- What was sent before `shutdown` is settled when nothing more returns. -/
theorem mem_beforeShutdown_append (quiet : .sendReturned k message ∉ es) :
    .sendReturned k message ∈ beforeShutdown (log ++ es) ↔
      .sendReturned k message ∈ beforeShutdown log := by
  unfold beforeShutdown
  rw [List.takeWhile_append]
  split
  · rename_i all
    rw [(List.takeWhile_prefix _).eq_of_length all, List.mem_append]
    refine ⟨fun h => h.resolve_right fun later => ?_, .inl⟩
    exact quiet ((List.takeWhile_prefix _).subset later)
  · exact Iff.rfl

theorem mem_of_mem_beforeShutdown {e : Event} (h : e ∈ beforeShutdown log) : e ∈ log :=
  (List.takeWhile_prefix _).subset h

/-- One more event matters only if it closes the sending direction. -/
theorem graceful_concat {e : Event} :
    Graceful (log ++ [e]) ↔ Graceful log ∧ (e = .effect .shutdownWrite → AllSent log) :=
  atEach_concat

theorem graceful_append (quiet : .effect .shutdownWrite ∉ es) :
    Graceful (log ++ es) ↔ Graceful log := by
  apply atEach_append_of
  intro e mem early closes
  exact absurd (closes ▸ mem) quiet

end Log

/-! ## What the functions do -/

section Functions

variable {c : TcpConnection} {message : Bytes} {kernel : Kernel}

/-- The bytes of a message go to the kernel or behind those already waiting. -/
theorem flow_sendInLoop (valid : c.outputBuffer.Valid) (message : Bytes) (kernel : Kernel) :
    ∃ again, accepted (c.sendInLoop message kernel).2 ++
        (c.sendInLoop message kernel).1.outputBuffer.readable =
      c.outputBuffer.readable ++ message ++ again := by
  obtain ⟨-, waiting, took⟩ := TcpConnection.sendInLoop_eq valid message kernel
  refine ⟨message.drop (c.writeDirectly message kernel).1, ?_⟩
  rw [took, waiting]
  by_cases direct : c.channel.isWriting = false ∧ c.outputBuffer.readableBytes = 0
  · have empty : c.outputBuffer.readable = [] :=
      List.length_eq_zero_iff.mp ((Buffer.length_readable valid).trans direct.2)
    rw [empty, List.nil_append, List.nil_append, ← List.append_assoc, List.take_append_drop]
  · have none : (c.writeDirectly message kernel).1 = 0 := by
      rw [TcpConnection.writeDirectly, if_neg direct]
    rw [none, List.take_zero, List.drop_zero, List.nil_append]

/-- `handleWrite` executes `shutdownWrite` when it drains a disconnecting connection,
behind the bytes it has written. -/
theorem effects_handleWrite (c : TcpConnection) (kernel : Kernel) :
    ∃ written, .shutdownWrite ∉ written ∧ (c.handleWrite kernel).2 = written ++
      if c.drains kernel = true ∧ c.state = .disconnecting then [.shutdownWrite] else [] := by
  by_cases writing : c.channel.isWriting = true
  · cases kernel with
    | error =>
        refine ⟨[], List.not_mem_nil, ?_⟩
        rw [TcpConnection.handleWrite, if_pos writing]
        rfl
    | room n =>
        by_cases some : 0 < (c.outputBuffer.readable.take n).length
        · refine ⟨[.wrote (c.outputBuffer.readable.take n)], by simp, ?_⟩
          simp only [TcpConnection.handleWrite, TcpConnection.drains, Kernel.write, if_true,
            if_pos some, writing, decide_eq_true some, Bool.true_and, beq_iff_eq]
          by_cases empty : (c.outputBuffer.retrieve
              (c.outputBuffer.readable.take n).length).readableBytes = 0
          · by_cases leaving : c.state = .disconnecting
            · simp only [if_pos empty, if_pos leaving, TcpConnection.shutdownInLoop,
                Channel.isWriting_disableWriting, Bool.false_eq_true, if_false,
                if_pos (And.intro empty leaving), List.singleton_append]
            · simp only [if_pos empty, if_neg leaving, if_neg fun h => leaving (And.right h),
                List.append_nil]
          · simp only [if_neg empty, if_neg fun h => empty (And.left h), List.append_nil]
        · refine ⟨[], List.not_mem_nil, ?_⟩
          simp only [TcpConnection.handleWrite, TcpConnection.drains, Kernel.write, if_pos writing,
            if_neg some, decide_eq_false some, Bool.and_false, Bool.false_and, Bool.false_eq_true,
            false_and, if_false, List.append_nil]
  · refine ⟨[], List.not_mem_nil, ?_⟩
    have idle : c.drains kernel = false := by
      cases kernel with
      | error => rfl
      | room n => simp [TcpConnection.drains, Kernel.write, writing]
    rw [TcpConnection.handleWrite, if_neg writing, idle, if_neg (by simp)]
    rfl

end Functions

/-! ## The invariant -/

/-- The messages that have been given to `sendInLoop`, with their numbers. -/
def handed (log : List Event) : List (Nat × Bytes) :=
  log.filterMap fun
    | .sendInLoop k message => some (k, message)
    | _ => Option.none

/-- The messages that wait in a queue. -/
def queued (fs : List Functor) : List (Nat × Bytes) :=
  fs.filterMap fun
    | .sendInLoop k message => some (k, message)
    | _ => Option.none

@[simp] theorem mem_handed_iff {log : List Event} {k : Nat} {message : Bytes} :
    (k, message) ∈ handed log ↔ .sendInLoop k message ∈ log := by
  unfold handed
  rw [List.mem_filterMap]
  constructor
  · rintro ⟨e, mem, same⟩
    cases e <;> simp_all
  · exact fun mem => ⟨_, mem, rfl⟩

@[simp] theorem mem_queued_iff {fs : List Functor} {k : Nat} {message : Bytes} :
    (k, message) ∈ queued fs ↔ .sendInLoop k message ∈ fs := by
  unfold queued
  rw [List.mem_filterMap]
  constructor
  · rintro ⟨f, mem, same⟩
    cases f <;> simp_all
  · exact fun mem => ⟨_, mem, rfl⟩

@[simp] theorem handed_append (log es : List Event) :
    handed (log ++ es) = handed log ++ handed es := List.filterMap_append

@[simp] theorem handed_map (es : List Effect) : handed (es.map .effect) = [] := by
  induction es with
  | nil => rfl
  | cons e es ih => exact ih

@[simp] theorem queued_append (fs gs : List Functor) :
    queued (fs ++ gs) = queued fs ++ queued gs := List.filterMap_append

/-- All messages, in the order in which they are or will be given to `sendInLoop`. -/
def messages (s : SharedConnection τ) : List (Nat × Bytes) := handed s.log ++ queued s.waiting

structure Inv (s : SharedConnection τ) : Prop where
  sound : s.loop.Sound
  valid : s.conn.outputBuffer.Valid
  backlog : s.conn.WritesBacklog
  /-- no number is given twice -/
  distinct : (s.messages.map Prod.fst).Nodup
  below : ∀ p ∈ s.messages, p.1 < s.next
  /-- what a `send` leaves behind is handed over or waits in the queue -/
  settled : ∀ k message, (.sendReturned k message ∈ s.log ∨
    ∃ thread, s.calls thread = .sent k message) → (k, message) ∈ s.messages
  /-- what is handed over goes to the kernel in one piece -/
  passed : ∀ k message, .sendInLoop k message ∈ s.log →
    message <:+: accepted (effects s.log) ++ s.conn.outputBuffer.readable

variable {s s' : SharedConnection τ} {a : Action τ}

theorem waiting_internal {l l' : EventLoop Functor τ} {a : EventLoop.Action Functor τ}
    (sound : l.Sound) (internal : Internal a) (step : l.Step a l') :
    l'.functors ++ l'.pendingFunctors = l.functors ++ l.pendingFunctors := by
  cases step with
  | swap here =>
      rw [sound.batch (here ▸ by decide), List.nil_append]
      exact List.append_nil _
  | runFunctor | queue => cases internal
  | _ => rfl

theorem waiting_queue {l l' : EventLoop Functor τ} {thread : Option τ} {f : Functor}
    (step : l.Step (.queue thread f) l') :
    l'.functors ++ l'.pendingFunctors = l.functors ++ l.pendingFunctors ++ [f] := by
  cases step with
  | queue => exact (List.append_assoc _ _ _).symm

theorem waiting_runFunctor {l l' : EventLoop Functor τ} {f : Functor} {fs : List Functor}
    (first : l.functors = f :: fs) (step : l.Step .runFunctor l') :
    l.functors ++ l.pendingFunctors = f :: (l'.functors ++ l'.pendingFunctors) := by
  cases step with
  | runFunctor here free next => rw [next, List.cons_append]; cases next.symm.trans first; rfl

/-- What has been passed on stays so when bytes follow. -/
theorem passed_append {log es : List Event} {waiting waiting' message : Bytes} (again : Bytes)
    (flow : accepted (effects es) ++ waiting' = waiting ++ again)
    (passed : message <:+: accepted (effects log) ++ waiting) :
    message <:+: accepted (effects (log ++ es)) ++ waiting' := by
  rw [effects_append, accepted_append, List.append_assoc, flow, ← List.append_assoc]
  exact passed.trans (List.prefix_append _ _).isInfix

/-- A step that hands nothing over and queues no message. -/
theorem Inv.frame (inv : s.Inv) (es : List Event) (sound : s'.loop.Sound)
    (valid : s'.conn.outputBuffer.Valid) (backlog : s'.conn.WritesBacklog)
    (log : s'.log = s.log ++ es) (nothing : handed es = [])
    (flow : accepted (effects es) ++ s'.conn.outputBuffer.readable = s.conn.outputBuffer.readable)
    (queue : queued s'.waiting = queued s.waiting) (next : s'.next = s.next)
    (returned : ∀ k message, (.sendReturned k message ∈ es ∨
      ∃ thread, s'.calls thread = .sent k message) → ∃ thread, s.calls thread = .sent k message) :
    s'.Inv := by
  have same : s'.messages = s.messages := by
    rw [messages, messages, log, queue, handed_append, nothing, List.append_nil]
  refine ⟨sound, valid, backlog, ?_, ?_, fun k message later => ?_, fun k message there => ?_⟩
  · rw [same]
    exact inv.distinct
  · rw [same, next]
    exact inv.below
  · rw [same]
    refine inv.settled k message ?_
    rw [log, List.mem_append, or_assoc] at later
    exact later.imp_right (returned k message)
  · rw [log] at there ⊢
    have before : .sendInLoop k message ∈ s.log := by
      rw [← mem_handed_iff, handed_append, nothing, List.append_nil] at there
      exact mem_handed_iff.mp there
    exact passed_append [] (by rw [flow, List.append_nil]) (inv.passed k message before)

/-- A new message takes the next number. -/
theorem Inv.numbered (inv : s.Inv) (s' : SharedConnection τ) {message : Bytes}
    (added : s'.messages.Perm ((s.next, message) :: s.messages)) (next : s'.next = s.next + 1) :
    (s'.messages.map Prod.fst).Nodup ∧ ∀ p ∈ s'.messages, p.1 < s'.next := by
  have fresh : s.next ∉ s.messages.map Prod.fst := by
    intro used
    obtain ⟨p, mem, same⟩ := List.mem_map.mp used
    exact absurd (inv.below p mem) (by rw [same]; exact Nat.lt_irrefl _)
  refine ⟨(added.map Prod.fst).nodup_iff.mpr (List.nodup_cons.mpr ⟨fresh, inv.distinct⟩), ?_⟩
  intro p mem
  rw [next]
  rcases List.mem_cons.mp (added.subset mem) with rfl | old
  · exact Nat.lt_succ_self _
  · exact Nat.lt_succ_of_lt (inv.below p old)

theorem sent_of_update {calls : Option τ → Call} {thread thread' : Option τ} {call : Call}
    {k : Nat} {message : Bytes} (other : call ≠ .sent k message)
    (sent : Function.update calls thread call thread' = .sent k message) :
    calls thread' = .sent k message := by
  by_cases same : thread' = thread
  · subst same
    rw [Function.update_self] at sent
    exact absurd sent other
  · rwa [Function.update_of_ne same] at sent

/-- A step that changes one thread's call, and not to `sent`. -/
theorem Inv.setCall (inv : s.Inv) {thread : Option τ} {call : Call}
    (other : ∀ k message, call ≠ .sent k message) : (s.setCall thread call).Inv := by
  refine inv.frame [] inv.sound inv.valid inv.backlog (List.append_nil _).symm rfl rfl rfl
    rfl ?_
  rintro k message (event | ⟨thread', sent⟩)
  · cases event
  · exact ⟨thread', sent_of_update (other k message) sent⟩

/-- Only the loop changes, and no message is queued. -/
theorem Inv.setLoop (inv : s.Inv) {l : EventLoop Functor τ} (sound : l.Sound)
    (queue : queued (l.functors ++ l.pendingFunctors) = queued s.waiting) :
    Inv { s with loop := l } :=
  inv.frame [] sound inv.valid inv.backlog (List.append_nil _).symm rfl rfl queue rfl
    fun _ _ sent => sent.resolve_left List.not_mem_nil

/-- `sendInLoop` of a message with a number of its own. -/
theorem Inv.passed_sendInLoop (inv : s.Inv) (k : Nat) (message : Bytes) (kernel : Kernel) :
    ∀ k' message', .sendInLoop k' message' ∈ (s.sendInLoop k message kernel).log →
      message' <:+: accepted (effects (s.sendInLoop k message kernel).log) ++
        (s.sendInLoop k message kernel).conn.outputBuffer.readable := by
  obtain ⟨again, flow⟩ := flow_sendInLoop inv.valid message kernel
  intro k' message' there
  have cut : (s.sendInLoop k message kernel).log =
    s.log ++ .sendInLoop k message :: (s.conn.sendInLoop message kernel).2.map .effect := rfl
  rw [cut, List.mem_append, List.mem_cons] at there
  rw [cut]
  rcases there with before | new | effect
  · refine passed_append (message ++ again) ?_
      (inv.passed k' message' before)
    rw [effects_sendInLoop, ← List.append_assoc]
    exact flow
  · cases new
    refine ⟨accepted (effects s.log) ++ s.conn.outputBuffer.readable, again, ?_⟩
    rw [effects_append, accepted_append, effects_sendInLoop, List.append_assoc, List.append_assoc,
      List.append_assoc (accepted (effects s.log)), ← List.append_assoc _ message, ← flow]
    rfl
  · obtain ⟨e, -, same⟩ := List.mem_map.mp effect
    cases same

/-- Only the connection changes, and logs what it does. -/
theorem Inv.perform (inv : s.Inv) {conn : TcpConnection} {es : List Effect}
    (valid : conn.outputBuffer.Valid) (backlog : conn.WritesBacklog)
    (flow : accepted es ++ conn.outputBuffer.readable = s.conn.outputBuffer.readable) :
    Inv { s with conn := conn, log := s.log ++ es.map .effect } := by
  refine inv.frame _ inv.sound valid backlog rfl (handed_map _) ?_ rfl rfl ?_
  · rw [effects_map]
    exact flow
  · rintro k message (event | sent)
    · obtain ⟨e, -, same⟩ := List.mem_map.mp event
      cases same
    · exact sent

theorem Inv.shutdownInLoop (inv : s.Inv) : s.shutdownInLoop.Inv := by
  refine inv.perform inv.valid inv.backlog ?_
  rw [TcpConnection.accepted_shutdownInLoop]
  rfl

theorem Inv.handleWrite (inv : s.Inv) (kernel : Kernel) : (s.handleWrite kernel).Inv := by
  obtain ⟨valid, flow⟩ := TcpConnection.handleWrite_eq inv.valid kernel
  exact inv.perform valid
    (TcpConnection.writesBacklog_handleWrite inv.valid inv.backlog kernel) flow

theorem Inv.record (inv : s.Inv) {e : Event} (nothing : handed [e] = [])
    (silent : effects [e] = [])
    (returned : ∀ k message, e = .sendReturned k message →
      ∃ thread, s.calls thread = .sent k message) : (s.record [e]).Inv := by
  refine inv.frame _ inv.sound inv.valid inv.backlog rfl nothing ?_ rfl rfl ?_
  · rw [silent]
    rfl
  · rintro k message (event | sent)
    · exact returned k message (List.mem_singleton.mp event).symm
    · exact sent

@[simp] theorem handed_sendInLoop (k : Nat) (message : Bytes) (es : List Effect) :
    handed (.sendInLoop k message :: es.map .effect) = [(k, message)] :=
  congrArg ((k, message) :: ·) (handed_map es)

/-- A `send` leaves a new message behind. -/
theorem Inv.settled_added (inv : s.Inv) {thread : Option τ} {message : Bytes}
    (added : s'.messages.Perm ((s.next, message) :: s.messages))
    (calls : s'.calls = Function.update s.calls thread (.sent s.next message))
    (returned : ∀ k m, .sendReturned k m ∈ s'.log → .sendReturned k m ∈ s.log) :
    ∀ k m, (.sendReturned k m ∈ s'.log ∨ ∃ thread, s'.calls thread = .sent k m) →
      (k, m) ∈ s'.messages := by
  intro k m there
  apply added.symm.subset
  rcases there with there | ⟨thread', sent⟩
  · exact List.mem_cons_of_mem _ (inv.settled k m (.inl (returned k m there)))
  · rw [calls] at sent
    by_cases new : Call.sent s.next message = .sent k m
    · cases new
      exact List.mem_cons_self
    · exact List.mem_cons_of_mem _ (inv.settled k m (.inr ⟨thread', sent_of_update new sent⟩))

/-- `send` on the loop's thread. -/
theorem Inv.sendInLoop (inv : s.Inv) (thread : Option τ) (message : Bytes) (kernel : Kernel) :
    Inv { (s.sendInLoop s.next message kernel).setCall thread (.sent s.next message) with
      next := s.next + 1 } := by
  have log : (s.sendInLoop s.next message kernel).log =
    s.log ++ .sendInLoop s.next message :: (s.conn.sendInLoop message kernel).2.map .effect := rfl
  have added : List.Perm (handed (s.sendInLoop s.next message kernel).log ++ queued s.waiting)
      ((s.next, message) :: s.messages) := by
    rw [log, handed_append, handed_sendInLoop, List.append_assoc]
    exact List.perm_middle
  obtain ⟨distinct, below⟩ := inv.numbered ({ (s.sendInLoop s.next message kernel).setCall
    thread (.sent s.next message) with next := s.next + 1 }) added rfl
  refine ⟨inv.sound, (TcpConnection.sendInLoop_eq inv.valid message kernel).1,
    TcpConnection.writesBacklog_sendInLoop inv.valid inv.backlog message kernel, distinct, below,
    inv.settled_added added rfl fun k m there => ?_, inv.passed_sendInLoop s.next message kernel⟩
  rcases List.mem_append.mp there with there | there
  · exact there
  · simp at there

/-- `send` on another thread. -/
theorem Inv.queueSend (inv : s.Inv) {thread : τ} {message : Bytes} {l : EventLoop Functor τ}
    (queued : s.loop.Step (.queue (some thread) (.sendInLoop s.next message)) l) :
    Inv { s.setCall (some thread) (.sent s.next message) with
      loop := l, next := s.next + 1 } := by
  have added : List.Perm (handed s.log ++ SharedConnection.queued (l.functors ++ l.pendingFunctors))
      ((s.next, message) :: s.messages) := by
    rw [waiting_queue queued, queued_append, ← List.append_assoc]
    exact List.perm_append_singleton _ _
  obtain ⟨distinct, below⟩ := inv.numbered ({ s.setCall (some thread) (.sent s.next message)
    with loop := l, next := s.next + 1 }) added rfl
  exact ⟨EventLoop.sound_step inv.sound queued, inv.valid, inv.backlog, distinct, below,
    inv.settled_added added rfl fun _ _ => id, inv.passed⟩

/-- The loop takes a functor out of its queue and runs it. -/
theorem Inv.runFunctor (inv : s.Inv) {f : Functor} {fs : List Functor} {l : EventLoop Functor τ}
    (first : s.loop.functors = f :: fs) (taken : s.loop.Step .runFunctor l) (kernel : Kernel) :
    (({ s with loop := l } : SharedConnection τ).runFunctor kernel f).Inv := by
  have sound := EventLoop.sound_step inv.sound taken
  have waiting : s.waiting = f :: (l.functors ++ l.pendingFunctors) :=
    waiting_runFunctor first taken
  cases f with
  | sendInLoop k message =>
      have log : (s.sendInLoop k message kernel).log =
        s.log ++ .sendInLoop k message :: (s.conn.sendInLoop message kernel).2.map .effect := rfl
      have same : (({ s with loop := l } : SharedConnection τ).runFunctor kernel
          (.sendInLoop k message)).messages = s.messages := by
        show handed (s.sendInLoop k message kernel).log ++
          queued (l.functors ++ l.pendingFunctors) = _
        rw [messages, waiting, log, handed_append, handed_sendInLoop, List.append_assoc]
        rfl
      refine ⟨sound, (TcpConnection.sendInLoop_eq inv.valid message kernel).1,
        TcpConnection.writesBacklog_sendInLoop inv.valid inv.backlog message kernel, ?_, ?_, ?_,
        inv.passed_sendInLoop k message kernel⟩
      · rw [same]
        exact inv.distinct
      · rw [same]
        exact inv.below
      · intro k' m there
        rw [same]
        refine inv.settled k' m (there.imp_left fun event => ?_)
        rcases List.mem_append.mp event with event | event
        · exact event
        · simp at event
  | shutdownInLoop =>
      refine (inv.setLoop sound ?_).shutdownInLoop
      rw [waiting]
      rfl
  | other =>
      refine inv.setLoop sound ?_
      rw [waiting]
      rfl

theorem inv_start (highWaterMark : Nat) (writeComplete highWater : Bool) :
    (start highWaterMark writeComplete highWater : SharedConnection τ).Inv where
  sound := EventLoop.sound_fresh
  valid := Buffer.valid_fresh
  backlog := (Closing.inv_start highWaterMark writeComplete highWater).backlog
  distinct := List.nodup_nil
  below p mem := absurd mem List.not_mem_nil
  settled k message there := by
    rcases there with there | ⟨thread, there⟩
    · cases there
    · cases there
  passed k message there := absurd there List.not_mem_nil

/-- **Every step keeps the invariant.** -/
theorem inv_step (inv : s.Inv) (step : Step s a s') : s'.Inv := by
  cases step with
  | send free =>
      refine inv.setCall fun k message => ?_
      split <;> nofun
  | sendInLoop here => exact inv.sendInLoop none _ _
  | queueSend here queued => exact inv.queueSend queued
  | sendReturns here woken =>
      have recorded := inv.record (e := .sendReturned _ _) rfl rfl fun k message same => by
        cases same
        exact ⟨_, here⟩
      exact recorded.setCall nofun
  | shutdown free =>
      have recorded := inv.record (e := .shutdownCalled) rfl rfl nofun
      exact recorded.setCall nofun
  | testState here =>
      refine inv.setCall fun k message => ?_
      split <;> nofun
  | @setState thread here =>
      have changed : (s.setCall thread .disconnecting).Inv := inv.setCall nofun
      exact ⟨changed.sound, changed.valid, changed.backlog, changed.distinct, changed.below,
        changed.settled, changed.passed⟩
  | shutdownInLoop here => exact inv.shutdownInLoop.setCall nofun
  | @queueShutdown thread l here queued =>
      have sound := EventLoop.sound_step inv.sound queued
      have looped := inv.setLoop sound (by
        rw [waiting_queue queued, queued_append]
        exact List.append_nil _)
      exact looped.setCall nofun
  | queueOther queued =>
      refine inv.setLoop (EventLoop.sound_step inv.sound queued) ?_
      rw [waiting_queue queued, queued_append]
      exact List.append_nil _
  | handleWrite free here => exact inv.handleWrite _
  | runFunctor idle first taken => exact inv.runFunctor first taken _
  | loop internal idle taken =>
      refine inv.setLoop (EventLoop.sound_step inv.sound taken) ?_
      rw [waiting_internal inv.sound internal taken]
      rfl

/-! ## Closing the sending direction -/

theorem readable_of_idle (inv : s.Inv) (idle : s.conn.channel.isWriting = false) :
    s.conn.outputBuffer.readable = [] := by
  by_contra waiting
  rw [inv.backlog.mpr waiting] at idle
  cases idle

/-- A step that closes the sending direction leaves nothing in the output buffer. -/
theorem log_of_shutsDown (inv : s.Inv) (step : Step s a s') (shuts : s.ShutsDown a) :
    ∃ written : List Effect, .shutdownWrite ∉ written ∧
      s'.log = s.log ++ written.map .effect ++ [.effect .shutdownWrite] ∧
      accepted written = s.conn.outputBuffer.readable := by
  have closed : s.conn.channel.isWriting = false → ∃ written : List Effect,
      .shutdownWrite ∉ written ∧
        s.log ++ s.conn.shutdownInLoop.map .effect =
          s.log ++ written.map .effect ++ [.effect .shutdownWrite] ∧
        accepted written = s.conn.outputBuffer.readable := by
    intro idle
    have effect : s.conn.shutdownInLoop = [.shutdownWrite] := by
      rw [TcpConnection.shutdownInLoop, idle]
      rfl
    refine ⟨[], List.not_mem_nil, ?_, (readable_of_idle inv idle).symm⟩
    rw [effect, List.map_nil, List.append_nil]
    rfl
  cases step with
  | shutdownInLoop here => exact closed shuts
  | @handleWrite kernel free here =>
      have drained : s.conn.drains kernel = true ∧ s.conn.state = .disconnecting := shuts
      obtain ⟨written, none, effect⟩ := effects_handleWrite s.conn kernel
      rw [if_pos drained] at effect
      obtain ⟨-, flow⟩ := TcpConnection.handleWrite_eq inv.valid kernel
      have empty := TcpConnection.empty_of_handleWrite_shuts inv.valid kernel
        (by rw [effect]; exact List.mem_append_right _ List.mem_cons_self)
      refine ⟨written, none, ?_, ?_⟩
      · show s.log ++ (s.conn.handleWrite kernel).2.map .effect = _
        rw [effect, List.map_append, ← List.append_assoc]
        rfl
      · rw [empty, effect, accepted_append, List.append_nil] at flow
        rw [← flow]
        exact (List.append_nil _).symm
  | @runFunctor kernel f fs l idle first taken =>
      obtain ⟨head, idle⟩ := shuts
      rw [first] at head
      cases head
      exact closed idle
  | _ => cases shuts

theorem log_of_not_shutsDown (step : Step s a s') (open' : ¬ s.ShutsDown a) :
    ∃ es, .effect .shutdownWrite ∉ es ∧ s'.log = s.log ++ es := by
  have quiet : ∀ effects : List Effect, .shutdownWrite ∉ effects →
      Event.effect .shutdownWrite ∉ effects.map .effect := by
    intro effects none mem
    obtain ⟨e, mem, same⟩ := List.mem_map.mp mem
    cases same
    exact none mem
  have sent : ∀ k message kernel, Event.effect .shutdownWrite ∉
      Event.sendInLoop k message :: (s.conn.sendInLoop message kernel).2.map .effect := by
    intro k message kernel mem
    refine quiet (s.conn.sendInLoop message kernel).2
      (TcpConnection.shutdownWrite_notMem_sendInLoop message kernel) ?_
    exact (List.mem_cons.mp mem).resolve_left nofun
  have kept : s.conn.channel.isWriting ≠ false →
      Event.effect .shutdownWrite ∉ s.conn.shutdownInLoop.map .effect := fun writing =>
    quiet _ fun mem => writing (TcpConnection.shutdownWrite_mem_shutdownInLoop.mp mem)
  cases step with
  | sendInLoop here => exact ⟨_, sent _ _ _, rfl⟩
  | sendReturns here woken => exact ⟨[.sendReturned _ _], by simp, rfl⟩
  | shutdown free => exact ⟨[.shutdownCalled], by simp, rfl⟩
  | shutdownInLoop here => exact ⟨_, kept open', rfl⟩
  | @handleWrite kernel free here =>
      obtain ⟨written, none, effect⟩ := effects_handleWrite s.conn kernel
      have kept' : ¬ (s.conn.drains kernel = true ∧ s.conn.state = .disconnecting) := open'
      rw [if_neg kept', List.append_nil] at effect
      refine ⟨_, quiet _ ?_, rfl⟩
      rw [effect]
      exact none
  | @runFunctor kernel f fs l idle first taken =>
      cases f with
      | sendInLoop k message => exact ⟨_, sent _ _ _, rfl⟩
      | shutdownInLoop =>
          refine ⟨_, kept fun idle => open' ⟨?_, idle⟩, rfl⟩
          rw [first]
          rfl
      | other => exact ⟨[], List.not_mem_nil, (List.append_nil _).symm⟩
  | _ => exact ⟨[], List.not_mem_nil, (List.append_nil _).symm⟩

theorem beforeShutdown_written {k : Nat} {message : Bytes} {log : List Event}
    (written : List Effect) :
    .sendReturned k message ∈ beforeShutdown (log ++ written.map .effect) ↔
      .sendReturned k message ∈ beforeShutdown log :=
  mem_beforeShutdown_append (by simp)

theorem graceful_kept (inv : s.Inv) (graceful : Graceful s.log) (none : s.NoneQueued a)
    (step : Step s a s') : Graceful s'.log := by
  by_cases shuts : s.ShutsDown a
  · obtain ⟨written, open', log, flow⟩ := log_of_shutsDown inv step shuts
    rw [log, graceful_concat, graceful_append (by simpa using open')]
    refine ⟨graceful, fun _ k message owed => ?_⟩
    rw [beforeShutdown_written] at owed
    have there := inv.settled k message (.inl (mem_of_mem_beforeShutdown owed))
    rw [messages, List.mem_append, mem_handed_iff, mem_queued_iff] at there
    have given := there.resolve_right fun waits => none shuts k message waits owed
    refine ⟨List.mem_append_left _ given, ?_⟩
    rw [effects_append, accepted_append, effects_map, flow]
    exact inv.passed k message given
  · obtain ⟨es, open', log⟩ := log_of_not_shutsDown step shuts
    rw [log, graceful_append open']
    exact graceful

theorem graceful_broken (inv : s.Inv) (some : ¬ s.NoneQueued a) (step : Step s a s') :
    ¬ Graceful s'.log := by
  unfold NoneQueued at some
  push Not at some
  obtain ⟨shuts, k, message, waits, owed⟩ := some
  obtain ⟨written, open', log, -⟩ := log_of_shutsDown inv step shuts
  rw [log, graceful_concat]
  rintro ⟨-, last⟩
  obtain ⟨given, -⟩ := last rfl k message ((beforeShutdown_written written).mpr owed)
  have before : .sendInLoop k message ∈ s.log :=
    (List.mem_append.mp given).resolve_right (by simp)
  -- the message would have been handed over and still be waiting
  have distinct := inv.distinct
  rw [messages, List.map_append, List.nodup_append] at distinct
  exact distinct.2.2 k (List.mem_map.mpr ⟨_, mem_handed_iff.mpr before, rfl⟩) k
    (List.mem_map.mpr ⟨_, mem_queued_iff.mpr waits, rfl⟩) rfl

instance (s : SharedConnection τ) : DecidablePred s.ShutsDown := fun a => by
  cases a <;> unfold ShutsDown <;> infer_instance

theorem noneQueued_of_empty (h : s.waiting = [] ∨ ¬ s.ShutsDown a) : s.NoneQueued a := by
  intro shuts k message waits
  rw [h.resolve_right (not_not_intro shuts)] at waits
  cases waits

end SharedConnection

/-- **Nothing is lost by a graceful shutdown exactly if no message is left in the queue
when the sending direction is closed**: over every run of `send` and `shutdown` calls
from any threads. -/
theorem shutdown_graceful_iff {τ : Type} [DecidableEq τ] (highWaterMark : Nat)
    (writeComplete highWater : Bool)
    {trace : List (SharedConnection τ × SharedConnection.Action τ)} {last : SharedConnection τ}
    (run : Run SharedConnection.Step
      (SharedConnection.start highWaterMark writeComplete highWater) trace last) :
    Run.Throughout (fun s => SharedConnection.Graceful s.log) trace last ↔
      ∀ p ∈ trace, p.1.NoneQueued p.2 :=
  run.invariant_iff (I := fun s : SharedConnection τ => SharedConnection.Graceful s.log)
    (C := SharedConnection.NoneQueued)
    (fun _ _ _ inv step => SharedConnection.inv_step inv step)
    (fun _ _ _ inv graceful none step => SharedConnection.graceful_kept inv graceful none step)
    (fun _ _ _ inv _ some step => SharedConnection.graceful_broken inv some step)
    (SharedConnection.inv_start highWaterMark writeComplete highWater)
    atEach_nil

namespace SharedConnection

/-- Another thread sends a byte, the loop runs its functor, and the loop's thread shuts
down. -/
theorem sent_before_shutdown : ∃ trace last,
    Run Step (start 64 false false : SharedConnection Unit) trace last ∧
      .effect .shutdownWrite ∈ last.log ∧
      Run.Throughout (fun s => Graceful s.log) trace last := by
  have run : ∃ trace last, Run Step (start 64 false false : SharedConnection Unit) trace last ∧
      (∀ p ∈ trace, p.1.waiting = [] ∨ ¬ p.1.ShutsDown p.2) ∧
      .effect .shutdownWrite ∈ last.log := by
    refine ⟨_, _, .cons (.loop (a := .enter) trivial (.inl rfl) (.enter rfl)) <|
      .cons (.loop (a := .test) trivial (.inl rfl) (.goOn rfl rfl)) <|
      .cons (.loop (a := .poll) trivial (.inl rfl) (.poll rfl)) <|
      .cons (.loop (a := .ready) trivial (.inl rfl) (.ready rfl)) <|
      .cons (@Step.send _ _ _ (some ()) [0] ⟨rfl, rfl, nofun⟩) <|
      .cons (@Step.queueSend _ _ _ () [0] _ rfl (.queue rfl nofun)) <|
      .cons (.loop (a := .weakup (some ())) trivial (.inl rfl) (.weakup rfl)) <|
      .cons (@Step.sendReturns _ _ _ (some ()) 0 [0] rfl rfl) <|
      .cons (.loop (a := .call) trivial (.inl rfl) (.call rfl rfl rfl)) <|
      .cons (.loop (a := .swap) trivial (.inl rfl) (.swap rfl)) <|
      .cons (@Step.runFunctor _ _ _ (.room 1) (.sendInLoop 0 [0]) [] _ rfl rfl
        (.runFunctor rfl rfl rfl)) <|
      .cons (@Step.shutdown _ _ _ none ⟨rfl, rfl, fun _ => .inr rfl⟩) <|
      .cons (@Step.testState _ _ _ none rfl) <|
      .cons (@Step.setState _ _ _ none rfl) <|
      .cons (.shutdownInLoop rfl) <|
      .nil _, ?_, ?_⟩
    · decide
    · decide
  obtain ⟨trace, last, run, none, closed⟩ := run
  exact ⟨trace, last, run, closed, (shutdown_graceful_iff 64 false false run).mpr
    fun p mem => noneQueued_of_empty (none p mem)⟩

/-- Another thread sends a byte, and the loop's thread shuts down before it runs the
functor. -/
theorem lost_behind_shutdown : ∃ trace last,
    Run Step (start 64 false false : SharedConnection Unit) trace last ∧
      last.log = [.sendReturned 0 [0], .shutdownCalled, .effect .shutdownWrite] ∧
      ¬ Graceful last.log := by
  refine ⟨_, _, .cons (.loop (a := .enter) trivial (.inl rfl) (.enter rfl)) <|
    .cons (.loop (a := .test) trivial (.inl rfl) (.goOn rfl rfl)) <|
    .cons (.loop (a := .poll) trivial (.inl rfl) (.poll rfl)) <|
    .cons (.loop (a := .ready) trivial (.inl rfl) (.ready rfl)) <|
    .cons (@Step.send _ _ _ (some ()) [0] ⟨rfl, rfl, nofun⟩) <|
    .cons (@Step.queueSend _ _ _ () [0] _ rfl (.queue rfl nofun)) <|
    .cons (.loop (a := .weakup (some ())) trivial (.inl rfl) (.weakup rfl)) <|
    .cons (@Step.sendReturns _ _ _ (some ()) 0 [0] rfl rfl) <|
    .cons (@Step.shutdown _ _ _ none ⟨rfl, rfl, fun _ => .inl rfl⟩) <|
    .cons (@Step.testState _ _ _ none rfl) <|
    .cons (@Step.setState _ _ _ none rfl) <|
    .cons (.shutdownInLoop rfl) <|
    .nil _, rfl, ?_⟩
  intro graceful
  have given := (graceful [.sendReturned 0 [0], .shutdownCalled] _ [] rfl rfl 0 [0] (by decide)).1
  revert given
  decide

end SharedConnection

end LaliRpc.Net
