/-
# Net.TcpServer — connections on loops of their own

A `TcpServer` with its base loop, any number of IO loops, and connections that live on
IO loops: any thread may take the next step. An IO loop polls, calls the handlers of
what was reported one by one, swaps its pending functors out and runs them one by one;
the base loop does the same, and removes connections in its functors. The sockets
change as they like.

For each connection every step is one of the steps of its teardown (`teardown_step`),
so that `Net.Teardown` says when connections are closed once. They are as long as no
poll reports a connection that has gone through `handleClose`, and no queued `forceClose`
gets to one (`connections_closed_once`). Nothing in the code sees to that: `disableAll`
leaves the interest set as it is, a connection whose peer has closed stays readable from
its `connectEstablished` to its `connectDestroyed` (`eof_reported`), and `forceClose` and
`handleClose` leave `state_` as it is.

`connId_` is an `int` and numbers the connections: fewer than 2^31 are accepted.
-/
import LaliRpc.Net.ServerConnection
import LaliRpc.Net.EventLoop
import LaliRpc.Theory.Transition

namespace LaliRpc.Net

open LaliRpc.Theory

set_option autoImplicit false

/-! ## The server -/

/-- A functor queued to a loop, with the number of the connection it is bound to. -/
inductive TcpServer.Functor where
  | connectEstablished (conn : Nat)
  | destroyConnectionInLoop (conn : Nat)
  | connectDestroyed (conn : Nat)
  | sendInLoop (conn : Nat) (message : Bytes)
  | shutdownInLoop (conn : Nat)
  /-- of `forceClose` -/
  | handleClose (conn : Nat)
  deriving DecidableEq, Repr

/-- A loop of the server: `polling`, `handling` what was reported, or `running` the
functors it has swapped out. -/
structure TcpServer.Loop where
  phase : EventLoop.Phase
  /-- the handlers that are still to be called, each with its connection -/
  active : List (Nat × Channel.Handler)
  functors : List TcpServer.Functor
  pendingFunctors : List TcpServer.Functor

/-- The base loop is `none`, an IO loop is `some` number. Connections are numbered as
they are accepted; every number has its `fresh` connection from the start. -/
structure TcpServer where
  connId : Nat
  /-- `connection_`, by the number in the name -/
  connection : List Nat
  conns : Nat → ServerConnection
  loops : Option Nat → TcpServer.Loop

namespace TcpServer

open Channel (Handler)

def start : TcpServer := ⟨1, [], fun _ => .fresh, fun _ => ⟨.polling, [], [], []⟩⟩

def setConn (s : TcpServer) (c : Nat) (conn : ServerConnection) : TcpServer :=
  { s with conns := Function.update s.conns c conn }

def setLoop (s : TcpServer) (l : Option Nat) (loop : Loop) : TcpServer :=
  { s with loops := Function.update s.loops l loop }

def queueInLoop (s : TcpServer) (l : Option Nat) (cb : Functor) : TcpServer :=
  s.setLoop l { s.loops l with pendingFunctors := (s.loops l).pendingFunctors ++ [cb] }

variable (home : Nat → Nat)

/-- `newConnection`: `getNextLoop` gives the connection its IO loop, `home`, which is not
the loop it is accepted in, so that `runInLoop` queues. `connId_` is an `int`, so fewer than
2^31 connections are accepted. -/
def newConnection (s : TcpServer) : TcpServer :=
  { s with connId := s.connId + 1, connection := s.connId :: s.connection }.queueInLoop
    (some (home s.connId)) (.connectEstablished s.connId)

/-- `handleClose`, in which `closeCallback_` is `destroyConnection`: from an IO loop
`runInLoop` queues. -/
def handleClose (s : TcpServer) (c : Nat) : TcpServer :=
  (s.setConn c (s.conns c).handleClose).queueInLoop none (.destroyConnectionInLoop c)

/-- A handler of the connection, with what `::readv` returns and `::write` comes to.
`handleError` fetches the socket's error. -/
def runHandler (s : TcpServer) (c : Nat) (n : Option Nat) (kernel : Kernel) : Handler → TcpServer
  | .close => s.handleClose c
  | .error => s
  | .read =>
      let s := s.setConn c ((s.conns c).handleRead n)
      if n = some 0 then s.handleClose c else s
  | .write => s.setConn c ((s.conns c).handleWrite kernel)

/-- `connection_.erase`. -/
def erase (s : TcpServer) (c : Nat) : TcpServer :=
  { s with connection := s.connection.erase c }

def runFunctor (s : TcpServer) (kernel : Kernel) : Functor → TcpServer
  | .connectEstablished c => s.setConn c (s.conns c).connectEstablished
  | .destroyConnectionInLoop c =>
      (s.erase c).queueInLoop (some (home c)) (.connectDestroyed c)
  | .connectDestroyed c => s.setConn c (s.conns c).connectDestroyed
  | .sendInLoop c message => s.setConn c ((s.conns c).sendInLoop message kernel)
  -- `::shutdown` of the sending direction, which the peer may answer as it likes
  | .shutdownInLoop _ => s
  | .handleClose c => s.handleClose c

inductive Action where
  | newConnection
  /-- Bytes arrive at a socket, its peer closes, other events begin or end. -/
  | receive (c : Nat) (n : Nat)
  | fin (c : Nat)
  | raise (c : Nat) (events : BitVec 32)
  /-- The poll of a loop returns, with these connections and perhaps other channels. -/
  | poll (l : Option Nat) (returned : List Nat)
  /-- The loop calls the next handler. -/
  | handle (l : Option Nat) (n : Option Nat) (kernel : Kernel)
  /-- `doPendingFunctor` swaps the functors out. -/
  | swap (l : Option Nat)
  | runFunctor (l : Option Nat) (kernel : Kernel)
  | finish (l : Option Nat)
  /-- A user's `send` or `shutdown`, in a callback that the connection's loop runs
  (`inLoop`) or in another thread. -/
  | send (c : Nat) (inLoop : Bool) (message : Bytes) (kernel : Kernel)
  | shutdown (c : Nat) (inLoop : Bool)
  /-- A user's `forceClose`, in any thread and any state. -/
  | forceClose (c : Nat)

/-- The handlers of the connections a poll has returned. -/
def dispatched (s : TcpServer) (returned : List Nat) : List (Nat × Handler) :=
  returned.flatMap fun c => (Channel.handleEvent (s.conns c).report).map fun h => (c, h)

/-- The user knows the connection: it has been given to `connectionCallback_`. -/
def Known (s : TcpServer) (c : Nat) : Prop :=
  .connectionCallback .connected ∈ (s.conns c).calls

instance (s : TcpServer) (c : Nat) : Decidable (s.Known c) :=
  inferInstanceAs (Decidable (_ ∈ _))

/-- What can happen next. What a callback does with connections comes as steps of its own
behind the handler or functor that has called it. A `send` in another thread tests the state
some time before it queues its functor, so that it may do the latter in any state. -/
inductive Step : TcpServer → Action → TcpServer → Prop where
  | newConnection {s : TcpServer} (accepting : (s.loops none).phase = .handling) :
      Step s .newConnection (s.newConnection home)
  | receive {s : TcpServer} (c n : Nat) (more : (s.conns c).socket.fin = false) :
      Step s (.receive c n) (s.setConn c { s.conns c with
        socket := { (s.conns c).socket with unread := (s.conns c).socket.unread + n } })
  | fin {s : TcpServer} (c : Nat) :
      Step s (.fin c) (s.setConn c { s.conns c with
        socket := { (s.conns c).socket with fin := true } })
  | raise {s : TcpServer} (c : Nat) (events : BitVec 32) :
      Step s (.raise c events) (s.setConn c { s.conns c with
        socket := { (s.conns c).socket with raised := events } })
  | poll {s : TcpServer} (l : Option Nat) (returned : List Nat)
      (here : (s.loops l).phase = .polling) (distinct : returned.Nodup)
      (ready : ∀ c ∈ returned, some (home c) = l ∧ (s.conns c).report ≠ 0) :
      Step s (.poll l returned) (s.setLoop l { s.loops l with
        phase := .handling, active := s.dispatched returned })
  | handle {s : TcpServer} (l : Option Nat) (n : Option Nat) (kernel : Kernel) {c : Nat}
      {h : Handler} {rest : List (Nat × Handler)} (here : (s.loops l).phase = .handling)
      (next : (s.loops l).active = (c, h) :: rest)
      (reads : h = .read → (s.conns c).socket.Reads n) :
      Step s (.handle l n kernel)
        ((s.setLoop l { s.loops l with active := rest }).runHandler c n kernel h)
  | swap {s : TcpServer} (l : Option Nat) (here : (s.loops l).phase = .handling)
      (handled : (s.loops l).active = []) :
      Step s (.swap l) (s.setLoop l { s.loops l with
        phase := .running, functors := (s.loops l).pendingFunctors, pendingFunctors := [] })
  | runFunctor {s : TcpServer} (l : Option Nat) (kernel : Kernel) {f : Functor}
      {fs : List Functor} (here : (s.loops l).phase = .running)
      (next : (s.loops l).functors = f :: fs) :
      Step s (.runFunctor l kernel)
        ((s.setLoop l { s.loops l with functors := fs }).runFunctor home kernel f)
  | finish {s : TcpServer} (l : Option Nat) (here : (s.loops l).phase = .running)
      (done : (s.loops l).functors = []) :
      Step s (.finish l) (s.setLoop l { s.loops l with phase := .polling })
  | send {s : TcpServer} {c : Nat} {message : Bytes} {kernel : Kernel}
      (here : (s.loops (some (home c))).phase ≠ .polling)
      (connected : (s.conns c).state = .connected) :
      Step s (.send c true message kernel)
        (s.setConn c ((s.conns c).sendInLoop message kernel))
  | queueSend {s : TcpServer} {c : Nat} {message : Bytes} {kernel : Kernel} (known : s.Known c) :
      Step s (.send c false message kernel)
        (s.queueInLoop (some (home c)) (.sendInLoop c message))
  | shutdown {s : TcpServer} {c : Nat} (here : (s.loops (some (home c))).phase ≠ .polling)
      (connected : (s.conns c).state = .connected) :
      Step s (.shutdown c true) (s.setConn c { s.conns c with state := .disconnecting })
  | queueShutdown {s : TcpServer} {c : Nat} (connected : (s.conns c).state = .connected) :
      Step s (.shutdown c false)
        ((s.setConn c { s.conns c with state := .disconnecting }).queueInLoop
          (some (home c)) (.shutdownInLoop c))
  | forceClose {s : TcpServer} {c : Nat} (known : s.Known c) :
      Step s (.forceClose c) (s.queueInLoop (some (home c)) (.handleClose c))

/-- `EventLoopThreadPool::getNextLoop`: the loop it returns, and `next_`. -/
def getNextLoop (size next : Nat) : Nat × Nat :=
  (next, if size ≤ next + 1 then 0 else next + 1)

/-- The loops that connections get one after another, the first one being number 1. -/
def roundRobin (size c : Nat) : Nat :=
  (getNextLoop size ((fun next => (getNextLoop size next).2)^[c - 1] 0)).1

theorem roundRobin_eq {size : Nat} (threads : 0 < size) (c : Nat) :
    roundRobin size c = (c - 1) % size := by
  simp only [roundRobin, getNextLoop]
  induction c - 1 with
  | zero => simp
  | succ k ih =>
      rw [Function.iterate_succ_apply', ih, ← Nat.mod_add_mod]
      have below : k % size < size := Nat.mod_lt k threads
      by_cases last : size ≤ k % size + 1
      · have all : k % size + 1 = size := by omega
        rw [if_pos last, all, Nat.mod_self]
      · rw [if_neg last]
        exact (Nat.mod_eq_of_lt (by omega)).symm

/-! ## Functors and handlers are where they belong -/

/-- The loop a functor is queued to. -/
def Functor.loop : Functor → Option Nat
  | .destroyConnectionInLoop _ => none
  | .connectEstablished c => some (home c)
  | .connectDestroyed c => some (home c)
  | .sendInLoop c _ => some (home c)
  | .shutdownInLoop c => some (home c)
  | .handleClose c => some (home c)

/-- All the functors queued to a loop that have not been run. -/
def Loop.waiting (loop : Loop) : List Functor := loop.functors ++ loop.pendingFunctors

structure Loop.Placed (l : Option Nat) (loop : Loop) : Prop where
  active : ∀ p ∈ loop.active, some (home p.1) = l
  waiting : ∀ f ∈ loop.waiting, f.loop home = l
  handled : loop.phase ≠ .handling → loop.active = []
  batch : loop.phase ≠ .running → loop.functors = []

/-- Each loop has the handlers and functors that are its own. -/
def Placed (s : TcpServer) : Prop := ∀ l, (s.loops l).Placed home l

variable {home} {s s' : TcpServer} {a : Action} {c d : Nat} {l : Option Nat} {f : Functor}

theorem placed_start : start.Placed home := by
  intro l
  constructor <;> simp [start, Loop.waiting]

theorem placed_setLoop (placed : s.Placed home) {loop : Loop} (own : loop.Placed home l) :
    (s.setLoop l loop).Placed home := by
  intro k
  by_cases same : k = l
  · subst same
    simpa [setLoop] using own
  · simpa [setLoop, same] using placed k

theorem placed_queueInLoop (placed : s.Placed home) (own : f.loop home = l) :
    (s.queueInLoop l f).Placed home := by
  obtain ⟨active, waiting, handled, batch⟩ := placed l
  refine placed_setLoop placed ⟨active, fun g mem => ?_, handled, batch⟩
  simp only [Loop.waiting, ← List.append_assoc, List.mem_append, List.mem_singleton] at mem
  rcases mem with before | rfl
  · exact waiting g (List.mem_append.mpr before)
  · exact own

theorem placed_handleClose (placed : s.Placed home) (c : Nat) : (s.handleClose c).Placed home :=
  placed_queueInLoop (s := s.setConn c _) placed rfl

theorem placed_runHandler (placed : s.Placed home) (c : Nat) (n : Option Nat) (kernel : Kernel)
    (h : Handler) : (s.runHandler c n kernel h).Placed home := by
  cases h with
  | close => exact placed_handleClose placed c
  | error => exact placed
  | write => exact placed
  | read =>
      by_cases eof : n = some 0
      · simp only [runHandler, if_pos eof]
        exact placed_handleClose (s := s.setConn c _) placed c
      · simp only [runHandler, if_neg eof]
        exact placed

theorem placed_runFunctor (placed : s.Placed home) (kernel : Kernel) (f : Functor) :
    (s.runFunctor home kernel f).Placed home := by
  cases f with
  | destroyConnectionInLoop c =>
      exact placed_queueInLoop (s := s.erase c) placed rfl
  | connectEstablished c => exact placed
  | connectDestroyed c => exact placed
  | sendInLoop c message => exact placed
  | shutdownInLoop c => exact placed
  | handleClose c => exact placed_handleClose placed c

theorem mem_dispatched_iff {returned : List Nat} {h : Handler} :
    (c, h) ∈ s.dispatched returned ↔
      c ∈ returned ∧ h ∈ Channel.handleEvent (s.conns c).report := by
  simp [dispatched]

/-- **Every step leaves handlers and functors where they belong.** -/
theorem placed_step (placed : s.Placed home) (step : Step home s a s') : s'.Placed home := by
  cases step with
  | newConnection =>
      exact placed_queueInLoop
        (s := { s with connId := s.connId + 1, connection := s.connId :: s.connection }) placed rfl
  | receive => exact placed
  | fin => exact placed
  | raise => exact placed
  | poll l returned here distinct ready =>
      obtain ⟨active, waiting, -, batch⟩ := placed l
      refine placed_setLoop placed ⟨fun p mem => ?_, waiting, fun no => absurd rfl no,
        fun _ => batch (by simp [here])⟩
      exact (ready p.1 (mem_dispatched_iff.mp mem).1).1
  | handle l n kernel here next reads =>
      obtain ⟨active, waiting, -, batch⟩ := placed l
      apply placed_runHandler
      refine placed_setLoop placed ⟨fun p mem => active p ?_, waiting, fun no => absurd here no,
        batch⟩
      rw [next]
      exact List.mem_cons_of_mem _ mem
  | swap l here handled =>
      obtain ⟨active, waiting, -, -⟩ := placed l
      refine placed_setLoop placed ⟨active, fun f mem => waiting f ?_, fun _ => handled,
        fun no => absurd rfl no⟩
      simp only [Loop.waiting, List.append_nil] at mem
      exact List.mem_append_right _ mem
  | runFunctor l kernel here next =>
      obtain ⟨active, waiting, handled, -⟩ := placed l
      apply placed_runFunctor
      refine placed_setLoop placed ⟨active, fun f mem => waiting f ?_, handled,
        fun no => absurd here no⟩
      rw [Loop.waiting, next]
      exact List.mem_cons_of_mem _ mem
  | finish l here done =>
      obtain ⟨active, waiting, handled, -⟩ := placed l
      exact placed_setLoop placed ⟨active, waiting, fun _ => handled (by simp [here]), fun _ => done⟩
  | send => exact placed
  | queueSend => exact placed_queueInLoop placed rfl
  | shutdown => exact placed
  | queueShutdown => exact placed_queueInLoop (s := s.setConn _ _) placed rfl
  | forceClose => exact placed_queueInLoop placed rfl

/-! ## A peer that has closed is reported -/

/-- Every connection is in the epoll set as long as the user has it. -/
def AllWatched (s : TcpServer) : Prop := ∀ c, (s.conns c).Watched

theorem watched_setConn (watched : s.AllWatched) {conn : ServerConnection} (own : conn.Watched)
    (c : Nat) : (s.setConn c conn).AllWatched := by
  intro d
  by_cases same : d = c
  · subst same
    simpa [setConn] using own
  · simpa [setConn, same] using watched d

theorem watched_socket {conn : ServerConnection} (watched : conn.Watched) (socket : Socket) :
    ({ conn with socket := socket } : ServerConnection).Watched :=
  ⟨watched.mirrors, watched.reading, watched.added⟩

theorem watched_state {conn : ServerConnection} (watched : conn.Watched) (state : State) :
    ({ conn with state := state } : ServerConnection).Watched :=
  ⟨watched.mirrors, watched.reading, watched.added⟩

theorem watched_handleClose (watched : s.AllWatched) (c : Nat) : (s.handleClose c).AllWatched :=
  watched_setConn watched (ServerConnection.watched_handleClose (watched c)) c

theorem watched_runHandler (watched : s.AllWatched) (c : Nat) (n : Option Nat) (kernel : Kernel)
    (h : Handler) : (s.runHandler c n kernel h).AllWatched := by
  cases h with
  | close => exact watched_handleClose watched c
  | error => exact watched
  | write => exact watched_setConn watched (ServerConnection.watched_handleWrite (watched c) kernel) c
  | read =>
      have told : ((s.conns c).handleRead n).Watched := by
        refine ServerConnection.watched_called (watched_socket (watched c) _) ?_
        split <;> simp
      have read := watched_setConn watched told c
      by_cases eof : n = some 0
      · simp only [runHandler, if_pos eof]
        exact watched_handleClose read c
      · simp only [runHandler, if_neg eof]
        exact read

theorem watched_runFunctor (watched : s.AllWatched) (kernel : Kernel) (f : Functor) :
    (s.runFunctor home kernel f).AllWatched := by
  cases f with
  | connectEstablished c =>
      exact watched_setConn watched (ServerConnection.watched_connectEstablished (watched c)) c
  | connectDestroyed c =>
      exact watched_setConn watched (ServerConnection.watched_connectDestroyed (watched c)) c
  | sendInLoop c message =>
      exact watched_setConn watched
        (ServerConnection.watched_sendInLoop (watched c) message kernel) c
  | handleClose c => exact watched_handleClose watched c
  | destroyConnectionInLoop c => exact watched
  | shutdownInLoop c => exact watched

theorem watched_step (watched : s.AllWatched) (step : Step home s a s') : s'.AllWatched := by
  cases step with
  | receive c => exact watched_setConn watched (watched_socket (watched c) _) c
  | fin c => exact watched_setConn watched (watched_socket (watched c) _) c
  | raise c => exact watched_setConn watched (watched_socket (watched c) _) c
  | @handle l n kernel c h => exact watched_runHandler (s := s.setLoop l _) watched c n kernel h
  | runFunctor l kernel => exact watched_runFunctor (s := s.setLoop l _) watched kernel _
  | send =>
      exact watched_setConn watched (ServerConnection.watched_sendInLoop (watched _) _ _) _
  | shutdown => exact watched_setConn watched (watched_state (watched _) _) _
  | queueShutdown => exact watched_setConn watched (watched_state (watched _) _) _
  | _ => exact watched

/-- **A connection whose peer has closed is reported to be read** by every poll that
returns it, from `connectEstablished` until `connectDestroyed`, and `handleClose` makes no
difference. -/
theorem eof_reported {trace : List (TcpServer × Action)} {t : TcpServer}
    (run : Run (Step home) start trace t) (up : (t.conns c).Up)
    (eof : (t.conns c).socket.fin = true) :
    .read ∈ Channel.handleEvent (t.conns c).report := by
  have watched := run.invariant_last (I := AllWatched)
    (fun s a s' watched step => watched_step watched step)
    (fun c => ServerConnection.watched_fresh) c
  have entry : (t.conns c).registration.entry = some (t.conns c).channel.events := by
    rw [watched.mirrors, if_pos (watched.added up)]
  have asked : Channel.Has ((t.conns c).channel.events ||| Channel.POLLERR ||| Channel.POLLHUP)
      Channel.POLLIN := ((watched.reading up.1).or_left _).or_left _
  have ready : Channel.Has (t.conns c).socket.ready Channel.POLLIN := by
    have input : Channel.Has Channel.POLLIN Channel.POLLIN := BitVec.and_self
    simp only [Socket.ready, eof, or_true, if_true]
    exact input.or_left _
  rw [Channel.read_mem_handleEvent, ServerConnection.report, Poller.Registration.report, entry]
  exact (ready.and asked).reports (by decide) (by decide)

/-! ## The teardown of each connection -/

/-- The handlers of one connection. -/
def handlersOf (c : Nat) (active : List (Nat × Handler)) : List Handler :=
  active.filterMap fun p => if p.1 = c then some p.2 else none

variable (home) in
/-- What the server has to do with the end of a connection. -/
def teardown (s : TcpServer) (c : Nat) : Teardown where
  calls := (s.conns c).calls
  reported := handlersOf c (s.loops (some (home c))).active
  removing := (s.loops none).waiting.count (.destroyConnectionInLoop c)
  destroying := (s.loops (some (home c))).waiting.count (.connectDestroyed c)

theorem teardown_setConn (s : TcpServer) (c : Nat) (conn : ServerConnection) :
    (s.setConn c conn).teardown home c = { s.teardown home c with calls := conn.calls } := by
  simp [teardown, setConn]

theorem teardown_setConn_of_ne (different : c ≠ d) (conn : ServerConnection) :
    (s.setConn d conn).teardown home c = s.teardown home c := by
  simp [teardown, setConn, different]

theorem teardown_setConn_of_calls {conn : ServerConnection}
    (same : conn.calls = (s.conns d).calls) (c : Nat) :
    (s.setConn d conn).teardown home c = s.teardown home c := by
  by_cases here : c = d
  · subst here
    rw [teardown_setConn, same]
    rfl
  · exact teardown_setConn_of_ne here conn

/-- A change to an IO loop concerns the connections that live on it. -/
theorem teardown_setLoop_io (s : TcpServer) (c : Nat) (loop : Loop) :
    (s.setLoop (some (home c)) loop).teardown home c = { s.teardown home c with
      reported := handlersOf c loop.active
      destroying := loop.waiting.count (.connectDestroyed c) } := by
  simp [teardown, setLoop]

theorem teardown_setLoop_base (s : TcpServer) (c : Nat) (loop : Loop) :
    (s.setLoop none loop).teardown home c = { s.teardown home c with
      removing := loop.waiting.count (.destroyConnectionInLoop c) } := by
  simp [teardown, setLoop]

/-- A change to a loop that leaves a connection its handlers and functors. -/
theorem teardown_setLoop_of {loop : Loop}
    (active : l = some (home c) → handlersOf c loop.active = handlersOf c (s.loops l).active)
    (removing : loop.waiting.count (.destroyConnectionInLoop c) =
      (s.loops l).waiting.count (.destroyConnectionInLoop c))
    (destroying : loop.waiting.count (.connectDestroyed c) =
      (s.loops l).waiting.count (.connectDestroyed c)) :
    (s.setLoop l loop).teardown home c = s.teardown home c := by
  cases l with
  | none =>
      rw [teardown_setLoop_base, removing]
      rfl
  | some i =>
      by_cases here : i = home c
      · subst here
        rw [teardown_setLoop_io, active rfl, destroying]
        rfl
      · have elsewhere : home c ≠ i := fun same => here same.symm
        simp [teardown, setLoop, elsewhere]

/-- The next functor is taken to be run, and is not one of the connection's end. -/
theorem teardown_take_of {fs : List Functor} (next : (s.loops l).functors = f :: fs)
    (notRemoved : f ≠ .destroyConnectionInLoop c) (notDestroyed : f ≠ .connectDestroyed c) :
    (s.setLoop l { s.loops l with functors := fs }).teardown home c = s.teardown home c := by
  apply teardown_setLoop_of
  · exact fun _ => rfl
  · simp [Loop.waiting, next, List.count_cons_of_ne notRemoved]
  · simp [Loop.waiting, next, List.count_cons_of_ne notDestroyed]

@[simp] theorem waiting_queued (loop : Loop) (f : Functor) :
    Loop.waiting { loop with pendingFunctors := loop.pendingFunctors ++ [f] } =
      loop.waiting ++ [f] := by
  simp [Loop.waiting]

theorem teardown_queueInLoop_of (notRemoved : f ≠ .destroyConnectionInLoop c)
    (notDestroyed : f ≠ .connectDestroyed c) :
    (s.queueInLoop l f).teardown home c = s.teardown home c := by
  apply teardown_setLoop_of
  · exact fun _ => rfl
  · simp [List.count_eq_zero_of_not_mem, notRemoved.symm]
  · simp [List.count_eq_zero_of_not_mem, notDestroyed.symm]

theorem teardown_queueDestroyed (s : TcpServer) (c : Nat) :
    (s.queueInLoop (some (home c)) (.connectDestroyed c)).teardown home c = { s.teardown home c with
      destroying := (s.teardown home c).destroying + 1 } := by
  rw [queueInLoop, teardown_setLoop_io, waiting_queued]
  simp [teardown]

theorem teardown_erase (s : TcpServer) (d c : Nat) :
    (s.erase d).teardown home c = s.teardown home c := rfl

theorem teardown_handleClose (s : TcpServer) (c : Nat) :
    (s.handleClose c).teardown home c = { s.teardown home c with
      calls := (s.conns c).calls ++ [.handleClose, .closeCallback]
      removing := (s.teardown home c).removing + 1 } := by
  rw [handleClose, queueInLoop, teardown_setLoop_base, teardown_setConn, waiting_queued]
  simp [setConn, teardown, ServerConnection.handleClose, ServerConnection.called,
    ServerConnection.update]

theorem teardown_handleClose_of_ne (different : c ≠ d) :
    (s.handleClose d).teardown home c = s.teardown home c := by
  have other : (.destroyConnectionInLoop d : Functor) ≠ .destroyConnectionInLoop c := by
    simpa using different.symm
  rw [handleClose, teardown_queueInLoop_of other nofun, teardown_setConn_of_ne different]

@[simp] theorem calls_settle (conn : ServerConnection) (out : TcpConnection) :
    (conn.settle out).calls = conn.calls := by
  simp only [ServerConnection.settle]
  split <;> rfl

@[simp] theorem calls_handleWrite (conn : ServerConnection) (kernel : Kernel) :
    (conn.handleWrite kernel).calls = conn.calls ++ [.handleWrite] := by
  simp [ServerConnection.handleWrite, ServerConnection.called]

@[simp] theorem calls_sendInLoop (conn : ServerConnection) (message : Bytes) (kernel : Kernel) :
    (conn.sendInLoop message kernel).calls = conn.calls := by
  simp [ServerConnection.sendInLoop]

/-- The handler comes to `handleClose`. -/
def Closes (h : Handler) (n : Option Nat) : Prop := h = .close ∨ h = .read ∧ n = some 0

instance (h : Handler) (n : Option Nat) : Decidable (Closes h n) :=
  inferInstanceAs (Decidable (h = .close ∨ h = .read ∧ n = some 0))

/-- **What a handler does to its connection's end**: it makes calls, and those of
`handleClose` have the connection removed. -/
theorem teardown_runHandler (s : TcpServer) (c : Nat) (n : Option Nat) (kernel : Kernel)
    (h : Handler) :
    (¬ Closes h n ∧ ∃ calls, Teardown.Serves h calls ∧
      (s.runHandler c n kernel h).teardown home c =
        { s.teardown home c with calls := (s.teardown home c).calls ++ calls }) ∨
    (Closes h n ∧ ∃ calls, Teardown.Ends h calls ∧
      (s.runHandler c n kernel h).teardown home c = { s.teardown home c with
        calls := (s.teardown home c).calls ++ (calls ++ [.handleClose, .closeCallback])
        removing := (s.teardown home c).removing + 1 }) := by
  cases h with
  | close => exact .inr ⟨.inl rfl, [], .close, teardown_handleClose s c⟩
  | error => exact .inl ⟨by simp [Closes], [], .error, by simp [runHandler]⟩
  | write =>
      refine .inl ⟨by simp [Closes], [.handleWrite], .write, ?_⟩
      simp only [runHandler, teardown_setConn, calls_handleWrite]
      rfl
  | read =>
      match n with
      | none =>
          refine .inl ⟨by simp [Closes], [.handleRead], .read, ?_⟩
          simp only [runHandler, reduceCtorEq, if_false, teardown_setConn]
          rfl
      | some (k + 1) =>
          refine .inl ⟨by simp [Closes], [.handleRead, .messageCallback (k + 1)], .message _, ?_⟩
          simp only [runHandler, Option.some.injEq, Nat.add_one_ne_zero, if_false, teardown_setConn]
          rfl
      | some 0 =>
          refine .inr ⟨.inr ⟨rfl, rfl⟩, [.handleRead], .read, ?_⟩
          simp only [runHandler, if_true, teardown_handleClose, teardown_setConn]
          simp [setConn, teardown, ServerConnection.handleRead, ServerConnection.called]

theorem teardown_runHandler_of_ne (different : c ≠ d) (n : Option Nat) (kernel : Kernel)
    (h : Handler) : (s.runHandler d n kernel h).teardown home c = s.teardown home c := by
  cases h with
  | close => exact teardown_handleClose_of_ne different
  | error => rfl
  | write => exact teardown_setConn_of_ne different _
  | read =>
      simp only [runHandler]
      split
      · rw [teardown_handleClose_of_ne different, teardown_setConn_of_ne different]
      · exact teardown_setConn_of_ne different _

/-- If the next handler comes to `handleClose`, at most that of errors is left to be
called for its connection. -/
def ClosesLast (n : Option Nat) : List (Nat × Handler) → Prop
  | (c, h) :: rest => Closes h n → ∀ p ∈ rest, p.1 = c → p.2 = .error
  | [] => True

instance (n : Option Nat) : DecidablePred (ClosesLast n)
  | (c, h) :: rest => inferInstanceAs (Decidable (Closes h n → ∀ p ∈ rest, p.1 = c → p.2 = .error))
  | [] => inferInstanceAs (Decidable True)

/-- The next functor is no `handleClose` of a connection that has gone through it. -/
def ForcesOnce (s : TcpServer) : List Functor → Prop
  | .handleClose c :: _ => .handleClose ∉ (s.conns c).calls
  | _ => True

instance (s : TcpServer) : DecidablePred s.ForcesOnce
  | .handleClose c :: _ => inferInstanceAs (Decidable (.handleClose ∉ (s.conns c).calls))
  | [] | .connectEstablished _ :: _ | .destroyConnectionInLoop _ :: _ | .connectDestroyed _ :: _
  | .sendInLoop .. :: _ | .shutdownInLoop _ :: _ => inferInstanceAs (Decidable True)

/-- A connection that has gone through `handleClose` is ready for nothing that a poll
would report but an error, when one returns it; what closed it was the last of its
report; and it is not forced to close when it has gone through it. -/
def Quiet (s : TcpServer) : Action → Prop
  | .poll _ returned => ∀ c ∈ returned, .handleClose ∈ (s.conns c).calls →
      (s.conns c).report &&& Channel.Handled = 0
  | .handle l n _ => ClosesLast n (s.loops l).active
  | .runFunctor l _ => s.ForcesOnce (s.loops l).functors
  | _ => True

instance (s : TcpServer) : DecidablePred s.Quiet
  | .poll _ returned => inferInstanceAs (Decidable (∀ c ∈ returned,
      .handleClose ∈ (s.conns c).calls → (s.conns c).report &&& Channel.Handled = 0))
  | .handle l n _ => inferInstanceAs (Decidable (ClosesLast n (s.loops l).active))
  | .runFunctor l _ => inferInstanceAs (Decidable (s.ForcesOnce (s.loops l).functors))
  | .newConnection | .receive .. | .fin .. | .raise .. | .swap ..
  | .finish .. | .send .. | .shutdown .. | .forceClose .. => inferInstanceAs (Decidable True)

theorem mem_handlersOf_iff {active : List (Nat × Handler)} {h : Handler} :
    h ∈ handlersOf c active ↔ (c, h) ∈ active := by
  simp [handlersOf]

/-- A connection that has gone through `handleClose` gets nothing of a quiet poll. -/
theorem dispatched_quiet {returned : List Nat} (quiet : s.Quiet (.poll l returned)) (c : Nat)
    (closed : .handleClose ∈ (s.conns c).calls) :
    ∀ h ∈ handlersOf c (s.dispatched returned), h = .error := by
  intro h mem
  obtain ⟨called, reported⟩ := mem_dispatched_iff.mp (mem_handlersOf_iff.mp mem)
  exact Channel.handleEvent_of_silent (quiet c called closed) h reported

/-- The next handler of a loop, for its own connection and for the others. -/
theorem teardown_handle {n : Option Nat} {kernel : Kernel} {h : Handler}
    {rest : List (Nat × Handler)} (own : some (home d) = l)
    (next : (s.loops l).active = (d, h) :: rest) (c : Nat) :
    ∃ e, (s.teardown home c).Step e
        (((s.setLoop l { s.loops l with active := rest }).runHandler d n kernel h).teardown home c) ∧
      (s.Quiet (.handle l n kernel) → (s.teardown home c).Quiet e) := by
  subst own
  by_cases same : c = d
  · subst same
    have reported : (s.teardown home c).reported = h :: handlersOf c rest := by
      simp [teardown, handlersOf, next]
    rcases teardown_runHandler (s.setLoop (some (home c))
      { s.loops (some (home c)) with active := rest }) c n kernel h with
      ⟨-, calls, serves, result⟩ | ⟨closes, calls, ends, result⟩
    · refine ⟨.handle, ?_, fun _ => trivial⟩
      rw [result, teardown_setLoop_io]
      exact .handle reported serves
    · refine ⟨.close, ?_, fun quiet g mem => ?_⟩
      · rw [result, teardown_setLoop_io]
        exact .close reported ends
      · rw [reported] at mem
        simp only [Quiet, next, ClosesLast] at quiet
        exact quiet closes (c, g) (mem_handlersOf_iff.mp mem) rfl
  · have kept : (s.setLoop (some (home d)) { s.loops (some (home d)) with
        active := rest }).teardown home c = s.teardown home c := by
      refine teardown_setLoop_of (fun _ => ?_) rfl rfl
      simp [handlersOf, next, Ne.symm same]
    refine ⟨.none, ?_, fun _ => trivial⟩
    rw [teardown_runHandler_of_ne same, kept]
    exact .none

/-- The `handleClose` that is the next functor of its connection's loop. -/
theorem teardown_force {kernel : Kernel} {fs : List Functor}
    (next : (s.loops (some (home c))).functors = .handleClose c :: fs)
    (handled : (s.loops (some (home c))).active = []) :
    (s.teardown home c).Step .force (((s.setLoop (some (home c)) { s.loops (some (home c)) with
      functors := fs }).runFunctor home kernel (.handleClose c)).teardown home c) := by
  rw [runFunctor, teardown_handleClose, teardown_take_of next nofun nofun]
  exact .force (by simp [teardown, handled, handlersOf])

/-- The next functor of a loop, for the connection it is bound to and for the others. -/
theorem teardown_runFunctor {kernel : Kernel} {fs : List Functor} (own : f.loop home = l)
    (next : (s.loops l).functors = f :: fs) (handled : (s.loops l).active = []) (c : Nat) :
    ∃ e, (s.teardown home c).Step e (((s.setLoop l { s.loops l with
        functors := fs }).runFunctor home kernel f).teardown home c) ∧
      (s.Quiet (.runFunctor l kernel) → (s.teardown home c).Quiet e) := by
  have idle {u : TcpServer} (same : u.teardown home c = s.teardown home c) :
      ∃ e, (s.teardown home c).Step e (u.teardown home c) ∧
        (s.Quiet (.runFunctor l kernel) → (s.teardown home c).Quiet e) :=
    ⟨.none, same ▸ .none, fun _ => trivial⟩
  cases f with
  | connectEstablished d =>
      have taken : (s.setLoop l { s.loops l with functors := fs }).teardown home c =
          s.teardown home c := teardown_take_of next nofun nofun
      by_cases same : c = d
      · subst same
        refine ⟨.up, ?_, fun _ => trivial⟩
        rw [runFunctor, teardown_setConn, taken]
        exact .up
      · exact idle ((teardown_setConn_of_ne same _).trans taken)
  | destroyConnectionInLoop d =>
      have base : l = none := own.symm
      subst base
      by_cases same : c = d
      · subst same
        refine ⟨.remove, ?_, fun _ => trivial⟩
        rw [runFunctor, teardown_queueDestroyed, teardown_erase, teardown_setLoop_base]
        exact .remove (by simp [teardown, Loop.waiting, next])
      · have other : (.destroyConnectionInLoop d : Functor) ≠ .destroyConnectionInLoop c := by
          simpa using Ne.symm same
        have elsewhere : (.connectDestroyed d : Functor) ≠ .connectDestroyed c := by
          simpa using Ne.symm same
        refine idle ?_
        rw [runFunctor, teardown_queueInLoop_of (f := .connectDestroyed d) nofun elsewhere,
          teardown_erase]
        exact teardown_take_of next other nofun
  | connectDestroyed d =>
      have io : l = some (home d) := own.symm
      subst io
      by_cases same : c = d
      · subst same
        refine ⟨.down, ?_, fun _ => trivial⟩
        rw [runFunctor, teardown_setConn, teardown_setLoop_io]
        exact .down (by simp [teardown, Loop.waiting, next])
      · have other : (.connectDestroyed d : Functor) ≠ .connectDestroyed c := by
          simpa using Ne.symm same
        exact idle ((teardown_setConn_of_ne same _).trans (teardown_take_of next nofun other))
  | sendInLoop d message =>
      exact idle ((teardown_setConn_of_calls (calls_sendInLoop _ _ _) c).trans
        (teardown_take_of next nofun nofun))
  | shutdownInLoop d => exact idle (teardown_take_of next nofun nofun)
  | handleClose d =>
      by_cases same : c = d
      · subst same
        have io : l = some (home c) := own.symm
        subst io
        refine ⟨.force, teardown_force next handled, fun quiet => ?_⟩
        simp only [Quiet, next] at quiet
        exact quiet
      · exact idle ((teardown_handleClose_of_ne same).trans (teardown_take_of next nofun nofun))

/-- **Each step of the server is one step of each connection's teardown**, and a quiet
one if the server's is. -/
theorem teardown_step (placed : s.Placed home) (step : Step home s a s') (c : Nat) :
    ∃ e, (s.teardown home c).Step e (s'.teardown home c) ∧
      (s.Quiet a → (s.teardown home c).Quiet e) := by
  have idle {u : TcpServer} (same : u.teardown home c = s.teardown home c) :
      ∃ e, (s.teardown home c).Step e (u.teardown home c) ∧
        (s.Quiet a → (s.teardown home c).Quiet e) :=
    ⟨.none, same ▸ .none, fun _ => trivial⟩
  cases step with
  | newConnection => exact idle (teardown_queueInLoop_of nofun nofun)
  | receive => exact idle (teardown_setConn_of_calls (by rfl) c)
  | fin => exact idle (teardown_setConn_of_calls (by rfl) c)
  | raise => exact idle (teardown_setConn_of_calls (by rfl) c)
  | send => exact idle (teardown_setConn_of_calls (calls_sendInLoop _ _ _) c)
  | queueSend => exact idle (teardown_queueInLoop_of nofun nofun)
  | shutdown => exact idle (teardown_setConn_of_calls (by rfl) c)
  | queueShutdown =>
      refine idle ((teardown_queueInLoop_of (f := .shutdownInLoop _) nofun nofun).trans ?_)
      exact teardown_setConn_of_calls (by rfl) c
  | forceClose => exact idle (teardown_queueInLoop_of nofun nofun)
  | finish => exact idle (teardown_setLoop_of (fun _ => rfl) rfl rfl)
  | swap l here handled =>
      have batch := (placed l).batch (by simp [here])
      refine idle (teardown_setLoop_of (fun _ => rfl) ?_ ?_) <;> simp [Loop.waiting, batch]
  | poll l returned here distinct ready =>
      by_cases own : l = some (home c)
      · subst own
        refine ⟨.report (handlersOf c (s.dispatched returned)), ?_, fun quiet closed => ?_⟩
        · rw [teardown_setLoop_io]
          have handled := (placed (some (home c))).handled (by simp [here])
          exact .report (by simp [teardown, handled, handlersOf])
        · exact dispatched_quiet quiet c closed
      · exact idle (teardown_setLoop_of (fun same => absurd same own) rfl rfl)
  | @handle l n kernel d h rest here next reads =>
      exact teardown_handle ((placed l).active (d, h) (by simp [next])) next c
  | @runFunctor l kernel f fs here next =>
      have own : f.loop home = l := (placed l).waiting f (by simp [Loop.waiting, next])
      exact teardown_runFunctor own next ((placed l).handled (by simp [here])) c

/-- What is kept while the polls are quiet. -/
structure Sound (home : Nat → Nat) (s : TcpServer) : Prop where
  placed : s.Placed home
  books : ∀ c, (s.teardown home c).Books
  silent : ∀ c, (s.teardown home c).Silent

theorem sound_start : start.Sound home where
  placed := placed_start
  books c := by constructor <;> rfl
  silent c := ⟨.nil, fun closed => absurd closed List.not_mem_nil⟩

theorem sound_step (sound : s.Sound home) (quiet : s.Quiet a) (step : Step home s a s') :
    s'.Sound home where
  placed := placed_step sound.placed step
  books c := by
    obtain ⟨e, taken, -⟩ := teardown_step sound.placed step c
    exact Teardown.books_step (sound.books c) taken
  silent c := by
    obtain ⟨e, taken, kept⟩ := teardown_step sound.placed step c
    exact Teardown.silent_step (sound.silent c) (kept quiet) taken

/-- A step that is not quiet leaves some connection with a handler that is called after
`handleClose`. -/
theorem doomed_of_noisy (placed : s.Placed home) (noisy : ¬ s.Quiet a)
    (step : Step home s a s') : ∃ c, (s'.teardown home c).Doomed := by
  cases step with
  | poll l returned here distinct ready =>
      simp only [Quiet, not_forall] at noisy
      obtain ⟨c, called, closed, heard⟩ := noisy
      obtain ⟨h, reported, other⟩ := Channel.handleEvent_of_heard heard
      obtain ⟨own, -⟩ := ready c called
      subst own
      refine ⟨c, ?_⟩
      rw [teardown_setLoop_io]
      exact .inr ⟨closed, h, mem_handlersOf_iff.mpr (mem_dispatched_iff.mpr ⟨called, reported⟩), other⟩
  | @handle l n kernel c h rest here next reads =>
      simp only [Quiet, next, ClosesLast, not_forall] at noisy
      obtain ⟨closes, ⟨d, g⟩, mem, same, heard⟩ := noisy
      have own : some (home c) = l := (placed l).active (c, h) (by simp [next])
      subst own
      have here : d = c := same
      subst here
      refine ⟨d, ?_⟩
      rcases teardown_runHandler (s.setLoop (some (home d))
        { s.loops (some (home d)) with active := rest }) d n kernel h with
        ⟨serves, -⟩ | ⟨-, calls, ends, result⟩
      · exact absurd closes serves
      · rw [result, teardown_setLoop_io]
        exact .inr ⟨by simp, g, mem_handlersOf_iff.mpr mem, heard⟩
  | @runFunctor l kernel f fs here next =>
      cases f with
      | handleClose d =>
          have own : some (home d) = l :=
            (placed l).waiting (.handleClose d) (by simp [Loop.waiting, next])
          subst own
          have closed : .handleClose ∈ (s.conns d).calls := by
            simpa [Quiet, next, ForcesOnce] using noisy
          have handled := (placed (some (home d))).handled (by simp [here])
          exact ⟨d, Teardown.doomed_of_force (t := s.teardown home d) closed
            (teardown_force next handled)⟩
      | _ => exact absurd (by simp [Quiet, next, ForcesOnce]) noisy
  | _ => exact absurd trivial noisy

/-- When all that was reported has been handled, what was to go wrong has. -/
theorem not_silenced_of_run {trace : List (TcpServer × Action)} {t : TcpServer}
    (placed : s.Placed home) (run : Run (Step home) s trace t)
    (doomed : (s.teardown home c).Doomed) (handled : ∀ l, (t.loops l).active = []) :
    ¬ Silenced (t.conns c).calls := by
  have kept := run.invariant_last (I := fun s => s.Placed home ∧ (s.teardown home c).Doomed)
    (fun s a s' inv step => by
      obtain ⟨e, taken, -⟩ := teardown_step inv.1 step c
      exact ⟨placed_step inv.1 step, Teardown.doomed_step inv.2 taken⟩) ⟨placed, doomed⟩
  rcases kept.2 with noisy | ⟨-, h, reported, -⟩
  · exact noisy
  · simp [teardown, handled, handlersOf] at reported

/-- **Every connection is closed once** in a run in which no poll reports a connection
that has gone through `handleClose`, none is reported writable, or urgent, behind
the event that closes it, and none is forced to close that is closed. In any other run some
connection is not, when what has been reported is handled. -/
theorem connections_closed_once (home : Nat → Nat) {trace : List (TcpServer × Action)}
    {t : TcpServer} (run : Run (Step home) start trace t) :
    ((∀ p ∈ trace, p.1.Quiet p.2) →
      Run.Throughout (fun s => ∀ c, ClosedOnce (s.conns c).calls) trace t) ∧
    ((∀ l, (t.loops l).active = []) →
      Run.Throughout (fun s => ∀ c, ClosedOnce (s.conns c).calls) trace t →
        ∀ p ∈ trace, p.1.Quiet p.2) := by
  refine ⟨fun quiet => ?_, fun handled closed => ?_⟩
  · have sound := run.invariant_while (I := Sound home) (C := Quiet)
      (fun s a s' sound quiet step => sound_step sound quiet step) sound_start quiet
    apply sound.imp
    intro s sound c
    exact Teardown.closedOnce (sound.books c) (sound.silent c)
  · intro p mem
    by_contra noisy
    obtain ⟨before, after, rfl⟩ := List.append_of_mem mem
    obtain ⟨u, early, late⟩ := run.split
    have placed := early.invariant_last (I := Placed home)
      (fun s a s' placed step => placed_step placed step) placed_start
    cases late with
    | cons step rest =>
        obtain ⟨c, doomed⟩ := doomed_of_noisy placed noisy step
        exact not_silenced_of_run (placed_step placed step) rest doomed handled
          (closed.2 c).silenced

/-- A peer closes; the connection is removed and destroyed before its loop polls again. -/
theorem closed_before_poll : ∃ trace t, Run (Step (roundRobin 3)) start trace t ∧
    (t.conns 1).calls.count .closeCallback = 1 ∧ ClosedOnce (t.conns 1).calls := by
  have run : Run (Step (roundRobin 3)) start _ _ :=
    .cons (.poll none [] rfl .nil nofun) <| .cons (.newConnection rfl) <|
    .cons (.poll (some 0) [] rfl .nil nofun) <| .cons (.swap (some 0) rfl rfl) <|
    .cons (.runFunctor (some 0) .error rfl rfl) <| .cons (.finish (some 0) rfl rfl) <|
    .cons (.fin 1) <| .cons (.poll (some 0) [1] rfl (by decide) (by decide)) <|
    .cons (.handle (some 0) (some 0) .error rfl rfl fun _ => by decide) <|
    .cons (.swap none rfl rfl) <| .cons (.runFunctor none .error rfl rfl) <|
    .cons (.swap (some 0) rfl rfl) <| .cons (.runFunctor (some 0) .error rfl rfl) <|
    .cons (.finish (some 0) rfl rfl) <| .nil _
  exact ⟨_, _, run, by decide, ((connections_closed_once _ run).1 (by decide)).2 1⟩

/-- A peer closes; the loop of the connection polls again before the base loop has
removed it, is told of the same end of file, and the connection is closed, removed and
destroyed twice. -/
theorem closed_twice : ∃ trace t, Run (Step (roundRobin 3)) start trace t ∧
    (t.conns 1).calls.count .closeCallback = 2 ∧
    (t.conns 1).calls.count (.connectionCallback .disconnected) = 2 ∧
    ¬ Silenced (t.conns 1).calls := by
  have run : Run (Step (roundRobin 3)) start _ _ :=
    .cons (.poll none [] rfl .nil nofun) <| .cons (.newConnection rfl) <|
    .cons (.poll (some 0) [] rfl .nil nofun) <| .cons (.swap (some 0) rfl rfl) <|
    .cons (.runFunctor (some 0) .error rfl rfl) <| .cons (.finish (some 0) rfl rfl) <|
    .cons (.fin 1) <| .cons (.poll (some 0) [1] rfl (by decide) (by decide)) <|
    .cons (.handle (some 0) (some 0) .error rfl rfl fun _ => by decide) <|
    .cons (.swap (some 0) rfl rfl) <| .cons (.finish (some 0) rfl rfl) <|
    -- between `handleClose` and `connectDestroyed`
    .cons (.poll (some 0) [1] rfl (by decide) (by decide)) <|
    .cons (.handle (some 0) (some 0) .error rfl rfl fun _ => by decide) <|
    .cons (.swap none rfl rfl) <| .cons (.runFunctor none .error rfl rfl) <|
    .cons (.runFunctor none .error rfl rfl) <| .cons (.swap (some 0) rfl rfl) <|
    .cons (.runFunctor (some 0) .error rfl rfl) <|
    .cons (.runFunctor (some 0) .error rfl rfl) <| .nil _
  refine ⟨_, _, run, by decide, by decide, ?_⟩
  rw [Silenced]
  decide

end TcpServer

end LaliRpc.Net
