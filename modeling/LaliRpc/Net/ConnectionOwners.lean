/-
# Net.ConnectionOwners — who keeps a connection alive

A `TcpConnection` lives as long as somebody has a `TcpConnectionPtr` to it: the client
or the server it belongs to, a functor bound to the pointer, or a thread with a copy of
its own. A loop keeps the functors of a batch until the whole batch has been run.
`sendInLoop`, `shutdownInLoop` and the `handleClose` of `forceClose` are queued with a
bare `this` and own nothing.

Any number of loops, clients and threads take steps in any order. What is queued is
safe (`Sound`) if its connection has an owner and, for a `sendInLoop`, is not destroyed.
That lasts exactly while no step gives up the last owner of a connection with a bare
functor in a queue, and no `sendInLoop` is left behind a `connectDestroyed`
(`queued_work_owned_iff`). `~TcpClient` on the loop's thread gives up the last owner
right behind its `forceClose` (`closed_unowned`).
-/
import LaliRpc.Net.TcpConnection

namespace LaliRpc.Net

open LaliRpc.Theory

set_option autoImplicit false

/-- The thread of a loop, or another. -/
inductive Thread where
  | loop (l : Nat)
  | other (n : Nat)
  deriving DecidableEq, Repr

/-- What `closeCallback_` is bound to. -/
inductive CloseCallback where
  /-- of the numbered `TcpClient` -/
  | removeConnection (client : Nat)
  | removeConnectInLoop
  /-- of the `TcpServer` -/
  | destroyConnection
  deriving DecidableEq, Repr

/-- A functor with the connection it is for. -/
inductive Ownership.Functor where
  | connectEstablished (c : Nat)
  | connectDestroyed (c : Nat)
  | setCloseCallback (c : Nat)
  | destroyConnectionInLoop (c : Nat)
  /-- `writeCompleteCallback_` or `highWaterMarkCallback_` -/
  | callback (c : Nat)
  | sendInLoop (c : Nat)
  | shutdownInLoop (c : Nat)
  | handleClose (c : Nat)
  deriving DecidableEq, Repr

namespace Ownership.Functor

def conn : Functor → Nat
  | connectEstablished c | connectDestroyed c | setCloseCallback c | destroyConnectionInLoop c
  | callback c | sendInLoop c | shutdownInLoop c | handleClose c => c

/-- The functor is bound to a `TcpConnectionPtr`, and not to `this`. -/
def Shares : Functor → Prop
  | sendInLoop _ | shutdownInLoop _ | handleClose _ => False
  | _ => True

instance : DecidablePred Shares := fun f => by
  cases f <;> unfold Shares <;> infer_instance

end Ownership.Functor

/-- Where a thread is between its steps. -/
inductive Ownership.Call where
  | none
  /-- in `send`, having found the state `Connected` -/
  | sending (c : Nat)
  /-- in `shutdown`, behind `setState(Disconnecting)` -/
  | shutting (c : Nat)
  /-- in `~TcpClient`, with its `conn` and `unique` -/
  | closing (client c : Nat) (unique : Bool)
  /-- the same, behind the `runInLoop` of `setCloseCallback` -/
  | forcing (client c : Nat) (unique : Bool)
  /-- at the end of it -/
  | releasing (client c : Nat)
  deriving DecidableEq, Repr

structure Ownership.Conn where
  state : State
  closeCallback : CloseCallback
  /-- `connectDestroyed` has run. -/
  destroyed : Bool

structure Ownership.Client where
  alive : Bool
  connection : Option Nat

/-- A loop's functors: queued, swapped out and still to be run, and run in this batch. -/
structure Ownership.Loop where
  pendingFunctors : List Ownership.Functor
  functors : List Ownership.Functor
  ran : List Ownership.Functor

/-- Any number of clients and a server with their connections, the loops, and the threads
with their copies of pointers. -/
structure Ownership where
  conns : Nat → Ownership.Conn
  clients : Nat → Ownership.Client
  /-- the server's `connection_` -/
  server : List Nat
  loops : Nat → Ownership.Loop
  calls : Thread → Ownership.Call
  held : Thread → List Nat

namespace Ownership

/-- There is a client of every number, and no connection. -/
def start : Ownership where
  conns := fun _ => ⟨.connecting, .removeConnectInLoop, false⟩
  clients := fun _ => ⟨true, none⟩
  server := []
  loops := fun _ => ⟨[], [], []⟩
  calls := fun _ => .none
  held := fun _ => []

def setConn (s : Ownership) (c : Nat) (conn : Conn) : Ownership :=
  { s with conns := Function.update s.conns c conn }

def setClient (s : Ownership) (i : Nat) (client : Client) : Ownership :=
  { s with clients := Function.update s.clients i client }

def setLoop (s : Ownership) (l : Nat) (loop : Loop) : Ownership :=
  { s with loops := Function.update s.loops l loop }

def setCall (s : Ownership) (t : Thread) (call : Call) : Ownership :=
  { s with calls := Function.update s.calls t call }

def queueInLoop (s : Ownership) (l : Nat) (cb : Functor) : Ownership :=
  s.setLoop l { s.loops l with pendingFunctors := (s.loops l).pendingFunctors ++ [cb] }

/-- A thread gets a copy of a pointer. -/
def hold (s : Ownership) (t : Thread) (c : Nat) : Ownership :=
  { s with held := Function.update s.held t (c :: s.held t) }

/-- A thread gives one of its copies up. -/
def letGo (s : Ownership) (t : Thread) (c : Nat) : Ownership :=
  { s with held := Function.update s.held t ((s.held t).erase c) }

/-- `connection_.erase`. -/
def erase (s : Ownership) (c : Nat) : Ownership := { s with server := s.server.erase c }

/-- The loop goes on to its next functor. -/
def take (s : Ownership) (l : Nat) (f : Functor) (fs : List Functor) : Ownership :=
  s.setLoop l { s.loops l with functors := fs, ran := (s.loops l).ran ++ [f] }

def setState (s : Ownership) (c : Nat) (state : State) : Ownership :=
  s.setConn c { s.conns c with state := state }

def setCloseCallback (s : Ownership) (c : Nat) : Ownership :=
  s.setConn c { s.conns c with closeCallback := .removeConnectInLoop }

def connectDestroyed (s : Ownership) (c : Nat) : Ownership :=
  s.setConn c { s.conns c with state := .disconnected, destroyed := true }

-- the loop that a connection is on, and the loop of the server
variable (home : Nat → Nat) (base : Nat)

/-- `TcpClient::newConnection` up to `connectEstablished`. -/
def newConnection (s : Ownership) (i c : Nat) : Ownership :=
  ((s.setConn c ⟨.connecting, .removeConnection i, false⟩).setClient i
    { s.clients i with connection := some c }).hold (.loop (home c)) c

/-- `TcpServer::newConnection`. It names the connection after `connId_`, an `int`: the server
accepts fewer than 2^31 of them, so that no name comes again. -/
def accept (s : Ownership) (c : Nat) : Ownership :=
  let s := { s.setConn c ⟨.connecting, .destroyConnection, false⟩ with
    server := c :: s.server }
  if home c = base then s.setState c .connected else s.queueInLoop (home c) (.connectEstablished c)

/-- `TcpServer::destroyConnectionInLoop`. -/
def destroyConnectionInLoop (s : Ownership) (c : Nat) : Ownership :=
  (s.erase c).queueInLoop (home c) (.connectDestroyed c)

/-- `handleClose`, with what `closeCallback_` does. It asserts the state, and does not
depend on it. -/
def handleClose (s : Ownership) (c : Nat) : Ownership :=
  match (s.conns c).closeCallback with
  | .removeConnection i =>
      (s.setClient i { s.clients i with connection := none }).queueInLoop (home c)
        (.connectDestroyed c)
  | .removeConnectInLoop => s.queueInLoop (home c) (.connectDestroyed c)
  | .destroyConnection =>
      if home c = base then s.destroyConnectionInLoop home c
      else s.queueInLoop base (.destroyConnectionInLoop c)

/-- `sendInLoop`, which may queue one of the two callbacks. -/
def sendInLoop (s : Ownership) (c : Nat) (notify : Bool) : Ownership :=
  if notify then s.queueInLoop (home c) (.callback c) else s

/-- The end of `shutdown`: `shutdownInLoop` in place, or queued. -/
def runShutdownInLoop (s : Ownership) (t : Thread) (c : Nat) : Ownership :=
  if t = .loop (home c) then s else s.queueInLoop (home c) (.shutdownInLoop c)

def runFunctor (s : Ownership) (notify : Bool) : Functor → Ownership
  | .connectEstablished c => s.setState c .connected
  | .connectDestroyed c => s.connectDestroyed c
  | .setCloseCallback c => s.setCloseCallback c
  | .destroyConnectionInLoop c => s.destroyConnectionInLoop home c
  | .sendInLoop c => s.sendInLoop home c notify
  | .handleClose c => s.handleClose home base c
  | .shutdownInLoop _ | .callback _ => s

/-! ## Owners -/

/-- Where a `TcpConnectionPtr` can be. -/
inductive Owner where
  /-- `connection_` of a client -/
  | client (i : Nat)
  /-- `connection_` of the server -/
  | server
  /-- a copy, a local variable or a running callback's argument -/
  | thread (t : Thread)
  /-- a functor that a loop still has to run -/
  | functor (l : Nat)
  /-- a functor that it has run in this batch -/
  | ran (l : Nat)
  deriving DecidableEq, Repr

/-- The functor waits for this loop. -/
def WaitsIn (s : Ownership) (l : Nat) (f : Functor) : Prop :=
  f ∈ (s.loops l).pendingFunctors ∨ f ∈ (s.loops l).functors

def Waits (s : Ownership) (f : Functor) : Prop := ∃ l, s.WaitsIn l f

def Owns (s : Ownership) : Owner → Nat → Prop
  | .client i, c => (s.clients i).connection = some c
  | .server, c => c ∈ s.server
  | .thread t, c => c ∈ s.held t
  | .functor l, c => ∃ f, s.WaitsIn l f ∧ f.Shares ∧ f.conn = c
  | .ran l, c => ∃ f ∈ (s.loops l).ran, f.Shares ∧ f.conn = c

def Owned (s : Ownership) (c : Nat) : Prop := ∃ o, s.Owns o c

/-- What the loops are going to run finds its connection alive, and no message is sent on
a connection that is destroyed. -/
structure Sound (s : Ownership) : Prop where
  owned : ∀ f, s.Waits f → s.Owned f.conn
  before : ∀ c, s.Waits (.sendInLoop c) → (s.conns c).destroyed = false

/-! ## Steps -/

inductive Action where
  /-- A client's connector has a connection for it. -/
  | newConnection (i c : Nat)
  | connectEstablished (c : Nat)
  | accept (c : Nat)
  /-- A thread gets a pointer: from `getconnection`, as the argument of a callback, from
  another thread. -/
  | acquire (t : Thread) (c : Nat)
  | drop (t : Thread) (c : Nat)
  | send (t : Thread) (c : Nat) (notify : Bool)
  | queueSend (t : Thread)
  | shutdown (t : Thread) (c : Nat)
  | runShutdownInLoop (t : Thread)
  | forceClose (t : Thread) (c : Nat)
  /-- `TcpClient::disconnect`. -/
  | disconnect (t : Thread) (i : Nat)
  /-- The loop handles the event of a peer that has closed. -/
  | peerClose (c : Nat)
  | swap (l : Nat)
  | runFunctor (l : Nat) (notify : Bool)
  | finish (l : Nat)
  /-- `~TcpClient`, up to the end of its locked section. -/
  | destroy (t : Thread) (i : Nat)
  | replaceCallback (t : Thread)
  | force (t : Thread)
  | release (t : Thread)

/-- The thread can make a call with its copy of the pointer. -/
def CanCall (s : Ownership) (t : Thread) (c : Nat) : Prop := s.calls t = .none ∧ c ∈ s.held t

/-- Nobody has a pointer to the connection, and no functor is for it. -/
def Fresh (s : Ownership) (c : Nat) : Prop := ¬ s.Owned c ∧ ∀ f, s.Waits f → f.conn ≠ c

/-- What can happen next. -/
inductive Step : Ownership → Action → Ownership → Prop where
  | newConnection {s : Ownership} {i c : Nat} (free : s.calls (.loop (home c)) = .none)
      (alive : (s.clients i).alive = true) (fresh : s.Fresh c) :
      Step s (.newConnection i c) (s.newConnection home i c)
  | connectEstablished {s : Ownership} {c : Nat} (free : s.CanCall (.loop (home c)) c)
      (connecting : (s.conns c).state = .connecting) :
      Step s (.connectEstablished c) (s.setState c .connected)
  | accept {s : Ownership} {c : Nat} (free : s.calls (.loop base) = .none)
      (fresh : s.Fresh c) : Step s (.accept c) (s.accept home base c)
  | acquire {s : Ownership} {t : Thread} {c : Nat} (free : s.calls t = .none) (owned : s.Owned c) :
      Step s (.acquire t c) (s.hold t c)
  | drop {s : Ownership} {t : Thread} {c : Nat} (free : s.CanCall t c) :
      Step s (.drop t c) (s.letGo t c)
  | sendHere {s : Ownership} {c : Nat} {notify : Bool} (free : s.CanCall (.loop (home c)) c)
      (connected : (s.conns c).state = .connected) :
      Step s (.send (.loop (home c)) c notify) (s.sendInLoop home c notify)
  | send {s : Ownership} {t : Thread} {c : Nat} {notify : Bool} (free : s.CanCall t c)
      (elsewhere : t ≠ .loop (home c)) (connected : (s.conns c).state = .connected) :
      Step s (.send t c notify) (s.setCall t (.sending c))
  | queueSend {s : Ownership} {t : Thread} {c : Nat} (here : s.calls t = .sending c) :
      Step s (.queueSend t) ((s.queueInLoop (home c) (.sendInLoop c)).setCall t .none)
  | shutdown {s : Ownership} {t : Thread} {c : Nat} (free : s.CanCall t c)
      (connected : (s.conns c).state = .connected) :
      Step s (.shutdown t c) ((s.setState c .disconnecting).setCall t (.shutting c))
  | runShutdownInLoop {s : Ownership} {t : Thread} {c : Nat} (here : s.calls t = .shutting c) :
      Step s (.runShutdownInLoop t) ((s.runShutdownInLoop home t c).setCall t .none)
  | forceClose {s : Ownership} {t : Thread} {c : Nat} (free : s.CanCall t c) :
      Step s (.forceClose t c) (s.queueInLoop (home c) (.handleClose c))
  | disconnect {s : Ownership} {t : Thread} {i c : Nat} (free : s.calls t = .none)
      (alive : (s.clients i).alive = true) (some : (s.clients i).connection = some c)
      (connected : (s.conns c).state = .connected) :
      Step s (.disconnect t i) ((s.setState c .disconnecting).runShutdownInLoop home t c)
  | peerClose {s : Ownership} {c : Nat} (free : s.calls (.loop (home c)) = .none)
      (between : (s.loops (home c)).functors = [] ∧ (s.loops (home c)).ran = [])
      (registered : (s.conns c).state ≠ .connecting ∧ (s.conns c).destroyed = false)
      (owned : s.Owned c) : Step s (.peerClose c) (s.handleClose home base c)
  | swap {s : Ownership} {l : Nat} (free : s.calls (.loop l) = .none)
      (between : (s.loops l).functors = [] ∧ (s.loops l).ran = []) :
      Step s (.swap l) (s.setLoop l ⟨[], (s.loops l).pendingFunctors, []⟩)
  | runFunctor {s : Ownership} {l : Nat} {notify : Bool} {f : Functor} {fs : List Functor}
      (free : s.calls (.loop l) = .none) (first : (s.loops l).functors = f :: fs) :
      Step s (.runFunctor l notify) ((s.take l f fs).runFunctor home base notify f)
  | finish {s : Ownership} {l : Nat} (free : s.calls (.loop l) = .none)
      (done : (s.loops l).functors = []) :
      Step s (.finish l) (s.setLoop l { s.loops l with ran := [] })
  | destroyEmpty {s : Ownership} {t : Thread} {i : Nat} (free : s.calls t = .none)
      (alive : (s.clients i).alive = true) (nothing : (s.clients i).connection = none) :
      Step s (.destroy t i) (s.setClient i ⟨false, none⟩)
  | destroy {s : Ownership} {t : Thread} {i c : Nat} {unique : Bool} (free : s.calls t = .none)
      (alive : (s.clients i).alive = true) (some : (s.clients i).connection = some c)
      (only : unique = true ↔ ∀ o, s.Owns o c → o = .client i) :
      Step s (.destroy t i) (((s.setClient i ⟨false, .some c⟩).hold t c).setCall t
        (.closing i c unique))
  | replaceHere {s : Ownership} {i c : Nat} {unique : Bool}
      (here : s.calls (.loop (home c)) = .closing i c unique) :
      Step s (.replaceCallback (.loop (home c)))
        ((s.setCloseCallback c).setCall (.loop (home c)) (.forcing i c unique))
  | replace {s : Ownership} {t : Thread} {i c : Nat} {unique : Bool}
      (here : s.calls t = .closing i c unique) (elsewhere : t ≠ .loop (home c)) :
      Step s (.replaceCallback t)
        ((s.queueInLoop (home c) (.setCloseCallback c)).setCall t (.forcing i c unique))
  | force {s : Ownership} {t : Thread} {i c : Nat} {unique : Bool}
      (here : s.calls t = .forcing i c unique) :
      Step s (.force t) ((if unique then s.queueInLoop (home c) (.handleClose c) else s).setCall t
        (.releasing i c))
  | release {s : Ownership} {t : Thread} {i c : Nat} (here : s.calls t = .releasing i c) :
      Step s (.release t) (((s.letGo t c).setClient i ⟨false, none⟩).setCall t .none)

/-! ## The condition -/

/-- The owners that lose a connection when this one is closed: the client's `connection_`
is reset, whichever connection it holds. The connection that is closed is not lost, as it
is bound to a functor. -/
def ClosingDrops (s : Ownership) (d : Nat) : Owner → Nat → Prop
  | .client i, c => (s.conns d).closeCallback = .removeConnection i ∧ c ≠ d
  | _, _ => False

/-- The thread's only copy of this pointer goes. -/
def LastCopy (s : Ownership) (t : Thread) (d : Nat) : Owner → Nat → Prop
  | .thread u, c => u = t ∧ c = d ∧ (s.held t).count d = 1
  | _, _ => False

/-- The step takes the connection from this owner. -/
def Drops (s : Ownership) : Action → Owner → Nat → Prop
  | .newConnection i _, o, _ => o = .client i
  | .drop t d, o, c => s.LastCopy t d o c
  | .peerClose d, o, c => s.ClosingDrops d o c
  | .runFunctor l _, o, c =>
      ∃ d, (s.loops l).functors.head? = some (.handleClose d) ∧ s.ClosingDrops d o c
  | .finish l, o, _ => o = .ran l
  | .release t, o, c => ∃ i d, s.calls t = .releasing i d ∧ (o = .client i ∨ s.LastCopy t d o c)
  | _, _, _ => False

/-- The step leaves what is queued as safe as it was. -/
structure Keeps (s : Ownership) (a : Action) : Prop where
  /-- It takes a connection from an owner only if another one keeps it, or no bare functor
  is queued for it. -/
  owner : ∀ f, s.Waits f → ¬ f.Shares → (∃ o, s.Owns o f.conn ∧ s.Drops a o f.conn) →
    ∃ o, s.Owns o f.conn ∧ ¬ s.Drops a o f.conn
  /-- `connectDestroyed` runs only if no `sendInLoop` is queued behind it. -/
  last : ∀ l notify c, a = .runFunctor l notify →
    (s.loops l).functors.head? = some (.connectDestroyed c) → ¬ s.Waits (.sendInLoop c)
  /-- A `send` that has found the state `Connected` queues its functor before
  `connectDestroyed` runs. -/
  sent : ∀ t c, a = .queueSend t → s.calls t = .sending c → (s.conns c).destroyed = false

/-! ## What the updates do -/

section Updates

variable {s : Ownership} {o : Owner} {f g : Functor} {c d i l : Nat} {t : Thread}

@[simp] theorem owns_setConn {conn : Conn} : (s.setConn d conn).Owns o c ↔ s.Owns o c := by
  cases o <;> exact Iff.rfl

@[simp] theorem owns_setState {state : State} : (s.setState d state).Owns o c ↔ s.Owns o c :=
  owns_setConn

@[simp] theorem owns_setCloseCallback : (s.setCloseCallback d).Owns o c ↔ s.Owns o c := owns_setConn

@[simp] theorem owns_connectDestroyed : (s.connectDestroyed d).Owns o c ↔ s.Owns o c := owns_setConn

@[simp] theorem owns_setCall {call : Call} : (s.setCall t call).Owns o c ↔ s.Owns o c := by
  cases o <;> exact Iff.rfl

@[simp] theorem waits_setConn {conn : Conn} : (s.setConn d conn).Waits f ↔ s.Waits f := Iff.rfl

@[simp] theorem waits_setState {state : State} : (s.setState d state).Waits f ↔ s.Waits f := Iff.rfl

@[simp] theorem waits_setCloseCallback : (s.setCloseCallback d).Waits f ↔ s.Waits f := Iff.rfl

@[simp] theorem waits_connectDestroyed : (s.connectDestroyed d).Waits f ↔ s.Waits f := Iff.rfl

@[simp] theorem waits_setCall {call : Call} : (s.setCall t call).Waits f ↔ s.Waits f := Iff.rfl

@[simp] theorem waits_setClient {client : Client} : (s.setClient i client).Waits f ↔ s.Waits f :=
  Iff.rfl

@[simp] theorem waits_hold : (s.hold t d).Waits f ↔ s.Waits f := Iff.rfl

@[simp] theorem waits_letGo : (s.letGo t d).Waits f ↔ s.Waits f := Iff.rfl

@[simp] theorem waits_erase : (s.erase d).Waits f ↔ s.Waits f := Iff.rfl

theorem loops_setLoop (s : Ownership) (l : Nat) (loop : Loop) (m : Nat) :
    (s.setLoop l loop).loops m = if m = l then loop else s.loops m :=
  Function.update_apply s.loops l loop m

theorem waitsIn_setLoop {loop : Loop} {m : Nat} :
    (s.setLoop l loop).WaitsIn m f ↔
      if m = l then f ∈ loop.pendingFunctors ∨ f ∈ loop.functors else s.WaitsIn m f := by
  unfold WaitsIn
  rw [loops_setLoop]
  by_cases same : m = l
  · rw [if_pos same, if_pos same]
  · rw [if_neg same, if_neg same]

theorem waitsIn_queueInLoop {m : Nat} :
    (s.queueInLoop l g).WaitsIn m f ↔ s.WaitsIn m f ∨ (m = l ∧ f = g) := by
  unfold queueInLoop
  rw [waitsIn_setLoop]
  by_cases same : m = l
  · subst same
    rw [if_pos rfl]
    simp only [List.mem_append, List.mem_singleton, WaitsIn, true_and]
    exact or_right_comm
  · simp [same]

@[simp] theorem waits_queueInLoop : (s.queueInLoop l g).Waits f ↔ s.Waits f ∨ f = g := by
  simp only [Waits, waitsIn_queueInLoop, exists_or]
  constructor
  · rintro (waits | ⟨m, -, same⟩)
    · exact .inl waits
    · exact .inr same
  · rintro (waits | same)
    · exact .inl waits
    · exact .inr ⟨l, rfl, same⟩

theorem ran_queueInLoop (s : Ownership) (l : Nat) (g : Functor) (m : Nat) :
    ((s.queueInLoop l g).loops m).ran = (s.loops m).ran := by
  unfold queueInLoop
  rw [loops_setLoop]
  by_cases same : m = l
  · rw [if_pos same, same]
  · rw [if_neg same]

/-- A loop that keeps its functors keeps their owners. -/
theorem owns_setLoop {loop : Loop}
    (waits : ∀ g, s.WaitsIn l g → g ∈ loop.pendingFunctors ∨ g ∈ loop.functors)
    (ran : o = .ran l → ∀ g ∈ (s.loops l).ran, g ∈ loop.ran) (owns : s.Owns o c) :
    (s.setLoop l loop).Owns o c := by
  cases o with
  | functor m =>
      obtain ⟨g, there, shares, conn⟩ := owns
      refine ⟨g, waitsIn_setLoop.mpr ?_, shares, conn⟩
      split
      · rename_i same
        exact waits g (same ▸ there)
      · exact there
  | ran m =>
      obtain ⟨g, mem, shares, conn⟩ := owns
      refine ⟨g, ?_, shares, conn⟩
      rw [loops_setLoop]
      split
      · rename_i same
        exact ran (congrArg Owner.ran same) g (same ▸ mem)
      · exact mem
  | _ => exact owns

/-- A loop that gets no functor bound to a pointer gets no pointer. -/
theorem owns_of_setLoop (loop : Loop)
    (waits : ∀ g, g.Shares → g ∈ loop.pendingFunctors ∨ g ∈ loop.functors → s.WaitsIn l g)
    (ran : ∀ g, g.Shares → g ∈ loop.ran → g ∈ (s.loops l).ran)
    (owns : (s.setLoop l loop).Owns o c) : s.Owns o c := by
  cases o with
  | functor m =>
      obtain ⟨g, there, shares, conn⟩ := owns
      refine ⟨g, ?_, shares, conn⟩
      rw [waitsIn_setLoop] at there
      split at there
      · rename_i same
        exact same ▸ waits g shares there
      · exact there
  | ran m =>
      obtain ⟨g, mem, shares, conn⟩ := owns
      refine ⟨g, ?_, shares, conn⟩
      rw [loops_setLoop] at mem
      split at mem
      · rename_i same
        exact same ▸ ran g shares mem
      · exact mem
  | _ => exact owns

/-- A functor that is queued owns what it is bound to, and takes nothing away. -/
theorem owns_queueInLoop : (s.queueInLoop l g).Owns o c ↔
    s.Owns o c ∨ (o = .functor l ∧ g.Shares ∧ g.conn = c) := by
  cases o with
  | functor m =>
      simp only [Owns, waitsIn_queueInLoop, Owner.functor.injEq]
      constructor
      · rintro ⟨f, waits | ⟨same, rfl⟩, shares, conn⟩
        · exact .inl ⟨f, waits, shares, conn⟩
        · exact .inr ⟨same, shares, conn⟩
      · rintro (⟨f, waits, shares, conn⟩ | ⟨same, shares, conn⟩)
        · exact ⟨f, .inl waits, shares, conn⟩
        · exact ⟨g, .inr ⟨same, rfl⟩, shares, conn⟩
  | ran m => simp only [Owns, ran_queueInLoop, reduceCtorEq, false_and, or_false]
  | _ => simp only [reduceCtorEq, false_and, or_false]; exact Iff.rfl

theorem owns_setClient {client : Client} : (s.setClient i client).Owns o c ↔
    if o = .client i then client.connection = some c else s.Owns o c := by
  cases o with
  | client j =>
      show (Function.update s.clients i client j).connection = some c ↔ _
      by_cases same : j = i
      · subst same
        rw [Function.update_self, if_pos rfl]
      · rw [Function.update_of_ne same, if_neg (by simpa using same)]
        exact Iff.rfl
  | _ => rw [if_neg nofun]; exact Iff.rfl

theorem owns_hold : (s.hold t d).Owns o c ↔ s.Owns o c ∨ (o = .thread t ∧ c = d) := by
  cases o with
  | thread u =>
      show c ∈ Function.update s.held t (d :: s.held t) u ↔ c ∈ s.held u ∨ _
      by_cases same : u = t
      · subst same
        rw [Function.update_self, List.mem_cons, or_comm]
        simp
      · rw [Function.update_of_ne same]
        simp [same]
  | _ => simp only [reduceCtorEq, false_and, or_false]; exact Iff.rfl

theorem owns_letGo : (s.letGo t d).Owns o c ↔ s.Owns o c ∧ ¬ s.LastCopy t d o c := by
  cases o with
  | thread u =>
      show c ∈ Function.update s.held t ((s.held t).erase d) u ↔
        c ∈ s.held u ∧ ¬ (u = t ∧ c = d ∧ (s.held t).count d = 1)
      by_cases same : u = t
      · subst same
        rw [Function.update_self]
        by_cases other : c = d
        · subst other
          rw [← List.count_pos_iff, ← List.count_pos_iff, List.count_erase_self]
          simp only [true_and]
          omega
        · rw [List.mem_erase_of_ne other]
          simp [other]
      · rw [Function.update_of_ne same]
        simp [same]
  | _ => simp only [LastCopy, not_false_eq_true, and_true]; exact Iff.rfl

theorem owns_erase (kept : o = .server → c ≠ d) : (s.erase d).Owns o c ↔ s.Owns o c := by
  cases o with
  | server => exact List.mem_erase_of_ne (kept rfl)
  | _ => exact Iff.rfl

end Updates

/-! ## What the functions do -/

/-- `handleClose` binds the connection to a functor, and may reset the `connection_` of
the client it belongs to. -/
theorem handleClose_cases (s : Ownership) (d : Nat) :
    ∃ s' l g, s.handleClose home base d = s'.queueInLoop l g ∧ g.Shares ∧ g.conn = d ∧
      (((∀ i, (s.conns d).closeCallback ≠ .removeConnection i) ∧ (s' = s ∨ s' = s.erase d)) ∨
        ∃ i, (s.conns d).closeCallback = .removeConnection i ∧
          s' = s.setClient i { s.clients i with connection := none }) := by
  unfold handleClose
  cases callback : (s.conns d).closeCallback with
  | removeConnection i => exact ⟨_, _, _, rfl, trivial, rfl, .inr ⟨i, rfl, rfl⟩⟩
  | removeConnectInLoop => exact ⟨_, _, _, rfl, trivial, rfl, .inl ⟨nofun, .inl rfl⟩⟩
  | destroyConnection =>
      by_cases here : home d = base
      · exact ⟨_, _, _, if_pos here, trivial, rfl, .inl ⟨nofun, .inr rfl⟩⟩
      · exact ⟨_, _, _, if_neg here, trivial, rfl, .inl ⟨nofun, .inl rfl⟩⟩

section Functions

variable {home} {base} {s : Ownership} {o : Owner} {f g : Functor} {fs : List Functor} {c d l : Nat}

theorem waits_handleClose (waits : (s.handleClose home base d).Waits f) :
    s.Waits f ∨ f.Shares := by
  obtain ⟨s', l, g, same, shares, -, from'⟩ := handleClose_cases home base s d
  rw [same, waits_queueInLoop] at waits
  rcases waits with waits | rfl
  · rcases from' with ⟨-, rfl | rfl⟩ | ⟨i, -, rfl⟩
    · exact .inl waits
    · exact .inl waits
    · exact .inl waits
  · exact .inr shares

theorem waits_handleClose_of (waits : s.Waits f) : (s.handleClose home base d).Waits f := by
  obtain ⟨s', l, g, same, -, -, from'⟩ := handleClose_cases home base s d
  rw [same, waits_queueInLoop]
  rcases from' with ⟨-, rfl | rfl⟩ | ⟨i, -, rfl⟩
  · exact .inl waits
  · exact .inl waits
  · exact .inl waits

theorem owned_handleClose (owns : s.Owns o c) (kept : ¬ s.ClosingDrops d o c) :
    (s.handleClose home base d).Owned c := by
  obtain ⟨s', l, g, same, shares, conn, from'⟩ := handleClose_cases home base s d
  rw [same]
  by_cases self : c = d
  · exact ⟨.functor l, owns_queueInLoop.mpr (.inr ⟨rfl, shares, conn.trans self.symm⟩)⟩
  · refine ⟨o, owns_queueInLoop.mpr (.inl ?_)⟩
    rcases from' with ⟨-, rfl | rfl⟩ | ⟨i, callback, rfl⟩
    · exact owns
    · exact (owns_erase fun _ => self).mpr owns
    · rw [owns_setClient]
      split
      · rename_i client
        subst client
        exact absurd ⟨callback, self⟩ kept
      · exact owns

theorem not_owned_handleClose (lost : ∀ o, s.Owns o c → s.ClosingDrops d o c)
    (some : ∃ o, s.ClosingDrops d o c) : ¬ (s.handleClose home base d).Owned c := by
  obtain ⟨s', l, g, same, -, conn, from'⟩ := handleClose_cases home base s d
  obtain ⟨other, callback⟩ : c ≠ d ∧ ∃ i, (s.conns d).closeCallback = .removeConnection i := by
    obtain ⟨o, drops⟩ := some
    cases o with
    | client i => exact ⟨drops.2, i, drops.1⟩
    | _ => cases drops
  rintro ⟨o, owns⟩
  rw [same, owns_queueInLoop] at owns
  have owns := owns.resolve_right fun new => other (new.2.2.symm.trans conn)
  rcases from' with ⟨none, -⟩ | ⟨i, found, rfl⟩
  · obtain ⟨i, found⟩ := callback
    exact none i found
  · rw [owns_setClient] at owns
    split at owns
    · cases owns
    · rename_i different
      have drops := lost o owns
      cases o with
      | client j =>
          have client := drops.1
          rw [found] at client
          cases client
          exact different rfl
      | _ => cases drops

theorem waits_take (first : (s.loops l).functors = f :: fs) :
    s.Waits g ↔ (s.take l f fs).Waits g ∨ g = f := by
  have here : s.WaitsIn l g ↔ (s.take l f fs).WaitsIn l g ∨ g = f := by
    unfold take
    rw [waitsIn_setLoop, if_pos rfl, WaitsIn, first, List.mem_cons]
    constructor
    · rintro (pending | same | later)
      · exact .inl (.inl pending)
      · exact .inr same
      · exact .inl (.inr later)
    · rintro ((pending | later) | same)
      · exact .inl pending
      · exact .inr (.inr later)
      · exact .inr (.inl same)
  have there : ∀ m, m ≠ l → (s.WaitsIn m g ↔ (s.take l f fs).WaitsIn m g) := by
    intro m other
    unfold take
    rw [waitsIn_setLoop, if_neg other]
  constructor
  · rintro ⟨m, waits⟩
    by_cases same : m = l
    · subst same
      exact (here.mp waits).imp_left fun waits => ⟨m, waits⟩
    · exact .inl ⟨m, (there m same).mp waits⟩
  · rintro (⟨m, waits⟩ | same)
    · by_cases same : m = l
      · subst same
        exact ⟨m, here.mpr (.inl waits)⟩
      · exact ⟨m, (there m same).mpr waits⟩
    · exact ⟨l, here.mpr (.inr same)⟩

/-- The functor that is run goes on owning what it is bound to. -/
theorem owns_take (first : (s.loops l).functors = f :: fs) (owns : s.Owns o c) :
    ∃ o', (s.take l f fs).Owns o' c ∧ (o' = o ∨ o' = .ran l) := by
  cases o with
  | functor m =>
      obtain ⟨g, waits, shares, conn⟩ := owns
      by_cases same : m = l
      · subst same
        rcases waits with pending | later
        · refine ⟨.functor m, ⟨g, ?_, shares, conn⟩, .inl rfl⟩
          unfold take
          rw [waitsIn_setLoop, if_pos rfl]
          exact .inl pending
        · rw [first] at later
          rcases List.mem_cons.mp later with rfl | later
          · refine ⟨.ran m, ⟨g, ?_, shares, conn⟩, .inr rfl⟩
            unfold take
            rw [loops_setLoop, if_pos rfl]
            exact List.mem_append_right _ List.mem_cons_self
          · refine ⟨.functor m, ⟨g, ?_, shares, conn⟩, .inl rfl⟩
            unfold take
            rw [waitsIn_setLoop, if_pos rfl]
            exact .inr later
      · refine ⟨.functor m, ⟨g, ?_, shares, conn⟩, .inl rfl⟩
        unfold take
        rw [waitsIn_setLoop, if_neg same]
        exact waits
  | ran m =>
      obtain ⟨g, mem, shares, conn⟩ := owns
      refine ⟨.ran m, ⟨g, ?_, shares, conn⟩, .inl rfl⟩
      unfold take
      rw [loops_setLoop]
      split
      · rename_i same
        subst same
        exact List.mem_append_left _ mem
      · exact mem
  | client i => exact ⟨.client i, owns, .inl rfl⟩
  | server => exact ⟨.server, owns, .inl rfl⟩
  | thread t => exact ⟨.thread t, owns, .inl rfl⟩

theorem owns_of_take (first : (s.loops l).functors = f :: fs) (owns : (s.take l f fs).Owns o c) :
    ∃ o', s.Owns o' c ∧ (o' = o ∨ o' = .functor l) := by
  have waits : ∀ m g, (s.take l f fs).WaitsIn m g → s.WaitsIn m g := by
    intro m g waits
    unfold take at waits
    rw [waitsIn_setLoop] at waits
    split at waits
    · rename_i same
      subst same
      exact waits.imp_right fun later => by
        rw [first]
        exact List.mem_cons_of_mem _ later
    · exact waits
  cases o with
  | functor m =>
      obtain ⟨g, there, shares, conn⟩ := owns
      exact ⟨.functor m, ⟨g, waits m g there, shares, conn⟩, .inl rfl⟩
  | ran m =>
      obtain ⟨g, mem, shares, conn⟩ := owns
      unfold take at mem
      rw [loops_setLoop] at mem
      split at mem
      · rename_i same
        subst same
        rcases List.mem_append.mp mem with before | new
        · exact ⟨.ran m, ⟨g, before, shares, conn⟩, .inl rfl⟩
        · obtain rfl := List.mem_singleton.mp new
          refine ⟨.functor m, ⟨g, .inr ?_, shares, conn⟩, .inr rfl⟩
          rw [first]
          exact List.mem_cons_self
      · exact ⟨.ran m, ⟨g, mem, shares, conn⟩, .inl rfl⟩
  | client i => exact ⟨.client i, owns, .inl rfl⟩
  | server => exact ⟨.server, owns, .inl rfl⟩
  | thread t => exact ⟨.thread t, owns, .inl rfl⟩

end Functions

/-! ## Calls -/

/-- The connection that a call is for. -/
def Call.conn : Call → Option Nat
  | .none => .none
  | .sending c | .shutting c | .closing _ c _ | .forcing _ c _ | .releasing _ c => some c

/-- A thread holds a pointer to the connection its call is for. -/
def Bound (s : Ownership) : Prop := ∀ t c, (s.calls t).conn = some c → c ∈ s.held t

section Bound

variable {s : Ownership}

theorem Bound.setCall (bound : s.Bound) {t : Thread} {call : Call}
    (held : ∀ c, call.conn = some c → c ∈ s.held t) : (s.setCall t call).Bound := by
  intro u c there
  by_cases same : u = t
  · subst same
    refine held c ?_
    simpa [Ownership.setCall] using there
  · refine bound u c ?_
    simpa [Ownership.setCall, Function.update_of_ne same] using there

theorem Bound.of_eq (bound : s.Bound) (s' : Ownership) (calls : s'.calls = s.calls)
    (held : s'.held = s.held) : s'.Bound := by
  intro t c there
  rw [held]
  exact bound t c (calls ▸ there)

theorem Bound.hold (bound : s.Bound) (t : Thread) (d : Nat) : (s.hold t d).Bound := by
  intro u c there
  have kept := bound u c there
  show c ∈ Function.update s.held t (d :: s.held t) u
  by_cases same : u = t
  · subst same
    rw [Function.update_self]
    exact List.mem_cons_of_mem _ kept
  · rwa [Function.update_of_ne same]

/-- A thread that is in no call may give up a copy. -/
theorem Bound.letGo (bound : s.Bound) {t : Thread} (free : s.calls t = .none) (d : Nat) :
    (s.letGo t d).Bound := by
  intro u c there
  show c ∈ Function.update s.held t _ u
  by_cases same : u = t
  · subst same
    have there : (s.calls u).conn = some c := there
    rw [free] at there
    cases there
  · rw [Function.update_of_ne same]
    exact bound u c there

end Bound

theorem calls_handleClose (s : Ownership) (d : Nat) :
    (s.handleClose home base d).calls = s.calls ∧ (s.handleClose home base d).held = s.held := by
  unfold handleClose
  split
  · exact ⟨rfl, rfl⟩
  · exact ⟨rfl, rfl⟩
  · split <;> exact ⟨rfl, rfl⟩

theorem calls_runFunctor (s : Ownership) (notify : Bool) (f : Functor) :
    (s.runFunctor home base notify f).calls = s.calls ∧
      (s.runFunctor home base notify f).held = s.held := by
  cases f with
  | handleClose d => exact calls_handleClose home base s d
  | sendInLoop c => cases notify <;> exact ⟨rfl, rfl⟩
  | _ => exact ⟨rfl, rfl⟩

theorem bound_step {home : Nat → Nat} {base : Nat} {s s' : Ownership} {a : Action}
    (bound : s.Bound) (step : Step home base s a s') : s'.Bound := by
  cases step with
  | @newConnection i c free alive fresh =>
      exact (bound.of_eq ((s.setConn c ⟨.connecting, .removeConnection i, false⟩).setClient
        i { s.clients i with connection := some c }) rfl rfl).hold _ _
  | @accept c free fresh =>
      unfold accept
      split
      · exact bound.of_eq _ rfl rfl
      · exact bound.of_eq _ rfl rfl
  | acquire free owned => exact bound.hold _ _
  | drop free => exact bound.letGo free.1 _
  | @sendHere c notify free connected => cases notify <;> exact bound.of_eq _ rfl rfl
  | send free elsewhere connected =>
      refine bound.setCall fun c same => ?_
      cases same
      exact free.2
  | queueSend here => exact (bound.of_eq (s.queueInLoop _ _) rfl rfl).setCall nofun
  | shutdown free connected =>
      refine (bound.of_eq (s.setState _ _) rfl rfl).setCall fun c same => ?_
      cases same
      exact free.2
  | @runShutdownInLoop t c here =>
      refine (bound.of_eq (s.runShutdownInLoop home t c) ?_ ?_).setCall nofun
      · unfold Ownership.runShutdownInLoop
        split <;> rfl
      · unfold Ownership.runShutdownInLoop
        split <;> rfl
  | @disconnect t i c free alive some connected =>
      unfold Ownership.runShutdownInLoop
      split <;> exact bound.of_eq _ rfl rfl
  | peerClose =>
      obtain ⟨calls, held⟩ := calls_handleClose home base s _
      exact bound.of_eq _ calls held
  | @runFunctor l notify f fs free first =>
      obtain ⟨calls, held⟩ := calls_runFunctor home base (s.take l f fs) notify f
      exact bound.of_eq _ calls held
  | @destroy t i c unique free alive some only =>
      refine ((bound.of_eq (s.setClient i ⟨false, .some c⟩) rfl rfl).hold t c).setCall ?_
      intro d same
      cases same
      show c ∈ Function.update s.held t (c :: s.held t) t
      rw [Function.update_self]
      exact List.mem_cons_self
  | @replaceHere i c unique here =>
      refine (bound.of_eq (s.setCloseCallback c) rfl rfl).setCall fun d same => ?_
      exact bound (.loop (home c)) d (by rw [here]; exact same)
  | @replace t i c unique here elsewhere =>
      refine (bound.of_eq (s.queueInLoop _ _) rfl rfl).setCall fun d same => ?_
      exact bound t d (by rw [here]; exact same)
  | @force t i c unique here =>
      refine Bound.setCall ?_ fun d same => ?_
      · cases unique <;> exact bound.of_eq _ rfl rfl
      · have kept := bound t d (by rw [here]; exact same)
        cases unique <;> exact kept
  | @release t i c here =>
      have idle : (s.setCall t .none).Bound := bound.setCall nofun
      exact (idle.letGo (Function.update_self t _ _) c).of_eq _ rfl rfl
  | _ => exact bound.of_eq _ rfl rfl

/-! ## What a step does -/

section Steps

variable {home} {base} {s s' : Ownership} {a : Action} {o : Owner} {f : Functor} {c : Nat}

/-- A copy in a thread's call owns. -/
theorem owned_of_call (bound : s.Bound) {t : Thread} {call : Call} (here : s.calls t = call)
    (conn : call.conn = some c) : s.Owned c :=
  ⟨.thread t, bound t c (by rw [here]; exact conn)⟩

/-- **An owner that a step does not take the connection from keeps it.** -/
theorem owned_step (step : Step home base s a s') (owns : s.Owns o c) (kept : ¬ s.Drops a o c) :
    s'.Owned c := by
  cases step with
  | @newConnection i d free alive fresh =>
      refine ⟨o, owns_hold.mpr (.inl ?_)⟩
      have other : o ≠ .client i := kept
      rw [owns_setClient, if_neg other, owns_setConn]
      exact owns
  | @accept d free fresh =>
      have added : Owns { s.setConn d ⟨.connecting, .destroyConnection, false⟩ with
          server := d :: s.server } o c := by
        cases o with
        | server => exact List.mem_cons_of_mem _ owns
        | _ => exact owns
      unfold accept
      by_cases here : home d = base
      · exact ⟨o, by rw [if_pos here]; exact owns_setState.mpr added⟩
      · exact ⟨o, by rw [if_neg here]; exact owns_queueInLoop.mpr (.inl added)⟩
  | acquire free owned => exact ⟨o, owns_hold.mpr (.inl owns)⟩
  | drop free => exact ⟨o, owns_letGo.mpr ⟨owns, kept⟩⟩
  | @sendHere d notify free connected =>
      cases notify
      · exact ⟨o, owns⟩
      · exact ⟨o, owns_queueInLoop.mpr (.inl owns)⟩
  | queueSend here => exact ⟨o, owns_setCall.mpr (owns_queueInLoop.mpr (.inl owns))⟩
  | shutdown free connected => exact ⟨o, owns_setCall.mpr (owns_setState.mpr owns)⟩
  | @runShutdownInLoop t d here =>
      refine ⟨o, owns_setCall.mpr ?_⟩
      unfold Ownership.runShutdownInLoop
      split
      · exact owns
      · exact owns_queueInLoop.mpr (.inl owns)
  | forceClose free => exact ⟨o, owns_queueInLoop.mpr (.inl owns)⟩
  | @disconnect t i d free alive some connected =>
      refine ⟨o, ?_⟩
      unfold Ownership.runShutdownInLoop
      split
      · exact owns_setState.mpr owns
      · exact owns_queueInLoop.mpr (.inl (owns_setState.mpr owns))
  | peerClose free between registered owned => exact owned_handleClose owns kept
  | @swap l free between =>
      refine ⟨o, owns_setLoop (fun g waits => .inr ?_) (fun _ g mem => ?_) owns⟩
      · rw [WaitsIn, between.1] at waits
        exact waits.resolve_right List.not_mem_nil
      · rw [between.2] at mem
        exact mem
  | @runFunctor l notify f fs free first =>
      obtain ⟨o', owns', same⟩ := owns_take first owns
      cases f with
      | handleClose d =>
          refine owned_handleClose owns' fun drops => kept ⟨d, by rw [first]; rfl, ?_⟩
          rcases same with rfl | rfl
          · exact drops
          · cases drops
      | destroyConnectionInLoop d =>
          by_cases self : c = d
          · exact ⟨_, owns_queueInLoop.mpr (.inr ⟨rfl, trivial, self.symm⟩)⟩
          · exact ⟨o', owns_queueInLoop.mpr (.inl ((owns_erase fun _ => self).mpr owns'))⟩
      | connectEstablished d => exact ⟨o', owns_setState.mpr owns'⟩
      | connectDestroyed d => exact ⟨o', owns_connectDestroyed.mpr owns'⟩
      | setCloseCallback d => exact ⟨o', owns_setCloseCallback.mpr owns'⟩
      | sendInLoop d =>
          cases notify
          · exact ⟨o', owns'⟩
          · exact ⟨o', owns_queueInLoop.mpr (.inl owns')⟩
      | _ => exact ⟨o', owns'⟩
  | @finish l free done =>
      exact ⟨o, owns_setLoop (fun g waits => waits) (fun same => absurd same kept) owns⟩
  | @destroyEmpty t i free alive nothing =>
      refine ⟨o, owns_setClient.mpr ?_⟩
      split
      · rename_i client
        subst client
        have found : (s.clients i).connection = some c := owns
        rw [nothing] at found
        cases found
      · exact owns
  | @destroy t i d unique free alive some only =>
      refine ⟨o, owns_setCall.mpr (owns_hold.mpr (.inl (owns_setClient.mpr ?_)))⟩
      split
      · rename_i client
        subst client
        exact some.symm.trans owns
      · exact owns
  | replaceHere here => exact ⟨o, owns_setCall.mpr (owns_setCloseCallback.mpr owns)⟩
  | replace here elsewhere => exact ⟨o, owns_setCall.mpr (owns_queueInLoop.mpr (.inl owns))⟩
  | @force t i d unique here =>
      refine ⟨o, owns_setCall.mpr ?_⟩
      cases unique
      · exact owns
      · exact owns_queueInLoop.mpr (.inl owns)
  | @release t i d here =>
      refine ⟨o, owns_setCall.mpr (owns_setClient.mpr ?_)⟩
      rw [if_neg fun client => kept ⟨i, d, here, .inl client⟩, owns_letGo]
      exact ⟨owns, fun copy => kept ⟨i, d, here, .inr copy⟩⟩
  | _ => exact ⟨o, owns⟩

theorem waits_of_setLoop {l : Nat} (loop : Loop)
    (from' : ∀ g, g ∈ loop.pendingFunctors ∨ g ∈ loop.functors → s.WaitsIn l g)
    (waits : (s.setLoop l loop).Waits f) : s.Waits f := by
  obtain ⟨m, there⟩ := waits
  rw [waitsIn_setLoop] at there
  split at there
  · exact ⟨l, from' f there⟩
  · exact ⟨m, there⟩

theorem waits_runShutdownInLoop {t : Thread} {d : Nat}
    (waits : (s.runShutdownInLoop home t d).Waits f) : s.Waits f ∨ f = .shutdownInLoop d := by
  unfold runShutdownInLoop at waits
  split at waits
  · exact .inl waits
  · exact waits_queueInLoop.mp waits

/-- A bare functor is not one that shares the connection. -/
theorem waits_of_queueInLoop {l : Nat} {g : Functor} (waits : (s.queueInLoop l g).Waits f)
    (bare : ¬ f.Shares) (shares : g.Shares) : s.Waits f := by
  refine (waits_queueInLoop.mp waits).resolve_right fun same => bare ?_
  rw [same]
  exact shares

/-- **A bare functor is queued for a connection that is owned**, and a `sendInLoop` by a
`send` on another thread. -/
theorem waits_step (bound : s.Bound) (step : Step home base s a s') (waits : s'.Waits f)
    (bare : ¬ f.Shares) : s.Waits f ∨ ((s.Owned f.conn ∧ ∀ o, ¬ s.Drops a o f.conn) ∧
      ∀ c, f = .sendInLoop c → ∃ t, a = .queueSend t ∧ s.calls t = .sending c) := by
  cases step with
  | @accept d free fresh =>
      unfold accept at waits
      by_cases here : home d = base
      · rw [if_pos here] at waits
        exact .inl waits
      · rw [if_neg here] at waits
        exact .inl (waits_of_queueInLoop waits bare trivial)
  | @sendHere d notify free connected =>
      cases notify
      · exact .inl waits
      · exact .inl (waits_of_queueInLoop waits bare trivial)
  | @queueSend t d here =>
      rw [waits_setCall, waits_queueInLoop] at waits
      refine waits.imp_right fun same => ?_
      subst same
      refine ⟨⟨owned_of_call bound here rfl, fun _ => id⟩, fun c same => ⟨t, rfl, ?_⟩⟩
      cases same
      exact here
  | @runShutdownInLoop t d here =>
      refine (waits_runShutdownInLoop (waits_setCall.mp waits)).imp_right fun same => ?_
      subst same
      exact ⟨⟨owned_of_call bound here rfl, fun _ => id⟩, nofun⟩
  | @forceClose t d free =>
      refine (waits_queueInLoop.mp waits).imp_right fun same => ?_
      subst same
      exact ⟨⟨⟨.thread t, free.2⟩, fun _ => id⟩, nofun⟩
  | @disconnect t i d free alive some connected =>
      refine (waits_runShutdownInLoop waits).imp_right fun same => ?_
      subst same
      exact ⟨⟨⟨.client i, some⟩, fun _ => id⟩, nofun⟩
  | peerClose free between registered owned =>
      exact .inl ((waits_handleClose waits).resolve_right bare)
  | swap free between =>
      refine .inl (waits_of_setLoop _ (fun g there => ?_) waits)
      exact .inl (there.resolve_left List.not_mem_nil)
  | @runFunctor l notify g fs free first =>
      refine .inl ((waits_take first).mpr (.inl ?_))
      cases g with
      | handleClose d => exact (waits_handleClose waits).resolve_right bare
      | destroyConnectionInLoop d => exact waits_of_queueInLoop waits bare trivial
      | sendInLoop d =>
          cases notify
          · exact waits
          · exact waits_of_queueInLoop waits bare trivial
      | _ => exact waits
  | @finish l free done =>
      exact .inl (waits_of_setLoop { s.loops l with ran := [] } (fun g there => there) waits)
  | @replace t i d unique here elsewhere =>
      exact .inl (waits_of_queueInLoop (waits_setCall.mp waits) bare trivial)
  | @force t i d unique here =>
      cases unique
      · exact .inl waits
      · rw [waits_setCall, if_pos rfl, waits_queueInLoop] at waits
        refine waits.imp_right fun same => ?_
        subst same
        exact ⟨⟨owned_of_call bound here rfl, fun _ => id⟩, nofun⟩
  | _ => exact .inl waits

theorem conns_setConn (s : Ownership) (d : Nat) (conn : Conn) (c : Nat) :
    (s.setConn d conn).conns c = if c = d then conn else s.conns c :=
  Function.update_apply s.conns d conn c

theorem destroyed_setConn {d : Nat} {conn : Conn}
    (kept : conn.destroyed = (s.conns d).destroyed) (c : Nat) :
    ((s.setConn d conn).conns c).destroyed = (s.conns c).destroyed := by
  rw [conns_setConn]
  split
  · rename_i same
    rw [kept, same]
  · rfl

@[simp] theorem destroyed_setState (s : Ownership) (d : Nat) (state : State) (c : Nat) :
    ((s.setState d state).conns c).destroyed = (s.conns c).destroyed := by
  apply destroyed_setConn
  rfl

@[simp] theorem destroyed_setCloseCallback (s : Ownership) (d c : Nat) :
    ((s.setCloseCallback d).conns c).destroyed = (s.conns c).destroyed := by
  apply destroyed_setConn
  rfl

theorem destroyed_connectDestroyed (s : Ownership) (d c : Nat) :
    ((s.connectDestroyed d).conns c).destroyed = if c = d then true else (s.conns c).destroyed := by
  refine (congrArg Conn.destroyed (conns_setConn s d _ c)).trans ?_
  split <;> rfl

/-- A new connection is not destroyed. -/
theorem destroyed_create {d : Nat} {state : State} {callback : CloseCallback}
    (destroyed : ((s.setConn d ⟨state, callback, false⟩).conns c).destroyed = true) :
    (s.conns c).destroyed = true := by
  rw [conns_setConn] at destroyed
  split at destroyed
  · cases destroyed
  · exact destroyed

theorem conns_handleClose (home : Nat → Nat) (base : Nat) (s : Ownership) (d : Nat) :
    (s.handleClose home base d).conns = s.conns := by
  unfold handleClose
  split
  · rfl
  · rfl
  · split <;> rfl

/-- Only `connectDestroyed` destroys. -/
theorem destroyed_step (step : Step home base s a s') (destroyed : (s'.conns c).destroyed = true) :
    (s.conns c).destroyed = true ∨ ∃ l notify, a = .runFunctor l notify ∧
      (s.loops l).functors.head? = some (.connectDestroyed c) := by
  cases step with
  | newConnection => exact .inl (destroyed_create destroyed)
  | connectEstablished => exact .inl (destroyed_setState s _ _ c ▸ destroyed)
  | @accept d free fresh =>
      unfold accept at destroyed
      by_cases here : home d = base
      · rw [if_pos here, destroyed_setState] at destroyed
        exact .inl (destroyed_create destroyed)
      · rw [if_neg here] at destroyed
        exact .inl (destroyed_create destroyed)
  | @sendHere d notify free connected => cases notify <;> exact .inl destroyed
  | shutdown => exact .inl (destroyed_setState s _ _ c ▸ destroyed)
  | @runShutdownInLoop t d here =>
      unfold Ownership.runShutdownInLoop at destroyed
      split at destroyed <;> exact .inl destroyed
  | @disconnect t i d free alive some connected =>
      unfold Ownership.runShutdownInLoop at destroyed
      split at destroyed <;> exact .inl (destroyed_setState s _ _ c ▸ destroyed)
  | peerClose =>
      rw [conns_handleClose] at destroyed
      exact .inl destroyed
  | @runFunctor l notify f fs free first =>
      cases f with
      | handleClose d =>
          have same := conns_handleClose home base (s.take l (.handleClose d) fs) d
          exact .inl (same ▸ destroyed)
      | connectEstablished d =>
          exact .inl (destroyed_setState (s.take l (.connectEstablished d) fs) d _ c ▸ destroyed)
      | setCloseCallback d =>
          exact .inl (destroyed_setCloseCallback (s.take l (.setCloseCallback d) fs) d c ▸ destroyed)
      | connectDestroyed d =>
          have there := destroyed_connectDestroyed (s.take l (.connectDestroyed d) fs) d c
          by_cases same : c = d
          · subst same
            exact .inr ⟨l, notify, rfl, by rw [first]; rfl⟩
          · rw [if_neg same] at there
            exact .inl (there ▸ destroyed)
      | sendInLoop d => cases notify <;> exact .inl destroyed
      | _ => exact .inl destroyed
  | replaceHere => exact .inl (destroyed_setCloseCallback s _ c ▸ destroyed)
  | @force t i d unique here => cases unique <;> exact .inl destroyed
  | _ => exact .inl destroyed

theorem sound_kept (bound : s.Bound) (sound : s.Sound) (keeps : s.Keeps a)
    (step : Step home base s a s') : s'.Sound where
  owned f waits := by
    by_cases shares : f.Shares
    · obtain ⟨l, there⟩ := waits
      exact ⟨.functor l, f, there, shares, rfl⟩
    · rcases waits_step bound step waits shares with before | ⟨⟨⟨o, owns⟩, none⟩, -⟩
      · obtain ⟨o, owns⟩ := sound.owned f before
        by_cases drops : s.Drops a o f.conn
        · obtain ⟨o', owns', kept⟩ := keeps.owner f before shares ⟨o, owns, drops⟩
          exact owned_step step owns' kept
        · exact owned_step step owns drops
      · exact owned_step step owns (none o)
  before c waits := by
    by_contra destroyed
    rw [Bool.not_eq_false] at destroyed
    rcases waits_step bound step waits id with before | ⟨-, queued⟩
    · rcases destroyed_step step destroyed with already | ⟨l, notify, rfl, first⟩
      · rw [sound.before c before] at already
        cases already
      · exact keeps.last l notify c rfl first before
    · obtain ⟨t, rfl, here⟩ := queued c rfl
      rcases destroyed_step step destroyed with already | ⟨l, notify, other, -⟩
      · rw [keeps.sent t c rfl here] at already
        cases already
      · cases other

/-- **A connection whose every owner loses it is left without one**, and a bare functor
that was queued for it still is. -/
theorem orphaned_step (step : Step home base s a s') (waits : s.Waits f)
    (some : ∃ o, s.Owns o f.conn ∧ s.Drops a o f.conn)
    (all : ∀ o, s.Owns o f.conn → s.Drops a o f.conn) : ¬ s'.Owned f.conn ∧ s'.Waits f := by
  obtain ⟨o, owns, drops⟩ := some
  cases step with
  | @newConnection i d free alive fresh =>
      have other : f.conn ≠ d := fresh.2 f waits
      refine ⟨?_, waits⟩
      rintro ⟨o', owns'⟩
      have owns' := (owns_hold.mp owns').resolve_right fun new => other new.2
      rw [owns_setClient] at owns'
      split at owns'
      · exact other (Option.some.inj owns').symm
      · rename_i different
        exact different (all o' (owns_setConn.mp owns'))
  | drop free =>
      refine ⟨?_, waits⟩
      rintro ⟨o', owns'⟩
      obtain ⟨owns', kept⟩ := owns_letGo.mp owns'
      exact kept (all o' owns')
  | peerClose free between registered owned =>
      exact ⟨not_owned_handleClose all ⟨o, drops⟩, waits_handleClose_of waits⟩
  | @runFunctor l notify g fs free first =>
      obtain ⟨d, head, closing⟩ := drops
      rw [first] at head
      cases head
      have other : f.conn ≠ d := by
        cases o with
        | client i => exact closing.2
        | _ => cases closing
      refine ⟨not_owned_handleClose (s := s.take l (.handleClose d) fs) (fun o' owns' => ?_)
        ⟨o, closing⟩, ?_⟩
      · obtain ⟨o'', owns'', same⟩ := owns_of_take first owns'
        obtain ⟨d', head', closing'⟩ := all o'' owns''
        rw [first] at head'
        cases head'
        rcases same with rfl | rfl
        · exact closing'
        · cases closing'
      · refine waits_handleClose_of (((waits_take first).mp waits).resolve_right fun same => ?_)
        exact other (congrArg Functor.conn same)
  | @finish l free done =>
      refine ⟨?_, ?_⟩
      · rintro ⟨o', owns'⟩
        have owns := owns_of_setLoop { s.loops l with ran := [] } (fun g _ there => there) nofun owns'
        obtain rfl := all o' owns
        obtain ⟨g, mem, -⟩ := owns'
        rw [loops_setLoop, if_pos rfl] at mem
        cases mem
      · obtain ⟨m, there⟩ := waits
        refine ⟨m, ?_⟩
        rw [waitsIn_setLoop]
        split
        · rename_i same
          exact same ▸ there
        · exact there
  | @release t i d here =>
      refine ⟨?_, waits⟩
      rintro ⟨o', owns'⟩
      rw [owns_setCall, owns_setClient] at owns'
      split at owns'
      · cases owns'
      · rename_i different
        obtain ⟨owns', kept⟩ := owns_letGo.mp owns'
        obtain ⟨i', d', here', lost⟩ := all o' owns'
        rw [here] at here'
        cases here'
        exact lost.elim different kept
  | _ => cases drops

theorem keeps_of_sound (step : Step home base s a s') (sound : s'.Sound) : s.Keeps a where
  owner f waits _ some := by
    by_contra none
    push Not at none
    obtain ⟨orphaned, waits'⟩ := orphaned_step step waits some none
    exact orphaned (sound.owned f waits')
  last l notify c same first waits := by
    subst same
    cases step with
    | @runFunctor _ _ f fs free first' =>
        rw [first'] at first
        cases first
        have waits' : (s.take l (.connectDestroyed c) fs).Waits (.sendInLoop c) :=
          ((waits_take first').mp waits).resolve_right nofun
        have intact := sound.before c waits'
        have destroyed := destroyed_connectDestroyed (s.take l (.connectDestroyed c) fs) c c
        rw [if_pos rfl] at destroyed
        exact absurd (destroyed.symm.trans intact) nofun
  sent t c same here := by
    subst same
    cases step with
    | @queueSend _ d here' =>
        cases here.symm.trans here'
        exact sound.before c (waits_setCall.mpr (waits_queueInLoop.mpr (.inr rfl)))

end Steps

theorem bound_start : start.Bound := by
  intro t c there
  cases there

theorem not_waits_start (f : Functor) : ¬ start.Waits f := by
  rintro ⟨l, there | there⟩
  · cases there
  · cases there

theorem sound_start : start.Sound where
  owned f waits := absurd waits (not_waits_start f)
  before _ waits := absurd waits (not_waits_start _)

/-- If the step runs a functor, it finds its connection owned, and a `sendInLoop` finds it
not destroyed. -/
def FindsOwned (s : Ownership) (a : Action) : Prop :=
  ∀ l notify f, a = .runFunctor l notify → (s.loops l).functors.head? = some f →
    s.Owned f.conn ∧ ∀ c, f = .sendInLoop c → (s.conns c).destroyed = false

theorem findsOwned_of_sound {s : Ownership} (sound : s.Sound) (a : Action) : s.FindsOwned a := by
  intro l notify f _ first
  have waits : s.Waits f := ⟨l, .inr (List.mem_of_head? first)⟩
  refine ⟨sound.owned f waits, fun c same => sound.before c ?_⟩
  subst same
  exact waits

/-- **Queued work finds its connection alive exactly if no step gives up the last owner of
a connection with a bare functor queued, and no `sendInLoop` is left behind a
`connectDestroyed`**: over every run of clients, servers, loops and threads. While that
lasts, everything a loop runs does. -/
theorem queued_work_owned_iff (home : Nat → Nat) (base : Nat) {trace : List (Ownership × Action)}
    {last : Ownership} (run : Run (Step home base) start trace last) :
    (Run.Throughout Sound trace last ↔ ∀ p ∈ trace, p.1.Keeps p.2) ∧
      ((∀ p ∈ trace, p.1.Keeps p.2) → ∀ p ∈ trace, p.1.FindsOwned p.2) := by
  have exact' : Run.Throughout Sound trace last ↔ ∀ p ∈ trace, p.1.Keeps p.2 :=
    run.invariant_iff (I := Sound) (C := Keeps) (fun _ _ _ bound step => bound_step bound step)
      (fun _ _ _ bound sound keeps step => sound_kept bound sound keeps step)
      (fun _ _ _ _ _ broken step sound => broken (keeps_of_sound step sound))
      bound_start sound_start
  exact ⟨exact', fun keeps p mem => findsOwned_of_sound ((exact'.mpr keeps).1 p mem) p.2⟩

/-! ### One connection -/

theorem fresh_start (c : Nat) : start.Fresh c := by
  refine ⟨?_, fun f waits => absurd waits (not_waits_start f)⟩
  rintro ⟨o, owns⟩
  cases o with
  | functor l =>
      obtain ⟨f, there, -⟩ := owns
      exact not_waits_start f ⟨l, there⟩
  | ran l =>
      obtain ⟨f, mem, -⟩ := owns
      cases mem
  | _ => cases owns

/-- The client's connection, with no copy left but the client's own. -/
def connected : Ownership :=
  ((start.newConnection (fun _ => 0) 0 0).setState 0 .connected).letGo (.loop 0) 0

theorem run_connected : Run (Step (fun _ => 0) 1) start
    [(start, .newConnection 0 0), (start.newConnection (fun _ => 0) 0 0, .connectEstablished 0),
      ((start.newConnection (fun _ => 0) 0 0).setState 0 .connected, .drop (.loop 0) 0)]
    connected :=
  .cons (.newConnection rfl rfl (fresh_start 0)) <|
    .cons (.connectEstablished ⟨rfl, by decide⟩ rfl) <| .cons (.drop ⟨rfl, by decide⟩) <| .nil _

theorem owns_connected {o : Owner} {c : Nat} : connected.Owns o c ↔ o = .client 0 ∧ c = 0 := by
  have none : ¬ start.Owns o c := fun owns => (fresh_start c).1 ⟨o, owns⟩
  have one : ((start.newConnection (fun _ => 0) 0 0).setState 0 .connected |>.held (.loop 0)).count
    0 = 1 := by decide
  unfold connected
  rw [owns_letGo, owns_setState, newConnection, owns_hold, owns_setClient, owns_setConn]
  constructor
  · rintro ⟨there, kept⟩
    rcases there with there | ⟨rfl, rfl⟩
    · split at there
      · rename_i client
        exact ⟨client, (Option.some.inj there).symm⟩
      · exact absurd there none
    · exact absurd ⟨rfl, rfl, one⟩ kept
  · rintro ⟨rfl, rfl⟩
    exact ⟨.inl rfl, id⟩

theorem not_waits_connected (f : Functor) : ¬ connected.Waits f := not_waits_start f

/-- Where no bare functor is queued a step can only go wrong by queueing one. -/
theorem keeps_of_quiet {s : Ownership} {a : Action} (quiet : ∀ f, s.Waits f → f.Shares)
    (other : ∀ t, a ≠ .queueSend t) : s.Keeps a where
  owner f waits bare _ := absurd (quiet f waits) bare
  last _ _ _ _ _ waits := quiet _ waits
  sent t _ same _ := absurd same (other t)

/-- Another thread has sent a message, which is queued. -/
def sent : Ownership :=
  (((connected.hold (.other 0) 0).setCall (.other 0) (.sending 0)).queueInLoop 0
    (.sendInLoop 0)).setCall (.other 0) .none

theorem waits_sent {f : Functor} : sent.Waits f ↔ f = .sendInLoop 0 := by
  unfold sent
  rw [waits_setCall, waits_queueInLoop, waits_setCall, waits_hold]
  exact or_iff_right (not_waits_connected f)

/-- The other thread gives its pointer up before the loop runs the functor; the client
keeps the connection. -/
theorem sent_by_another_thread : ∃ trace last, Run (Step (fun _ => 0) 1) start trace last ∧
    (∃ s ∈ trace.map Prod.fst, (s.loops 0).functors = [.sendInLoop 0]) ∧
    ∀ p ∈ trace, p.1.FindsOwned p.2 := by
  let swapped := (sent.letGo (.other 0) 0).setLoop 0 ⟨[], [.sendInLoop 0], []⟩
  have later : Run (Step (fun _ => 0) 1) connected
      [(connected, .acquire (.other 0) 0),
        (connected.hold (.other 0) 0, .send (.other 0) 0 false),
        ((connected.hold (.other 0) 0).setCall (.other 0) (.sending 0), .queueSend (.other 0)),
        (sent, .drop (.other 0) 0), (sent.letGo (.other 0) 0, .swap 0),
        (swapped, .runFunctor 0 true)]
      ((swapped.take 0 (.sendInLoop 0) []).queueInLoop 0 (.callback 0)) :=
    .cons (.acquire rfl ⟨_, owns_connected.mpr ⟨rfl, rfl⟩⟩) <|
      .cons (.send ⟨rfl, by decide⟩ nofun rfl) <|
      .cons (.queueSend rfl) <|
      .cons (.drop ⟨rfl, by decide⟩) <|
      .cons (.swap rfl ⟨rfl, rfl⟩) <|
      .cons (.runFunctor rfl rfl) <| .nil _
  have run := run_connected.append later
  refine ⟨_, _, run, ⟨swapped, by simp, rfl⟩, (queued_work_owned_iff _ _ run).2 fun p mem => ?_⟩
  have start' : ∀ f, start.Waits f → f.Shares := fun f waits => absurd waits (not_waits_start f)
  have kept : ∀ f, sent.Waits f → ∃ o, sent.Owns o f.conn ∧ ¬ sent.LastCopy (.other 0) 0 o f.conn := by
    intro f waits
    obtain rfl := waits_sent.mp waits
    exact ⟨.client 0, rfl, id⟩
  simp only [List.cons_append, List.nil_append, List.mem_cons, List.not_mem_nil, or_false] at mem
  rcases mem with rfl | rfl | rfl | rfl | rfl | rfl | rfl | rfl | rfl
  · exact keeps_of_quiet start' nofun
  · exact keeps_of_quiet start' nofun
  · exact keeps_of_quiet start' nofun
  · exact keeps_of_quiet start' nofun
  · exact keeps_of_quiet start' nofun
  · exact ⟨fun f waits bare => absurd (start' f waits) bare, nofun, fun t c same here => by
      cases same
      cases here
      rfl⟩
  · exact ⟨fun f waits _ _ => kept f waits, nofun, nofun⟩
  · exact ⟨fun f _ _ some => some.elim fun o drops => drops.2.elim, nofun, nofun⟩
  · refine ⟨fun f _ _ some => ?_, fun l notify c same first => ?_, nofun⟩
    · obtain ⟨o, -, d, first, -⟩ := some
      cases first
    · cases same
      cases first

/-- `~TcpClient` on the loop's thread: `handleClose` is queued, and nobody keeps the
connection for it. -/
theorem closed_unowned : ∃ trace last, Run (Step (fun _ => 0) 1) start trace last ∧
    ∃ p ∈ trace, ¬ p.1.FindsOwned p.2 := by
  let closing := ((connected.setClient 0 ⟨false, some 0⟩).hold (.loop 0) 0).setCall (.loop 0)
    (.closing 0 0 true)
  let forcing := (closing.setCloseCallback 0).setCall (.loop 0) (.forcing 0 0 true)
  let releasing := (forcing.queueInLoop 0 (.handleClose 0)).setCall (.loop 0) (.releasing 0 0)
  let gone := ((releasing.letGo (.loop 0) 0).setClient 0 ⟨false, none⟩).setCall (.loop 0) .none
  let swapped := gone.setLoop 0 ⟨[], [.handleClose 0], []⟩
  have later : Run (Step (fun _ => 0) 1) connected
      [(connected, .destroy (.loop 0) 0), (closing, .replaceCallback (.loop 0)),
        (forcing, .force (.loop 0)), (releasing, .release (.loop 0)), (gone, .swap 0),
        (swapped, .runFunctor 0 false)]
      ((swapped.take 0 (.handleClose 0) []).handleClose (fun _ => 0) 1 0) :=
    .cons (.destroy rfl rfl rfl (iff_of_true rfl fun o owns => (owns_connected.mp owns).1)) <|
      .cons (@Step.replaceHere _ _ _ 0 0 true rfl) <|
      .cons (.force rfl) <|
      .cons (.release rfl) <|
      .cons (.swap rfl ⟨rfl, rfl⟩) <|
      .cons (.runFunctor rfl rfl) <| .nil _
  refine ⟨_, _, run_connected.append later, (swapped, .runFunctor 0 false), by simp, ?_⟩
  intro finds
  obtain ⟨⟨o, owns⟩, -⟩ := finds 0 false (.handleClose 0) rfl rfl
  have before := owns_of_setLoop (s := gone) ⟨[], [.handleClose 0], []⟩
    (fun g shares there => by
      rw [List.mem_singleton.mp (there.resolve_left List.not_mem_nil)] at shares
      exact shares.elim) nofun owns
  rw [owns_setCall, owns_setClient] at before
  split at before
  · cases before
  · rename_i different
    obtain ⟨held, kept⟩ := owns_letGo.mp before
    rw [owns_setCall, owns_queueInLoop, owns_setCall, owns_setCloseCallback, owns_setCall,
      owns_hold, owns_setClient, if_neg different] at held
    rcases held with (there | ⟨rfl, -⟩) | ⟨-, shares, -⟩
    · exact different (owns_connected.mp there).1
    · exact kept ⟨rfl, rfl, by decide⟩
    · exact shares

end Ownership

end LaliRpc.Net
