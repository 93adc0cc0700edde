/-
# Net.ServerConnection — a connection, its socket and its poller

A `TcpConnection` as its IO loop has it: with its channel's entry in the poller, the
kernel's side of its socket, and the calls that have been made for it. The events that a
poll would report come of the socket's readiness at that moment and the entry in the
epoll set: while the one lasts, so does the other.

From `connectEstablished` to `connectDestroyed` the entry asks for input (`Watched`).
-/
import LaliRpc.Net.Teardown

namespace LaliRpc.Net

set_option autoImplicit false

/-! ## A connection and its socket -/

/-- The kernel's side of a connected socket. -/
structure Socket where
  /-- received, and not read yet -/
  unread : Nat
  /-- The peer has closed its sending direction. -/
  fin : Bool
  /-- the events other than readability that hold now -/
  raised : BitVec 32
  deriving DecidableEq, Repr

namespace Socket

def ready (k : Socket) : BitVec 32 :=
  (if 0 < k.unread ∨ k.fin = true then Channel.POLLIN else 0) ||| k.raised

/-- What `::readv` can return: an error, 0 behind the last byte of a peer that has
closed, or some of the unread bytes. -/
def Reads (k : Socket) : Option Nat → Prop
  | none => True
  | some 0 => k.unread = 0 ∧ k.fin = true
  | some (n + 1) => n + 1 ≤ k.unread

instance (k : Socket) : DecidablePred k.Reads := fun n =>
  match n with
  | none => inferInstanceAs (Decidable True)
  | some 0 => inferInstanceAs (Decidable (k.unread = 0 ∧ k.fin = true))
  | some (n + 1) => inferInstanceAs (Decidable (n + 1 ≤ k.unread))

end Socket

/-- A connection with its channel's registration, its socket, and the calls made for it. -/
structure ServerConnection extends TcpConnection where
  registration : Poller.Registration
  socket : Socket
  calls : List Call

namespace ServerConnection

/-- `TcpConnection()`, which leaves `state_` as it finds it. -/
def fresh : ServerConnection where
  state := .connecting
  channel := ⟨Channel.NoneEventFlag⟩
  outputBuffer := Buffer.fresh
  highWaterMark := 64 * 1024 * 1024
  writeCompleteCallback := false
  highWaterMarkCallback := false
  registration := ⟨.new, none⟩
  socket := ⟨0, false, 0⟩
  calls := []

/-- `Channel::update`. -/
def update (c : ServerConnection) : ServerConnection :=
  { c with registration := c.registration.updateChannel c.channel }

def called (c : ServerConnection) (calls : List Call) : ServerConnection :=
  { c with calls := c.calls ++ calls }

/-- What `sendInLoop` or `handleWrite` has made of the output side. Both call
`enableWriting` and `disableWritinf` only where these change the interest set. -/
def settle (c : ServerConnection) (out : TcpConnection) : ServerConnection :=
  if out.channel = c.channel then { c with toTcpConnection := out }
  else { c with toTcpConnection := out }.update

def connectEstablished (c : ServerConnection) : ServerConnection :=
  { c with state := .connected, channel := c.channel.enableReading }.update.called
    [.connectionCallback .connected]

def connectDestroyed (c : ServerConnection) : ServerConnection :=
  let c := { c with state := .disconnected, channel := c.channel.disableAll }.update.called
    [.connectionCallback .disconnected]
  { c with registration := c.registration.removeChannel c.channel }

/-- `handleClose` up to what `closeCallback_` does. It asserts the state, and does not
depend on it. -/
def handleClose (c : ServerConnection) : ServerConnection :=
  { c with channel := c.channel.disableAll }.update.called [.handleClose, .closeCallback]

/-- `handleRead` up to the call of `handleClose`, when `readFd` returns `n`. -/
def handleRead (c : ServerConnection) (n : Option Nat) : ServerConnection :=
  { c with socket := { c.socket with unread := c.socket.unread - n.getD 0 } }.called
    (match n with
      | some (n + 1) => [.handleRead, .messageCallback (n + 1)]
      | _ => [.handleRead])

def sendInLoop (c : ServerConnection) (message : Bytes) (kernel : Kernel) : ServerConnection :=
  c.settle (c.toTcpConnection.sendInLoop message kernel).1

def handleWrite (c : ServerConnection) (kernel : Kernel) : ServerConnection :=
  (c.called [.handleWrite]).settle (c.toTcpConnection.handleWrite kernel).1

/-- What a poll would report of the connection. -/
def report (c : ServerConnection) : BitVec 32 := c.registration.report c.socket.ready

end ServerConnection

/-! ## What keeps a connection in the epoll set -/

namespace TcpConnection

variable {c : TcpConnection}

theorem isReading_keepRest (reading : c.channel.IsReading) (message : Bytes) (n : Nat) :
    (c.keepRest message n).channel.IsReading := by
  simp only [keepRest]
  split
  · exact reading
  · exact Channel.isReading_enableWriting reading

theorem isReading_sendInLoop (reading : c.channel.IsReading) (message : Bytes) (kernel : Kernel) :
    (c.sendInLoop message kernel).1.channel.IsReading := by
  have kept := isReading_keepRest reading message (c.writeDirectly message kernel).1
  simp only [sendInLoop]
  split
  · split
    · exact isReading_keepRest kept message _
    · exact isReading_keepRest reading message _
  · split
    · exact kept
    · exact reading

theorem isReading_handleWrite (reading : c.channel.IsReading) (kernel : Kernel) :
    (c.handleWrite kernel).1.channel.IsReading := by
  have disabled := Channel.isReading_disableWriting reading
  simp only [handleWrite]
  repeat' split
  all_goals first | exact reading | exact disabled

end TcpConnection

namespace ServerConnection

/-- The connection has been given to the user, and has not been taken back. -/
def Up (c : ServerConnection) : Prop :=
  .connectionCallback .connected ∈ c.calls ∧ .connectionCallback .disconnected ∉ c.calls

/-- The epoll set has what the channel asks for; and from `connectEstablished` on it asks
for input, and until `connectDestroyed` it is in the set. -/
structure Watched (c : ServerConnection) : Prop where
  mirrors : c.registration.Mirrors c.channel
  reading : .connectionCallback .connected ∈ c.calls → c.channel.IsReading
  added : c.Up → c.registration.index = .add

variable {c : ServerConnection}

theorem watched_fresh : fresh.Watched where
  mirrors := rfl
  reading up := absurd up List.not_mem_nil
  added up := absurd up.1 List.not_mem_nil

/-- `update()` after a change to the interest set. -/
theorem watched_update {old : Channel} (mirrors : c.registration.Mirrors old)
    (reading : .connectionCallback .connected ∈ c.calls → c.channel.IsReading) :
    c.update.Watched where
  mirrors := Poller.Registration.mirrors_updateChannel mirrors c.channel
  reading := reading
  added up := Poller.Registration.index_updateChannel
    (Channel.isNoneEvent_of_isReading (reading up.1))

/-- Calls that do not tell the user of a connection. -/
theorem watched_called (watched : c.Watched) {calls : List Call}
    (silent : .connectionCallback .connected ∉ calls) : (c.called calls).Watched where
  mirrors := watched.mirrors
  reading up := watched.reading ((List.mem_append.mp up).resolve_right silent)
  added up := watched.added ⟨(List.mem_append.mp up.1).resolve_right silent,
    fun down => up.2 (List.mem_append_left _ down)⟩

theorem watched_settle (watched : c.Watched) {out : TcpConnection}
    (reading : c.channel.IsReading → out.channel.IsReading) : (c.settle out).Watched := by
  simp only [settle]
  split
  · rename_i same
    refine ⟨?_, fun up => reading (watched.reading up), watched.added⟩
    show c.registration.Mirrors out.channel
    exact same ▸ watched.mirrors
  · exact watched_update (c := { c with toTcpConnection := out }) watched.mirrors
      fun up => reading (watched.reading up)

theorem watched_connectEstablished (watched : c.Watched) : c.connectEstablished.Watched where
  mirrors := Poller.Registration.mirrors_updateChannel watched.mirrors _
  reading _ := Channel.isReading_enableReading c.channel
  added _ := Poller.Registration.index_updateChannel
    (Channel.isNoneEvent_of_isReading (Channel.isReading_enableReading c.channel))

theorem watched_connectDestroyed (watched : c.Watched) : c.connectDestroyed.Watched where
  mirrors := Poller.Registration.mirrors_removeChannel
    (Poller.Registration.mirrors_updateChannel watched.mirrors _) _
  reading up := watched.reading (by simpa [connectDestroyed, called, update] using up)
  added up := absurd (by simp [connectDestroyed, called]) up.2

theorem watched_handleClose (watched : c.Watched) : c.handleClose.Watched :=
  watched_called (watched_update watched.mirrors watched.reading) (by simp)

theorem watched_sendInLoop (watched : c.Watched) (message : Bytes) (kernel : Kernel) :
    (c.sendInLoop message kernel).Watched :=
  watched_settle watched fun reading => TcpConnection.isReading_sendInLoop reading message kernel

theorem watched_handleWrite (watched : c.Watched) (kernel : Kernel) :
    (c.handleWrite kernel).Watched :=
  watched_settle (watched_called watched (by simp)) fun reading =>
    TcpConnection.isReading_handleWrite reading kernel

end ServerConnection

end LaliRpc.Net
