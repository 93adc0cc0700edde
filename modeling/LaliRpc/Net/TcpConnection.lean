/-
# Net.TcpConnection — sending on a connection

The output side of `TcpConnection`, as functions on its state that take what the
kernel makes of the `::write` they perform. `sendInLoop` writes directly when
nothing is waiting, and keeps the rest of the message; it does the keeping
twice, in two blocks that are the same but for their conditions
(`sendInLoop_eq`). `handleWrite` drains what is kept.

`Conserved` is what a connection owes its peer: the messages given to
`sendInLoop` are the bytes accepted by the kernel, followed by those waiting. It
survives exactly the runs in which every nonempty message is accepted whole by
its direct write (`wire_conserved_iff`).
-/
import LaliRpc.Net.Buffer
import LaliRpc.Theory.Transition

namespace LaliRpc.Net

open LaliRpc.Theory

set_option autoImplicit false

/-! ## Channels -/

/-- The interest set of a channel, `events_`. -/
structure Channel where
  events : BitVec 32
  deriving DecidableEq, Repr

namespace Channel

def NoneEventFlag : BitVec 32 := 0

/-- `POLLIN | POLLPRI` -/
def ReadEventFlag : BitVec 32 := 3

/-- `POLLOUT` -/
def WriteEventFlag : BitVec 32 := 4

def enableReading (c : Channel) : Channel := ⟨c.events ||| ReadEventFlag⟩

def enableWriting (c : Channel) : Channel := ⟨c.events ||| WriteEventFlag⟩

def disableWriting (c : Channel) : Channel := ⟨c.events &&& ~~~WriteEventFlag⟩

def isWriting (c : Channel) : Bool := c.events &&& WriteEventFlag ≠ 0

end Channel

/-! ## The connection -/

/-- What the kernel makes of a `::write`: it fails, or it has room for `n` bytes. -/
inductive Kernel where
  | error
  | room (n : Nat)
  deriving DecidableEq, Repr

/-- The bytes accepted by `::write`, `none` for −1. -/
def Kernel.write : Kernel → Bytes → Option Bytes
  | .error, _ => none
  | .room n, data => some (data.take n)

/-- `enum State`. -/
inductive State where
  | connecting | connected | disconnecting | disconnected
  deriving DecidableEq, Repr

/-- What the output side of a connection does besides changing its state. -/
inductive Effect where
  /-- `::write` accepted these bytes -/
  | wrote (data : Bytes)
  | queueWriteComplete
  | queueHighWaterMark (size : Nat)
  /-- `socket_->shutdownWrite()` -/
  | shutdownWrite
  deriving DecidableEq, Repr

/-- The members of the output side; of the two callbacks, whether they are set. -/
structure TcpConnection where
  state : State
  channel : Channel
  outputBuffer : Buffer
  highWaterMark : Nat
  writeCompleteCallback : Bool
  highWaterMarkCallback : Bool

namespace TcpConnection

/-- The first block of `sendInLoop`: `n`, and what happened. -/
def writeDirectly (c : TcpConnection) (message : Bytes) (kernel : Kernel) : Nat × List Effect :=
  if c.channel.isWriting = false ∧ c.outputBuffer.readableBytes = 0 then
    match kernel.write message with
    | some accepted =>
        let remaining := message.length - accepted.length
        (accepted.length, .wrote accepted ::
          if remaining = 0 ∧ c.writeCompleteCallback then [.queueWriteComplete] else [])
    | none => (0, [])
  else (0, [])

/-- Append the message from byte `n` on to the output buffer, and ask to be told
when the socket is writable. -/
def keepRest (c : TcpConnection) (message : Bytes) (n : Nat) : TcpConnection :=
  let c := { c with outputBuffer := c.outputBuffer.append (message.drop n) }
  if c.channel.isWriting then c else { c with channel := c.channel.enableWriting }

/-- The high water mark callback, when the kept bytes cross the mark. -/
def crossHighWaterMark (c : TcpConnection) (remaining : Nat) : List Effect :=
  let oldLen := c.outputBuffer.readableBytes
  if c.highWaterMark < oldLen + remaining ∧ oldLen < c.highWaterMark ∧ c.highWaterMarkCallback then
    [.queueHighWaterMark (oldLen + remaining)]
  else []

def sendInLoop (c : TcpConnection) (message : Bytes) (kernel : Kernel) :
    TcpConnection × List Effect :=
  let direct := c.writeDirectly message kernel
  let n := direct.1
  let remaining := message.length - n
  let crossed := if 0 < remaining then c.crossHighWaterMark remaining else []
  let c := if 0 < remaining then c.keepRest message n else c
  -- the same again, after the block above
  let c := if n < message.length then c.keepRest message n else c
  (c, direct.2 ++ crossed)

def shutdownInLoop (c : TcpConnection) : List Effect :=
  if c.channel.isWriting then [] else [.shutdownWrite]

/-- The state change of `shutdown`, which then runs `shutdownInLoop` in the loop. -/
def shutdown (c : TcpConnection) : TcpConnection :=
  if c.state = .connected then { c with state := .disconnecting } else c

def handleWrite (c : TcpConnection) (kernel : Kernel) : TcpConnection × List Effect :=
  if c.channel.isWriting then
    match kernel.write c.outputBuffer.readable with
    | some accepted =>
        if 0 < accepted.length then
          let c := { c with outputBuffer := c.outputBuffer.retrieve accepted.length }
          if c.outputBuffer.readableBytes = 0 then
            let c := { c with channel := c.channel.disableWriting }
            (c, .wrote accepted :: if c.state = .disconnecting then c.shutdownInLoop else [])
          else (c, [.wrote accepted])
        else (c, [])
    | none => (c, [])
  else (c, [])

/-- A connection after `connectEstablished`. -/
def established (highWaterMark : Nat) (writeComplete highWater : Bool) : TcpConnection where
  state := .connected
  channel := Channel.enableReading ⟨Channel.NoneEventFlag⟩
  outputBuffer := Buffer.fresh
  highWaterMark := highWaterMark
  writeCompleteCallback := writeComplete
  highWaterMarkCallback := highWater

end TcpConnection

/-! ## Runs of one connection -/

inductive Op where
  | sendInLoop (message : Bytes) (kernel : Kernel)
  | handleWrite (kernel : Kernel)
  | shutdown
  | shutdownInLoop
  deriving DecidableEq, Repr

/-- A connection, with the messages given to `sendInLoop` so far and everything
that has happened. -/
structure Session where
  conn : TcpConnection
  sent : Bytes
  effects : List Effect

/-- The bytes `::write` has accepted. -/
def accepted (effects : List Effect) : Bytes :=
  effects.flatMap fun
    | .wrote data => data
    | _ => []

namespace Session

def start (c : TcpConnection) : Session := ⟨c, [], []⟩

def step (s : Session) : Op → Session
  | .sendInLoop message kernel =>
      let done := s.conn.sendInLoop message kernel
      ⟨done.1, s.sent ++ message, s.effects ++ done.2⟩
  | .handleWrite kernel =>
      let done := s.conn.handleWrite kernel
      ⟨done.1, s.sent, s.effects ++ done.2⟩
  | .shutdown => { s with conn := s.conn.shutdown }
  | .shutdownInLoop => { s with effects := s.effects ++ s.conn.shutdownInLoop }

def Step (s : Session) (op : Op) (s' : Session) : Prop := s' = s.step op

/-- Nothing sent was lost, repeated or reordered. -/
def Conserved (s : Session) : Prop :=
  s.sent = accepted s.effects ++ s.conn.outputBuffer.readable

/-- The operation does not leave a part of its message to the output buffer. -/
def WrittenWhole (s : Session) : Op → Prop
  | .sendInLoop message kernel =>
      message = [] ∨ (s.conn.channel.isWriting = false ∧ s.conn.outputBuffer.readableBytes = 0 ∧
        kernel.write message = some message)
  | _ => True

end Session

/-! ## What the operations do to the bytes -/

@[simp] theorem accepted_nil : accepted [] = [] := rfl

@[simp] theorem accepted_append (es fs : List Effect) :
    accepted (es ++ fs) = accepted es ++ accepted fs := by simp [accepted]

@[simp] theorem accepted_wrote (data : Bytes) (es : List Effect) :
    accepted (.wrote data :: es) = data ++ accepted es := rfl

namespace TcpConnection

variable {c : TcpConnection} {message : Bytes} {kernel : Kernel}

@[simp] theorem accepted_crossHighWaterMark (c : TcpConnection) (remaining : Nat) :
    accepted (c.crossHighWaterMark remaining) = [] := by
  simp only [crossHighWaterMark]
  split <;> rfl

@[simp] theorem accepted_shutdownInLoop (c : TcpConnection) :
    accepted c.shutdownInLoop = [] := by
  unfold shutdownInLoop
  split <;> rfl

theorem valid_keepRest (valid : c.outputBuffer.Valid) (message : Bytes) (n : Nat) :
    (c.keepRest message n).outputBuffer.Valid := by
  have appended := Buffer.valid_append valid (message.drop n)
  simp only [keepRest]
  split
  · exact appended
  · exact appended

theorem readable_keepRest (valid : c.outputBuffer.Valid) (message : Bytes) (n : Nat) :
    (c.keepRest message n).outputBuffer.readable =
      c.outputBuffer.readable ++ message.drop n := by
  have appended := Buffer.readable_append valid (message.drop n)
  simp only [keepRest]
  split
  · exact appended
  · exact appended

/-- The bytes accepted by the direct write are the first `n` of the message. -/
theorem writeDirectly_spec (c : TcpConnection) (message : Bytes) (kernel : Kernel) :
    (c.writeDirectly message kernel).1 ≤ message.length ∧
      accepted (c.writeDirectly message kernel).2 =
        message.take (c.writeDirectly message kernel).1 := by
  unfold writeDirectly
  split
  · cases kernel with
    | error => exact ⟨Nat.zero_le _, rfl⟩
    | room n =>
        have quiet : ∀ p : Prop, [Decidable p] →
            accepted (if p then [Effect.queueWriteComplete] else []) = [] := by
          intro p _
          split <;> rfl
        simp only [Kernel.write, accepted_wrote, quiet, List.append_nil, List.length_take]
        refine ⟨Nat.min_le_right _ _, ?_⟩
        rw [← List.take_take, List.take_length]
  · exact ⟨Nat.zero_le _, rfl⟩

/-- The direct write takes the whole message when there is nothing to take, or
when it is attempted and succeeds. -/
theorem writeDirectly_whole_iff :
    (c.writeDirectly message kernel).1 = message.length ↔
      message = [] ∨ (c.channel.isWriting = false ∧ c.outputBuffer.readableBytes = 0 ∧
        kernel.write message = some message) := by
  by_cases empty : message = []
  · subst empty
    have le := (c.writeDirectly_spec [] kernel).1
    exact iff_of_true (Nat.le_zero.mp le) (.inl rfl)
  · have positive := List.length_pos_iff.mpr empty
    by_cases direct : c.channel.isWriting = false ∧ c.outputBuffer.readableBytes = 0
    · rw [writeDirectly, if_pos direct]
      cases kernel with
      | error => simp [Kernel.write, empty, Ne.symm (Nat.ne_of_gt positive)]
      | room n => simp [Kernel.write, empty, direct, List.take_eq_self_iff]
    · rw [writeDirectly, if_neg direct]
      refine iff_of_false (Nat.ne_of_lt positive) ?_
      rintro (h | ⟨idle, nothing, -⟩)
      · exact empty h
      · exact direct ⟨idle, nothing⟩

/-- **Both blocks behind the direct write keep the rest of the message.** -/
theorem sendInLoop_eq (valid : c.outputBuffer.Valid) (message : Bytes) (kernel : Kernel) :
    (c.sendInLoop message kernel).1.outputBuffer.Valid ∧
      (c.sendInLoop message kernel).1.outputBuffer.readable = c.outputBuffer.readable ++
        message.drop (c.writeDirectly message kernel).1 ++
        message.drop (c.writeDirectly message kernel).1 ∧
      accepted (c.sendInLoop message kernel).2 =
        message.take (c.writeDirectly message kernel).1 := by
  obtain ⟨le, taken⟩ := c.writeDirectly_spec message kernel
  simp only [sendInLoop]
  by_cases rest : (c.writeDirectly message kernel).1 < message.length
  · have some : 0 < message.length - (c.writeDirectly message kernel).1 := by omega
    rw [if_pos some, if_pos some, if_pos rest]
    have once := valid_keepRest valid message (c.writeDirectly message kernel).1
    refine ⟨valid_keepRest once _ _, ?_, ?_⟩
    · rw [readable_keepRest once, readable_keepRest valid]
    · rw [accepted_append, taken, accepted_crossHighWaterMark, List.append_nil]
  · have none : ¬ 0 < message.length - (c.writeDirectly message kernel).1 := by omega
    rw [if_neg none, if_neg none, if_neg rest, List.drop_eq_nil_of_le (by omega)]
    refine ⟨valid, by simp, ?_⟩
    rw [accepted_append, taken, accepted_nil, List.append_nil]

/-- Draining moves bytes from the front of the output buffer to the kernel. -/
theorem handleWrite_eq (valid : c.outputBuffer.Valid) (kernel : Kernel) :
    (c.handleWrite kernel).1.outputBuffer.Valid ∧
      accepted (c.handleWrite kernel).2 ++ (c.handleWrite kernel).1.outputBuffer.readable =
        c.outputBuffer.readable := by
  unfold handleWrite
  split
  · cases kernel with
    | error => exact ⟨valid, rfl⟩
    | room n =>
        simp only [Kernel.write]
        split
        · have valid' := Buffer.valid_retrieve valid (c.outputBuffer.readable.take n).length
          have rest := Buffer.readable_retrieve valid (c.outputBuffer.readable.take n).length
          have whole : c.outputBuffer.readable.take n ++
              (c.outputBuffer.retrieve (c.outputBuffer.readable.take n).length).readable =
                c.outputBuffer.readable := by
            rw [rest]
            exact List.prefix_iff_eq_append.mp (List.take_prefix n _)
          split
          · refine ⟨valid', ?_⟩
            split <;> simpa using whole
          · exact ⟨valid', by simpa using whole⟩
        · exact ⟨valid, rfl⟩
  · exact ⟨valid, rfl⟩

end TcpConnection

/-! ## Conservation -/

namespace Session

variable {s s' : Session} {op : Op}

def ValidBuffer (s : Session) : Prop := s.conn.outputBuffer.Valid

theorem validBuffer_step (valid : s.ValidBuffer) (taken : Step s op s') : s'.ValidBuffer := by
  obtain rfl := taken
  cases op with
  | sendInLoop message kernel => exact (TcpConnection.sendInLoop_eq valid message kernel).1
  | handleWrite kernel => exact (TcpConnection.handleWrite_eq valid kernel).1
  | shutdown =>
      show s.conn.shutdown.outputBuffer.Valid
      unfold TcpConnection.shutdown
      split <;> exact valid
  | shutdownInLoop => exact valid

/-- Only `sendInLoop` can change the balance. -/
theorem conserved_other (valid : s.ValidBuffer) (conserved : s.Conserved) (taken : Step s op s')
    (other : ∀ message kernel, op ≠ .sendInLoop message kernel) : s'.Conserved := by
  obtain rfl := taken
  cases op with
  | sendInLoop message kernel => exact absurd rfl (other message kernel)
  | handleWrite kernel =>
      obtain ⟨-, moved⟩ := TcpConnection.handleWrite_eq valid kernel
      show s.sent = accepted (s.effects ++ (s.conn.handleWrite kernel).2) ++
        (s.conn.handleWrite kernel).1.outputBuffer.readable
      rw [accepted_append, List.append_assoc, moved]
      exact conserved
  | shutdown =>
      show s.sent = accepted s.effects ++ s.conn.shutdown.outputBuffer.readable
      unfold TcpConnection.shutdown
      split <;> exact conserved
  | shutdownInLoop =>
      show s.sent = accepted (s.effects ++ s.conn.shutdownInLoop) ++ _
      rw [accepted_append, TcpConnection.accepted_shutdownInLoop, List.append_nil]
      exact conserved

theorem conserved_kept (valid : s.ValidBuffer) (conserved : s.Conserved)
    (whole : s.WrittenWhole op) (taken : Step s op s') : s'.Conserved := by
  cases op with
  | sendInLoop message kernel =>
      obtain rfl := taken
      obtain ⟨-, waiting, took⟩ := TcpConnection.sendInLoop_eq valid message kernel
      have all := TcpConnection.writeDirectly_whole_iff.mpr whole
      rw [all, List.take_length] at took
      rw [all, List.drop_length, List.append_nil, List.append_nil] at waiting
      show s.sent ++ message = accepted (s.effects ++ (s.conn.sendInLoop message kernel).2) ++
        (s.conn.sendInLoop message kernel).1.outputBuffer.readable
      rw [accepted_append, took, waiting]
      -- either there is no message, or nothing was waiting in front of it
      rcases whole with rfl | ⟨-, idle, -⟩
      · rw [List.append_nil, List.append_nil]
        exact conserved
      · have nothing : s.conn.outputBuffer.readable = [] := by
          rw [← List.length_eq_zero_iff, Buffer.length_readable valid, idle]
        rw [Conserved, nothing, List.append_nil] at conserved
        rw [nothing, List.append_nil, conserved]
  | handleWrite kernel => exact conserved_other valid conserved taken (by simp)
  | shutdown => exact conserved_other valid conserved taken (by simp)
  | shutdownInLoop => exact conserved_other valid conserved taken (by simp)

/-- A message of which a part is kept is kept twice: there are then more bytes
than were sent. -/
theorem conserved_broken (valid : s.ValidBuffer) (conserved : s.Conserved)
    (partly : ¬ s.WrittenWhole op) (taken : Step s op s') : ¬ s'.Conserved := by
  cases op with
  | sendInLoop message kernel =>
      obtain rfl := taken
      obtain ⟨-, waiting, took⟩ := TcpConnection.sendInLoop_eq valid message kernel
      have le := (s.conn.writeDirectly_spec message kernel).1
      have ne := TcpConnection.writeDirectly_whole_iff.not.mpr partly
      intro conserved'
      change s.sent ++ message = accepted (s.effects ++ (s.conn.sendInLoop message kernel).2) ++
        (s.conn.sendInLoop message kernel).1.outputBuffer.readable at conserved'
      rw [accepted_append, took, waiting] at conserved'
      have before := congrArg List.length conserved
      have after := congrArg List.length conserved'
      simp only [List.length_append, List.length_take, List.length_drop] at before after
      omega
  | handleWrite kernel => exact absurd trivial partly
  | shutdown => exact absurd trivial partly
  | shutdownInLoop => exact absurd trivial partly

/-- While the balance holds, the peer has a prefix of what was sent. -/
theorem Conserved.isPrefix (conserved : s.Conserved) : accepted s.effects <+: s.sent :=
  ⟨_, conserved.symm⟩

end Session

/-- **Every state of a run is conserved exactly when every message is written
whole by its direct write.** -/
theorem wire_conserved_iff (highWaterMark : Nat) (writeComplete highWater : Bool)
    (trace : List (Session × Op)) (last : Session)
    (run : Run Session.Step
      (Session.start (TcpConnection.established highWaterMark writeComplete highWater)) trace last) :
    Run.Throughout Session.Conserved trace last ↔ ∀ p ∈ trace, Session.WrittenWhole p.1 p.2 :=
  run.invariant_iff (fun _ _ _ valid taken => Session.validBuffer_step valid taken)
    (fun _ _ _ valid conserved whole taken => Session.conserved_kept valid conserved whole taken)
    (fun _ _ _ valid conserved partly taken => Session.conserved_broken valid conserved partly taken)
    Buffer.valid_fresh rfl

/-! ### One message -/

/-- A new connection without callbacks. -/
def quiet : Session := Session.start (TcpConnection.established 64 false false)

/-- `sendInLoop("ab")` while the kernel has room for `n` bytes. -/
def sendAb (n : Nat) : Op := .sendInLoop (ascii "ab") (.room n)

theorem run_sendAb (n : Nat) :
    Run Session.Step quiet [(quiet, sendAb n)] (quiet.step (sendAb n)) :=
  .cons rfl (.nil _)

theorem ab_written_whole :
    Run.Throughout Session.Conserved [(quiet, sendAb 2)] (quiet.step (sendAb 2)) :=
  (wire_conserved_iff 64 false false _ _ (run_sendAb 2)).mpr (by
    intro p hp
    obtain rfl := List.mem_singleton.mp hp
    exact .inr ⟨by decide, by decide, by decide⟩)

/-- One byte of two is accepted, and the other is kept twice. -/
theorem ab_written_partly :
    Run Session.Step quiet [(quiet, sendAb 1)] (quiet.step (sendAb 1)) ∧
      accepted (quiet.step (sendAb 1)).effects = ascii "a" ∧
      (quiet.step (sendAb 1)).conn.outputBuffer.readable = ascii "bb" ∧
      ¬ (quiet.step (sendAb 1)).Conserved := by
  have took : accepted (quiet.step (sendAb 1)).effects = ascii "a" := by decide +kernel
  have kept : (quiet.step (sendAb 1)).conn.outputBuffer.readable = ascii "bb" := by
    decide +kernel
  refine ⟨run_sendAb 1, took, kept, ?_⟩
  rw [Session.Conserved, took, kept]
  decide +kernel

end LaliRpc.Net
