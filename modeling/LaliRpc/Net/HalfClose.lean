/-
# Net.HalfClose — write interest and the deferred half-close

`shutdown` sets the state and has the loop run `shutdownInLoop`, which closes the
sending direction if nothing is waiting to be written. If something is, the close
is left to the `handleWrite` that drains the output buffer. That works because the
channel is watched for writability exactly while bytes are waiting, whatever
`::write` makes of them (`half_close_tracks_backlog`).
-/
import LaliRpc.Net.TcpConnection

namespace LaliRpc.Net

open LaliRpc.Theory

set_option autoImplicit false

namespace Channel

@[simp] theorem isWriting_enableWriting (c : Channel) : c.enableWriting.isWriting = true := by
  have kept : (c.events ||| WriteEventFlag) &&& WriteEventFlag = WriteEventFlag := by
    ext i
    simp only [BitVec.getElem_and, BitVec.getElem_or]
    cases WriteEventFlag[i] <;> simp
  simp only [isWriting, enableWriting, kept]
  decide

@[simp] theorem isWriting_disableWriting (c : Channel) : c.disableWriting.isWriting = false := by
  have cleared : (c.events &&& ~~~WriteEventFlag) &&& WriteEventFlag = 0 := by
    rw [BitVec.and_assoc, BitVec.and_comm (~~~WriteEventFlag), BitVec.and_not_self]
    exact BitVec.and_zero
  simp only [isWriting, disableWriting, cleared]
  decide

end Channel

namespace TcpConnection

variable {c : TcpConnection}

/-- `handleWrite` writes the last of the output buffer. -/
def drains (c : TcpConnection) (kernel : Kernel) : Bool :=
  match kernel.write c.outputBuffer.readable with
  | some accepted =>
      c.channel.isWriting && decide (0 < accepted.length) &&
        (c.outputBuffer.retrieve accepted.length).readableBytes == 0
  | none => false

/-- `handleWrite` runs `shutdownInLoop` when it drains a connection that is
disconnecting. -/
def runsShutdownInLoop (c : TcpConnection) : Op → Bool
  | .handleWrite kernel => c.drains kernel && c.state == .disconnecting
  | .shutdownInLoop => true
  | _ => false

/-- The channel is watched for writability exactly while bytes are waiting. -/
def WritesBacklog (c : TcpConnection) : Prop :=
  c.channel.isWriting = true ↔ c.outputBuffer.readable ≠ []

/-! ## What the operations do to it -/

theorem state_keepRest (message : Bytes) (n : Nat) : (c.keepRest message n).state = c.state := by
  simp only [keepRest]
  split <;> rfl

theorem isWriting_keepRest (message : Bytes) (n : Nat) :
    (c.keepRest message n).channel.isWriting = true := by
  simp only [keepRest]
  split
  · assumption
  · exact Channel.isWriting_enableWriting _

theorem state_sendInLoop (message : Bytes) (kernel : Kernel) :
    (c.sendInLoop message kernel).1.state = c.state := by
  simp only [sendInLoop]
  split <;> split <;> simp only [state_keepRest]

/-- Whatever the kernel takes, a message leaves write interest behind exactly with
bytes to write. -/
theorem writesBacklog_sendInLoop (valid : c.outputBuffer.Valid) (backlog : c.WritesBacklog)
    (message : Bytes) (kernel : Kernel) : (c.sendInLoop message kernel).1.WritesBacklog := by
  obtain ⟨-, waiting, -⟩ := sendInLoop_eq valid message kernel
  by_cases rest : (c.writeDirectly message kernel).1 < message.length
  · have left : message.drop (c.writeDirectly message kernel).1 ≠ [] := by
      rw [ne_eq, List.drop_eq_nil_iff]
      omega
    refine iff_of_true ?_ ?_
    · simp only [sendInLoop, if_pos rest]
      exact isWriting_keepRest _ _
    · rw [waiting]
      exact List.append_ne_nil_of_right_ne_nil _ left
  · have none : ¬ 0 < message.length - (c.writeDirectly message kernel).1 := by omega
    simp only [sendInLoop, if_neg rest, if_neg none]
    exact backlog

/-- A byte that waited before a `sendInLoop` waits behind it. -/
theorem readable_sendInLoop_ne_nil (valid : c.outputBuffer.Valid) {message : Bytes}
    {kernel : Kernel} (empty : (c.sendInLoop message kernel).1.outputBuffer.readable = []) :
    c.outputBuffer.readable = [] := by
  rw [(sendInLoop_eq valid message kernel).2.1, List.append_assoc] at empty
  exact (List.append_eq_nil_iff.mp empty).1

/-- The three outcomes of `handleWrite`: nothing happens, some of the waiting bytes
go, or all of them do. -/
theorem handleWrite_cases (valid : c.outputBuffer.Valid) (kernel : Kernel) :
    (c.handleWrite kernel = (c, []) ∧ c.drains kernel = false) ∨
    (∃ accepted, c.channel.isWriting = true ∧
      (c.outputBuffer.retrieve accepted).readable ≠ [] ∧ c.drains kernel = false ∧
      (c.handleWrite kernel).1 = { c with outputBuffer := c.outputBuffer.retrieve accepted } ∧
      Effect.shutdownWrite ∉ (c.handleWrite kernel).2) ∨
    (∃ accepted, (c.outputBuffer.retrieve accepted).readable = [] ∧ c.drains kernel = true ∧
      (c.handleWrite kernel).1 = { c with
        outputBuffer := c.outputBuffer.retrieve accepted
        channel := c.channel.disableWriting } ∧
      (Effect.shutdownWrite ∈ (c.handleWrite kernel).2 ↔ c.state = .disconnecting)) := by
  by_cases writing : c.channel.isWriting = true
  · cases kernel with
    | error =>
        refine .inl ⟨?_, rfl⟩
        rw [handleWrite, if_pos writing]
        rfl
    | room n =>
        by_cases some : 0 < (c.outputBuffer.readable.take n).length
        · have valid' := Buffer.valid_retrieve valid (c.outputBuffer.readable.take n).length
          have size := Buffer.length_readable valid'
          simp only [handleWrite, Kernel.write, if_pos some, drains, writing, decide_eq_true some,
            Bool.true_and]
          by_cases empty : (c.outputBuffer.retrieve
              (c.outputBuffer.readable.take n).length).readableBytes = 0
          · refine .inr (.inr ⟨_, List.length_eq_zero_iff.mp (size.trans empty), ?_, ?_, ?_⟩)
            · rw [empty]
              rfl
            · simp only [if_pos empty, if_true]
            · simp only [if_pos empty, if_true]
              by_cases leaving : c.state = .disconnecting
              · simp [leaving, shutdownInLoop]
              · simp [leaving]
          · refine .inr (.inl ⟨(c.outputBuffer.readable.take n).length, trivial, ?_, ?_, ?_, ?_⟩)
            · intro nil
              exact empty (size.symm.trans (List.length_eq_zero_iff.mpr nil))
            · exact beq_eq_false_iff_ne.mpr empty
            · simp only [if_neg empty, if_true]
            · simp only [if_neg empty, if_true, List.mem_singleton, reduceCtorEq,
                not_false_eq_true]
        · refine .inl ⟨?_, ?_⟩
          · simp only [handleWrite, if_pos writing, Kernel.write, if_neg some]
          · simp only [drains, Kernel.write, decide_eq_false some, Bool.and_false, Bool.false_and]
  · refine .inl ⟨by rw [handleWrite, if_neg writing], ?_⟩
    cases kernel with
    | error => rfl
    | room n => simp [drains, Kernel.write, Bool.not_eq_true _ ▸ writing]

theorem state_handleWrite (valid : c.outputBuffer.Valid) (kernel : Kernel) :
    (c.handleWrite kernel).1.state = c.state := by
  obtain ⟨same, -⟩ | ⟨_, -, -, -, same, -⟩ | ⟨_, -, -, same, -⟩ := handleWrite_cases valid kernel
  · rw [same]
  · rw [same]
  · rw [same]

theorem writesBacklog_handleWrite (valid : c.outputBuffer.Valid) (backlog : c.WritesBacklog)
    (kernel : Kernel) : (c.handleWrite kernel).1.WritesBacklog := by
  obtain ⟨same, -⟩ | ⟨_, writing, left, -, same, -⟩ | ⟨_, empty, -, same, -⟩ :=
    handleWrite_cases valid kernel
  · rw [same]
    exact backlog
  · rw [same]
    exact iff_of_true writing left
  · rw [same]
    refine iff_of_false ?_ fun left => left empty
    show ¬ c.channel.disableWriting.isWriting = true
    simp

/-- A disconnecting connection that `handleWrite` leaves with nothing to write had
nothing to write before, or is closed by it. -/
theorem handleWrite_empty (valid : c.outputBuffer.Valid) (kernel : Kernel)
    (leaving : c.state = .disconnecting)
    (empty : (c.handleWrite kernel).1.outputBuffer.readable = []) :
    (c.drains kernel = false ∧ c.outputBuffer.readable = []) ∨
      Effect.shutdownWrite ∈ (c.handleWrite kernel).2 := by
  obtain ⟨same, quiet⟩ | ⟨_, -, left, -, same, -⟩ | ⟨_, -, -, -, shuts⟩ :=
    handleWrite_cases valid kernel
  · rw [same] at empty
    exact .inl ⟨quiet, empty⟩
  · rw [same] at empty
    exact absurd empty left
  · exact .inr (shuts.mpr leaving)

theorem empty_of_handleWrite_shuts (valid : c.outputBuffer.Valid) (kernel : Kernel)
    (shut : Effect.shutdownWrite ∈ (c.handleWrite kernel).2) :
    (c.handleWrite kernel).1.outputBuffer.readable = [] := by
  obtain ⟨same, -⟩ | ⟨_, -, -, -, -, kept⟩ | ⟨_, empty, -, same, -⟩ :=
    handleWrite_cases valid kernel
  · rw [same] at shut
    cases shut
  · exact absurd shut kept
  · rw [same]
    exact empty

theorem shutdownWrite_notMem_sendInLoop (message : Bytes) (kernel : Kernel) :
    Effect.shutdownWrite ∉ (c.sendInLoop message kernel).2 := by
  have direct : Effect.shutdownWrite ∉ (c.writeDirectly message kernel).2 := by
    unfold writeDirectly
    split
    · cases kernel with
      | error => exact List.not_mem_nil
      | room n =>
          simp only [Kernel.write, List.mem_cons, reduceCtorEq, false_or]
          split <;> simp
    · exact List.not_mem_nil
  have crossed : ∀ n, Effect.shutdownWrite ∉ c.crossHighWaterMark n := by
    intro n
    simp only [crossHighWaterMark]
    split <;> simp
  simp only [sendInLoop, List.mem_append, not_or]
  refine ⟨direct, ?_⟩
  split
  · exact crossed _
  · exact List.not_mem_nil

theorem shutdownWrite_mem_shutdownInLoop :
    Effect.shutdownWrite ∈ c.shutdownInLoop ↔ c.channel.isWriting = false := by
  unfold shutdownInLoop
  split <;> simp_all

end TcpConnection

/-! ## Runs with a shutdown -/

/-- A session, the `shutdownInLoop` calls its `shutdown` has given to the loop, and
whether one has run. -/
structure Closing where
  session : Session
  queued : Nat
  ran : Bool

namespace Closing

/-- An operation; the loop runs `shutdownInLoop` as often as `shutdown` asks for. -/
inductive Step : Closing → Op → Closing → Prop where
  | shutdown (s : Closing) : Step s .shutdown
      { session := s.session.step .shutdown
        queued := if s.session.conn.state = .connected then s.queued + 1 else s.queued
        ran := s.ran }
  | shutdownInLoop {s : Closing} {n : Nat} (queued : s.queued = n + 1) : Step s .shutdownInLoop
      { session := s.session.step .shutdownInLoop, queued := n, ran := true }
  | other {s : Closing} {op : Op} (notShutdown : op ≠ .shutdown)
      (notInLoop : op ≠ .shutdownInLoop) : Step s op
      { session := s.session.step op
        queued := s.queued
        ran := s.ran || s.session.conn.runsShutdownInLoop op }

/-- A new connection, before any operation. -/
def start (highWaterMark : Nat) (writeComplete highWater : Bool) : Closing :=
  ⟨Session.start (TcpConnection.established highWaterMark writeComplete highWater), 0, false⟩

/-- The sending direction has been closed where it should have been. -/
def Closed (s : Closing) : Prop :=
  s.session.conn.state = .disconnecting → s.ran = true →
    s.session.conn.outputBuffer.readable = [] → Effect.shutdownWrite ∈ s.session.effects

structure Inv (s : Closing) : Prop where
  valid : s.session.conn.outputBuffer.Valid
  backlog : s.session.conn.WritesBacklog
  /-- before `shutdown` there is no `shutdownInLoop` -/
  before : s.session.conn.state = .connected → s.queued = 0 ∧ s.ran = false
  closed : s.Closed

variable {s s' : Closing} {op : Op}

theorem inv_start (highWaterMark : Nat) (writeComplete highWater : Bool) :
    Inv (start highWaterMark writeComplete highWater) where
  valid := Buffer.valid_fresh
  backlog := by
    refine iff_of_false ?_ fun nonempty => nonempty Buffer.readable_fresh
    show ¬ (Channel.enableReading ⟨Channel.NoneEventFlag⟩).isWriting = true
    decide
  before _ := ⟨rfl, rfl⟩
  closed leaving := by cases leaving

theorem step_shutdown (s : Session) : (s.step .shutdown).effects = s.effects ∧
    (s.step .shutdown).conn.outputBuffer = s.conn.outputBuffer ∧
    (s.step .shutdown).conn.channel = s.conn.channel ∧
    (s.step .shutdown).conn.state ≠ .connected ∧
    (s.conn.state ≠ .connected → (s.step .shutdown).conn.state = s.conn.state) := by
  show _ ∧ s.conn.shutdown.outputBuffer = _ ∧ s.conn.shutdown.channel = _ ∧
    s.conn.shutdown.state ≠ _ ∧ (_ → s.conn.shutdown.state = _)
  by_cases open' : s.conn.state = .connected
  · rw [TcpConnection.shutdown, if_pos open']
    exact ⟨rfl, rfl, rfl, State.noConfusion, fun h => absurd open' h⟩
  · rw [TcpConnection.shutdown, if_neg open']
    exact ⟨rfl, rfl, rfl, open', fun _ => rfl⟩

/-- Each operation keeps write interest and the backlog together, and the sending
direction closed where it should be. -/
theorem inv_step (inv : Inv s) (taken : Step s op s') : Inv s' := by
  obtain ⟨valid, backlog, before, closed⟩ := inv
  cases taken with
  | shutdown =>
      obtain ⟨effects, buffer, channel, left, same⟩ := step_shutdown s.session
      refine ⟨by rw [buffer]; exact valid, ?_, fun again => absurd again left, ?_⟩
      · show (s.session.step .shutdown).conn.channel.isWriting = true ↔ _
        rw [buffer, channel]
        exact backlog
      · intro leaving ran empty
        show _ ∈ (s.session.step .shutdown).effects
        rw [effects]
        by_cases connected : s.session.conn.state = .connected
        · rw [show s.ran = true from ran] at before
          cases (before connected).2
        · rw [same connected] at leaving
          rw [buffer] at empty
          exact closed leaving ran empty
  | shutdownInLoop queued =>
      refine ⟨valid, backlog, fun connected => ?_, fun leaving _ empty => ?_⟩
      · rw [(before connected).1] at queued
        cases queued
      · have idle : s.session.conn.channel.isWriting = false := by
          rw [← Bool.not_eq_true]
          exact fun writing => backlog.mp writing empty
        exact List.mem_append_right _ (TcpConnection.shutdownWrite_mem_shutdownInLoop.mpr idle)
  | other notShutdown notInLoop =>
      cases op with
      | shutdown => exact absurd rfl notShutdown
      | shutdownInLoop => exact absurd rfl notInLoop
      | sendInLoop message kernel =>
          have same := TcpConnection.state_sendInLoop (c := s.session.conn) message kernel
          refine ⟨(TcpConnection.sendInLoop_eq valid message kernel).1,
            TcpConnection.writesBacklog_sendInLoop valid backlog message kernel, ?_, ?_⟩
          · intro connected
            have unran := before (same.symm.trans connected)
            simpa [TcpConnection.runsShutdownInLoop] using unran
          · intro leaving ran empty
            have ran' : s.ran = true := by simpa [TcpConnection.runsShutdownInLoop] using ran
            exact List.mem_append_left _ (closed (same.symm.trans leaving) ran'
              (TcpConnection.readable_sendInLoop_ne_nil valid empty))
      | handleWrite kernel =>
          have same := TcpConnection.state_handleWrite (c := s.session.conn) valid kernel
          refine ⟨(TcpConnection.handleWrite_eq valid kernel).1,
            TcpConnection.writesBacklog_handleWrite valid backlog kernel, ?_, ?_⟩
          · intro connected
            have connected' := same.symm.trans connected
            simpa [TcpConnection.runsShutdownInLoop, connected'] using before connected'
          · intro leaving ran empty
            have leaving' := same.symm.trans leaving
            obtain ⟨quiet, nothing⟩ | shut :=
              TcpConnection.handleWrite_empty valid kernel leaving' empty
            · have ran' : s.ran = true := by
                simpa [TcpConnection.runsShutdownInLoop, quiet] using ran
              exact List.mem_append_left _ (closed leaving' ran' nothing)
            · exact List.mem_append_right _ shut

/-- A step that closes the sending direction does so with nothing left to write. -/
theorem empty_of_shutdownWrite (inv : Inv s) (taken : Step s op s') {es : List Effect}
    (effects : s'.session.effects = s.session.effects ++ es)
    (shut : Effect.shutdownWrite ∈ es) : s'.session.conn.outputBuffer.readable = [] := by
  obtain ⟨valid, backlog, -, -⟩ := inv
  cases taken with
  | shutdown =>
      rw [(step_shutdown s.session).1, List.self_eq_append_right] at effects
      rw [effects] at shut
      cases shut
  | shutdownInLoop queued =>
      obtain rfl := List.append_cancel_left effects
      have idle := TcpConnection.shutdownWrite_mem_shutdownInLoop.mp shut
      by_contra waiting
      rw [backlog.mpr waiting] at idle
      cases idle
  | other notShutdown notInLoop =>
      cases op with
      | shutdown => exact absurd rfl notShutdown
      | shutdownInLoop => exact absurd rfl notInLoop
      | sendInLoop message kernel =>
          obtain rfl := List.append_cancel_left effects
          exact absurd shut (TcpConnection.shutdownWrite_notMem_sendInLoop message kernel)
      | handleWrite kernel =>
          obtain rfl := List.append_cancel_left effects
          exact TcpConnection.empty_of_handleWrite_shuts valid kernel shut

end Closing

/-- **Write interest follows the backlog, and the half-close waits for it.** In
every state a connection can reach, whatever `::write` returns: it is watched for
writability exactly while bytes are waiting; no operation closes the sending
direction in front of waiting bytes; and once `shutdownInLoop` has run and nothing
is waiting, the direction has been closed. -/
theorem half_close_tracks_backlog {highWaterMark : Nat} {writeComplete highWater : Bool}
    {trace : List (Closing × Op)} {last : Closing}
    (run : Run Closing.Step (Closing.start highWaterMark writeComplete highWater) trace last) :
    (last.session.conn.channel.isWriting = true ↔
      last.session.conn.outputBuffer.readable ≠ []) ∧
    (∀ op next es, Closing.Step last op next →
      next.session.effects = last.session.effects ++ es → Effect.shutdownWrite ∈ es →
      next.session.conn.outputBuffer.readable = []) ∧
    (last.session.conn.state = .disconnecting → last.ran = true →
      last.session.conn.outputBuffer.readable = [] →
      Effect.shutdownWrite ∈ last.session.effects) := by
  have inv := run.invariant_last (fun _ _ _ inv taken => Closing.inv_step inv taken)
    (Closing.inv_start highWaterMark writeComplete highWater)
  refine ⟨inv.backlog, ?_, inv.closed⟩
  intro op next es taken effects shut
  exact Closing.empty_of_shutdownWrite inv taken effects shut

/-- `sendInLoop("ab")` with room for one byte, then `shutdown`. -/
theorem shutdown_waits :
    ∃ last, Run Closing.Step (Closing.start 64 false false)
        [(Closing.start 64 false false, sendAb 1),
          (⟨quiet.step (sendAb 1), 0, false⟩, .shutdown),
          (⟨(quiet.step (sendAb 1)).step .shutdown, 1, false⟩, .shutdownInLoop)] last ∧
      last.ran = true ∧ Effect.shutdownWrite ∉ last.session.effects ∧
      last.session.conn.channel.isWriting = true := by
  have run : Run Closing.Step (Closing.start 64 false false)
      [(Closing.start 64 false false, sendAb 1),
        (⟨quiet.step (sendAb 1), 0, false⟩, .shutdown),
        (⟨(quiet.step (sendAb 1)).step .shutdown, 1, false⟩, .shutdownInLoop)]
      ⟨((quiet.step (sendAb 1)).step .shutdown).step .shutdownInLoop, 0, true⟩ :=
    .cons (.other (by decide) (by decide)) <|
      .cons (.shutdown _) <| .cons (.shutdownInLoop rfl) (.nil _)
  refine ⟨_, run, rfl, by decide +kernel, ?_⟩
  exact (half_close_tracks_backlog run).1.mpr (by decide +kernel)

end LaliRpc.Net
