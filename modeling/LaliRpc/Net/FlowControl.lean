/-
# Net.FlowControl — the two callbacks of a sender

A sender that must not fill memory is told of its backlog, the bytes that wait in
the output buffer: by the high water mark callback when it has grown beyond the
mark, and by the write-complete callback when everything has gone out.

The first is queued for the size the rest of a message would lead to if it were
kept once. It is kept twice, so no size is the one that was reached, and the callback
is right on exactly the runs in which no message takes the backlog over the mark
(`highWater_accurate_iff`). The second is queued when a message goes out at once, but
not by `handleWrite`: it is right on exactly the runs in which `handleWrite` never
empties the output buffer (`writeComplete_accurate_iff`).
-/
import LaliRpc.Net.HalfClose

namespace LaliRpc.Net

open LaliRpc.Theory

set_option autoImplicit false

/-! ## What is queued -/

/-- The sizes passed to the high water mark callback. -/
def highWaterMarks (effects : List Effect) : List Nat :=
  effects.filterMap fun
    | .queueHighWaterMark size => some size
    | _ => none

@[simp] theorem highWaterMarks_append (es fs : List Effect) :
    highWaterMarks (es ++ fs) = highWaterMarks es ++ highWaterMarks fs := by
  simp [highWaterMarks]

namespace TcpConnection

/-- The unsent bytes. -/
def backlog (c : TcpConnection) : Nat := c.outputBuffer.readableBytes

/-- What the kernel leaves of a message, of which it is offered all if nothing waits
in front of it, and nothing otherwise. -/
def unsent (c : TcpConnection) (message : Bytes) : Kernel → Bytes
  | .error => message
  | .room n =>
      if c.channel.isWriting = false ∧ c.backlog = 0 then message.drop n else message

variable {c : TcpConnection} {message : Bytes} {kernel : Kernel}

theorem drop_writeDirectly (c : TcpConnection) (message : Bytes) (kernel : Kernel) :
    message.drop (c.writeDirectly message kernel).1 = c.unsent message kernel := by
  unfold writeDirectly
  cases kernel with
  | error =>
      split
      · rfl
      · rfl
  | room n =>
      by_cases direct : c.channel.isWriting = false ∧ c.outputBuffer.readableBytes = 0
      · rw [if_pos direct, unsent, backlog, if_pos direct]
        show message.drop (message.take n).length = message.drop n
        by_cases le : n ≤ message.length
        · rw [List.length_take_of_le le]
        · rw [List.take_of_length_le (by omega), List.drop_length,
            List.drop_eq_nil_of_le (by omega)]
      · rw [if_neg direct, unsent, backlog, if_neg direct]
        rfl

/-- A message adds twice what the kernel leaves of it. -/
theorem backlog_sendInLoop (valid : c.outputBuffer.Valid) (message : Bytes) (kernel : Kernel) :
    (c.sendInLoop message kernel).1.backlog =
      c.backlog + 2 * (c.unsent message kernel).length := by
  obtain ⟨valid', kept, -⟩ := sendInLoop_eq valid message kernel
  have size := congrArg List.length kept
  rw [drop_writeDirectly, List.length_append, List.length_append,
    Buffer.length_readable valid', Buffer.length_readable valid] at size
  simp only [backlog]
  omega

theorem remaining_eq (c : TcpConnection) (message : Bytes) (kernel : Kernel) :
    message.length - (c.writeDirectly message kernel).1 = (c.unsent message kernel).length := by
  rw [← drop_writeDirectly, List.length_drop]

theorem highWaterMarks_writeDirectly (c : TcpConnection) (message : Bytes) (kernel : Kernel) :
    highWaterMarks (c.writeDirectly message kernel).2 = [] := by
  unfold writeDirectly
  split
  · split
    · simp only [highWaterMarks]
      split <;> rfl
    · rfl
  · rfl

/-- **The callback is asked for the size before the message plus its rest.** -/
theorem highWaterMarks_sendInLoop (c : TcpConnection) (message : Bytes) (kernel : Kernel) :
    highWaterMarks (c.sendInLoop message kernel).2 =
      if 0 < (c.unsent message kernel).length ∧
          c.highWaterMark < c.backlog + (c.unsent message kernel).length ∧
          c.backlog < c.highWaterMark ∧ c.highWaterMarkCallback then
        [c.backlog + (c.unsent message kernel).length]
      else [] := by
  simp only [sendInLoop, highWaterMarks_append, highWaterMarks_writeDirectly, List.nil_append,
    remaining_eq]
  by_cases rest : 0 < (c.unsent message kernel).length
  · by_cases crossed : c.highWaterMark < c.backlog + (c.unsent message kernel).length ∧
        c.backlog < c.highWaterMark ∧ c.highWaterMarkCallback = true
    · rw [if_pos rest, if_pos ⟨rest, crossed⟩, crossHighWaterMark]
      simp only [backlog] at crossed ⊢
      rw [if_pos crossed]
      rfl
    · rw [if_pos rest, if_neg fun h => crossed h.2, crossHighWaterMark]
      simp only [backlog] at crossed
      rw [if_neg crossed]
      rfl
  · simp only [rest, false_and, if_false]
    rfl

theorem mem_shutdownInLoop {e : Effect} (mem : e ∈ c.shutdownInLoop) : e = .shutdownWrite := by
  unfold shutdownInLoop at mem
  split at mem
  · cases mem
  · exact List.mem_singleton.mp mem

/-- `handleWrite` queues nothing. -/
theorem handleWrite_effects (c : TcpConnection) (kernel : Kernel) :
    ∀ e ∈ (c.handleWrite kernel).2, (∃ data, e = .wrote data) ∨ e = .shutdownWrite := by
  intro e mem
  unfold handleWrite at mem
  split at mem
  · split at mem
    · split at mem
      · simp only at mem
        split at mem
        · rcases List.mem_cons.mp mem with first | later
          · exact .inl ⟨_, first⟩
          · split at later
            · exact .inr (mem_shutdownInLoop later)
            · cases later
        · exact .inl ⟨_, List.mem_singleton.mp mem⟩
      · cases mem
    · cases mem
  · cases mem

/-- `handleWrite` takes what the kernel has room for. -/
theorem backlog_handleWrite (valid : c.outputBuffer.Valid) (writing : c.channel.isWriting = true)
    (n : Nat) : (c.handleWrite (.room n)).1.backlog = c.backlog - n := by
  have size := Buffer.length_readable valid
  have taken : (c.outputBuffer.readable.take n).length = min n c.backlog := by
    rw [List.length_take, size]
    rfl
  have left := Buffer.length_readable
    (Buffer.valid_retrieve valid (c.outputBuffer.readable.take n).length)
  rw [Buffer.readable_retrieve valid, List.length_drop, size, taken] at left
  rw [handleWrite, if_pos writing]
  simp only [Kernel.write]
  split
  · split
    · show (c.outputBuffer.retrieve (c.outputBuffer.readable.take n).length).readableBytes = _
      rw [taken, ← left, backlog]
      omega
    · show (c.outputBuffer.retrieve (c.outputBuffer.readable.take n).length).readableBytes = _
      rw [taken, ← left, backlog]
      omega
  · simp only [backlog] at taken ⊢
    omega

theorem count_crossHighWaterMark (c : TcpConnection) (remaining : Nat) :
    (c.crossHighWaterMark remaining).count .queueWriteComplete = 0 := by
  simp only [crossHighWaterMark]
  split
  · rfl
  · rfl

theorem count_writeDirectly (some' : message ≠ []) (c : TcpConnection) (kernel : Kernel) :
    (c.writeDirectly message kernel).2.count .queueWriteComplete =
      if c.unsent message kernel = [] ∧ c.writeCompleteCallback then 1 else 0 := by
  have remaining := c.remaining_eq message kernel
  unfold writeDirectly at remaining ⊢
  by_cases direct : c.channel.isWriting = false ∧ c.outputBuffer.readableBytes = 0
  · rw [if_pos direct] at remaining ⊢
    cases kernel with
    | error => simp [Kernel.write, unsent, some']
    | room n =>
        simp only [Kernel.write] at remaining ⊢
        by_cases complete : c.unsent message (.room n) = [] ∧ c.writeCompleteCallback = true
        · have none : message.length - (message.take n).length = 0 := by
            rw [remaining, complete.1]
            rfl
          rw [if_pos ⟨none, complete.2⟩, if_pos complete]
          rfl
        · rw [if_neg complete, if_neg]
          · rfl
          · rintro ⟨none, callback⟩
            rw [remaining, List.length_eq_zero_iff] at none
            exact complete ⟨none, callback⟩
  · rw [if_neg direct]
    have whole : c.unsent message kernel = message := by
      cases kernel with
      | error => rfl
      | room n => exact if_neg direct
    simp [whole, some']

/-- A message that is not empty completes the writing if the kernel leaves nothing of it. -/
theorem count_sendInLoop (some' : message ≠ []) (c : TcpConnection) (kernel : Kernel) :
    (c.sendInLoop message kernel).2.count .queueWriteComplete =
      if c.unsent message kernel = [] ∧ c.writeCompleteCallback then 1 else 0 := by
  have crossed : ∀ p : Prop, [Decidable p] → ∀ remaining,
      (if p then c.crossHighWaterMark remaining else []).count .queueWriteComplete = 0 := by
    intro p _ remaining
    split
    · exact count_crossHighWaterMark c remaining
    · rfl
  simp only [sendInLoop, List.count_append, count_writeDirectly some', crossed, Nat.add_zero]

/-- The kernel is not offered a message behind unsent bytes. -/
theorem backlog_of_unsent_nil (some' : message ≠ []) (whole : c.unsent message kernel = []) :
    c.backlog = 0 := by
  cases kernel with
  | error => exact absurd whole some'
  | room n =>
      rw [unsent] at whole
      split at whole
      · rename_i direct
        exact direct.2
      · exact absurd whole some'

/-- Nothing an operation does sets or clears a callback. -/
theorem callback_sendInLoop (c : TcpConnection) (message : Bytes) (kernel : Kernel) :
    (c.sendInLoop message kernel).1.writeCompleteCallback = c.writeCompleteCallback := by
  have kept : ∀ (c : TcpConnection) (n : Nat),
      (c.keepRest message n).writeCompleteCallback = c.writeCompleteCallback := by
    intro c n
    simp only [keepRest]
    split
    · rfl
    · rfl
  simp only [sendInLoop]
  split
  · split
    · rw [kept, kept]
    · rw [kept]
  · split
    · rw [kept]
    · rfl

theorem callback_handleWrite (valid : c.outputBuffer.Valid) (kernel : Kernel) :
    (c.handleWrite kernel).1.writeCompleteCallback = c.writeCompleteCallback := by
  rcases handleWrite_cases valid kernel with ⟨nothing, -⟩ | ⟨n, -, -, -, some', -⟩ |
    ⟨n, -, -, all, -⟩
  · rw [nothing]
  · rw [some']
  · rw [all]

end TcpConnection

/-! ## Runs -/

namespace Session

/-- What one operation does besides changing the connection. -/
def performs (s : Session) : Op → List Effect
  | .sendInLoop message kernel => (s.conn.sendInLoop message kernel).2
  | .handleWrite kernel => (s.conn.handleWrite kernel).2
  | .shutdown => []
  | .shutdownInLoop => s.conn.shutdownInLoop

/-- The callback is queued if the operation takes the backlog over the mark, once, and
with the size reached. -/
def HighWaterAccurate (s : Session) (op : Op) : Prop :=
  highWaterMarks (s.performs op) =
    if s.conn.backlog ≤ s.conn.highWaterMark ∧ s.conn.highWaterMark < (s.step op).conn.backlog then
      [(s.step op).conn.backlog]
    else []

/-- Twice the rest of the message is too much for the mark. -/
def Overflows (s : Session) : Op → Prop
  | .sendInLoop message kernel =>
      s.conn.backlog ≤ s.conn.highWaterMark ∧
        s.conn.highWaterMark < s.conn.backlog + 2 * (s.conn.unsent message kernel).length
  | _ => False

/-- The operation takes the last unsent byte, of its own message or of earlier ones. -/
def Drains (s : Session) : Op → Prop
  | .sendInLoop message kernel =>
      message ≠ [] ∧ (s.step (.sendInLoop message kernel)).conn.backlog = 0
  | .handleWrite kernel =>
      0 < s.conn.backlog ∧ (s.step (.handleWrite kernel)).conn.backlog = 0
  | _ => False

/-- The callback is queued once by an operation that drains the connection, and not by
others; nothing is said of empty messages. -/
def WriteCompleteAccurate (s : Session) (op : Op) : Prop :=
  (s.Drains op → (s.performs op).count .queueWriteComplete = 1) ∧
  (¬ s.Drains op → (∀ kernel, op ≠ .sendInLoop [] kernel) →
    (s.performs op).count .queueWriteComplete = 0)

/-- `handleWrite` writes, and the kernel has room for all that waits. -/
def WritesLast (s : Session) : Op → Prop
  | .handleWrite (.room n) =>
      s.conn.channel.isWriting = true ∧ 0 < s.conn.backlog ∧ s.conn.backlog ≤ n
  | _ => False

/-- What a run from `connectEstablished` keeps. -/
structure Sending (writeComplete : Bool) (s : Session) : Prop where
  valid : s.ValidBuffer
  callback : s.conn.writeCompleteCallback = writeComplete

variable {s s' : Session} {op : Op} {writeComplete : Bool}

theorem sending_step (sending : s.Sending writeComplete) (taken : Step s op s') :
    s'.Sending writeComplete := by
  refine ⟨validBuffer_step sending.valid taken, ?_⟩
  obtain rfl := taken
  rw [← sending.callback]
  cases op with
  | sendInLoop message kernel => exact TcpConnection.callback_sendInLoop s.conn message kernel
  | handleWrite kernel => exact TcpConnection.callback_handleWrite sending.valid kernel
  | shutdown =>
      show s.conn.shutdown.writeCompleteCallback = _
      unfold TcpConnection.shutdown
      split <;> rfl
  | shutdownInLoop => rfl

/-! ### The high water mark -/

/-- Only a message can make the backlog larger. -/
theorem backlog_step_le (valid : s.ValidBuffer)
    (other : ∀ message kernel, op ≠ .sendInLoop message kernel) :
    (s.step op).conn.backlog ≤ s.conn.backlog := by
  cases op with
  | sendInLoop message kernel => exact absurd rfl (other message kernel)
  | handleWrite kernel =>
      obtain ⟨valid', moved⟩ := TcpConnection.handleWrite_eq valid kernel
      have size := congrArg List.length moved
      rw [List.length_append, Buffer.length_readable valid', Buffer.length_readable valid] at size
      show (s.conn.handleWrite kernel).1.outputBuffer.readableBytes ≤
        s.conn.outputBuffer.readableBytes
      omega
  | shutdown =>
      show s.conn.shutdown.backlog ≤ _
      unfold TcpConnection.shutdown
      split
      · exact Nat.le_refl _
      · exact Nat.le_refl _
  | shutdownInLoop => exact Nat.le_refl _

theorem highWaterMarks_other (other : ∀ message kernel, op ≠ .sendInLoop message kernel) :
    highWaterMarks (s.performs op) = [] := by
  cases op with
  | sendInLoop message kernel => exact absurd rfl (other message kernel)
  | handleWrite kernel =>
      refine List.filterMap_eq_nil_iff.mpr ?_
      intro e mem
      rcases TcpConnection.handleWrite_effects s.conn kernel e mem with ⟨data, rfl⟩ | rfl
      · rfl
      · rfl
  | shutdown => rfl
  | shutdownInLoop =>
      refine List.filterMap_eq_nil_iff.mpr ?_
      intro e mem
      rw [TcpConnection.mem_shutdownInLoop mem]

/-- **The callback is right exactly about messages that do not take the backlog over
the mark**: in the size it passes, the rest of the message is counted once. -/
theorem highWaterAccurate_iff (valid : s.ValidBuffer) (op : Op) :
    s.HighWaterAccurate op ↔ ¬ s.Overflows op := by
  have others : (∀ message kernel, op ≠ .sendInLoop message kernel) → s.HighWaterAccurate op := by
    intro other
    have smaller := backlog_step_le valid other
    rw [HighWaterAccurate, highWaterMarks_other other, if_neg (by omega)]
  cases op with
  | sendInLoop message kernel =>
      have after : (s.step (.sendInLoop message kernel)).conn.backlog =
          s.conn.backlog + 2 * (s.conn.unsent message kernel).length :=
        TcpConnection.backlog_sendInLoop valid message kernel
      have queued : highWaterMarks (s.performs (.sendInLoop message kernel)) = _ :=
        TcpConnection.highWaterMarks_sendInLoop s.conn message kernel
      rw [HighWaterAccurate, after, queued, Overflows]
      by_cases crosses : s.conn.backlog ≤ s.conn.highWaterMark ∧ s.conn.highWaterMark <
          s.conn.backlog + 2 * (s.conn.unsent message kernel).length
      · rw [if_pos crosses]
        refine iff_of_false ?_ (not_not.mpr crosses)
        intro same
        split at same
        · have size := List.singleton_inj.mp same
          omega
        · exact List.cons_ne_nil _ _ same.symm
      · rw [if_neg crosses, if_neg (by omega)]
        exact iff_of_true rfl crosses
  | handleWrite kernel => exact iff_of_true (others (by simp)) not_false
  | shutdown => exact iff_of_true (others (by simp)) not_false
  | shutdownInLoop => exact iff_of_true (others (by simp)) not_false

/-! ### The end of writing -/

theorem drains_sendInLoop (valid : s.ValidBuffer) {message : Bytes} (some' : message ≠ [])
    (kernel : Kernel) :
    s.Drains (.sendInLoop message kernel) ↔ s.conn.unsent message kernel = [] := by
  have after : (s.step (.sendInLoop message kernel)).conn.backlog =
      s.conn.backlog + 2 * (s.conn.unsent message kernel).length :=
    TcpConnection.backlog_sendInLoop valid message kernel
  rw [Drains, after, ← List.length_eq_zero_iff]
  constructor
  · intro drained
    omega
  · intro whole
    have idle := TcpConnection.backlog_of_unsent_nil some' (List.length_eq_zero_iff.mp whole)
    exact ⟨some', by omega⟩

theorem drains_handleWrite (valid : s.ValidBuffer) (kernel : Kernel) :
    s.Drains (.handleWrite kernel) ↔ s.WritesLast (.handleWrite kernel) := by
  have idle : s.conn.channel.isWriting = false → (s.conn.handleWrite kernel).1 = s.conn := by
    intro silent
    rw [TcpConnection.handleWrite, if_neg (by simp [silent])]
  have error : (s.conn.handleWrite .error).1 = s.conn := by
    rw [TcpConnection.handleWrite]
    split
    · rfl
    · rfl
  show 0 < s.conn.backlog ∧ (s.conn.handleWrite kernel).1.backlog = 0 ↔ _
  cases writing : s.conn.channel.isWriting with
  | false =>
      rw [idle writing]
      refine iff_of_false (by omega) ?_
      cases kernel with
      | error => exact not_false
      | room n =>
          rintro ⟨asked, -⟩
          simp [writing] at asked
  | true =>
      cases kernel with
      | error =>
          rw [error]
          exact iff_of_false (by omega) not_false
      | room n =>
          rw [TcpConnection.backlog_handleWrite valid writing, WritesLast]
          constructor
          · rintro ⟨some', none⟩
            exact ⟨writing, some', by omega⟩
          · rintro ⟨-, some', all⟩
            exact ⟨some', by omega⟩

theorem count_other (other : ∀ message kernel, op ≠ .sendInLoop message kernel) :
    (s.performs op).count .queueWriteComplete = 0 := by
  rw [List.count_eq_zero]
  intro mem
  cases op with
  | sendInLoop message kernel => exact absurd rfl (other message kernel)
  | handleWrite kernel =>
      rcases TcpConnection.handleWrite_effects s.conn kernel _ mem with ⟨data, h⟩ | h
      · cases h
      · cases h
  | shutdown => cases mem
  | shutdownInLoop => cases TcpConnection.mem_shutdownInLoop mem

/-- **The callback is right about everything but a `handleWrite` that writes the last
byte.** -/
theorem writeCompleteAccurate_iff (sending : s.Sending true) (op : Op) :
    s.WriteCompleteAccurate op ↔ ¬ s.WritesLast op := by
  cases op with
  | sendInLoop message kernel =>
      refine iff_of_true ?_ not_false
      by_cases empty : message = []
      · refine ⟨fun drained => absurd empty drained.1, fun _ other => ?_⟩
        exact absurd (by rw [empty]) (other kernel)
      · have drains := drains_sendInLoop sending.valid empty kernel
        have queued : (s.performs (.sendInLoop message kernel)).count .queueWriteComplete = _ :=
          TcpConnection.count_sendInLoop empty s.conn kernel
        refine ⟨fun drained => ?_, fun some' _ => ?_⟩
        · rw [queued, if_pos ⟨drains.mp drained, sending.callback⟩]
        · rw [queued, if_neg fun whole => some' (drains.mpr whole.1)]
  | handleWrite kernel =>
      have none : (s.performs (.handleWrite kernel)).count .queueWriteComplete = 0 :=
        count_other (by simp)
      rw [WriteCompleteAccurate, none, drains_handleWrite sending.valid kernel]
      simp
  | shutdown => exact iff_of_true ⟨False.elim, fun _ _ => count_other (by simp)⟩ not_false
  | shutdownInLoop => exact iff_of_true ⟨False.elim, fun _ _ => count_other (by simp)⟩ not_false

end Session

section Runs

variable {highWaterMark : Nat} {writeComplete highWater : Bool} {trace : List (Session × Op)}
  {last : Session}

/-- A run from a new connection keeps its buffer in order and its callbacks set. -/
theorem sending_run (run : Run Session.Step
    (Session.start (TcpConnection.established highWaterMark writeComplete highWater)) trace last) :
    ∀ p ∈ trace, p.1.Sending writeComplete := by
  have start : (Session.start (TcpConnection.established highWaterMark writeComplete
      highWater)).Sending writeComplete := ⟨Buffer.valid_fresh, rfl⟩
  exact (run.invariant (I := Session.Sending writeComplete)
    (fun _ _ _ => Session.sending_step) start).1

/-- **The high water mark callback is accurate in exactly the runs in which no message
takes the backlog over the mark.** -/
theorem highWater_accurate_iff (run : Run Session.Step
    (Session.start (TcpConnection.established highWaterMark writeComplete true)) trace last) :
    (∀ p ∈ trace, p.1.HighWaterAccurate p.2) ↔ ∀ p ∈ trace, ¬ p.1.Overflows p.2 := by
  have sending := sending_run run
  constructor
  · intro accurate p mem
    exact (Session.highWaterAccurate_iff (sending p mem).valid p.2).mp (accurate p mem)
  · intro below p mem
    exact (Session.highWaterAccurate_iff (sending p mem).valid p.2).mpr (below p mem)

/-- **The write-complete callback is accurate in exactly the runs in which no
`handleWrite` writes the last waiting byte.** -/
theorem writeComplete_accurate_iff (run : Run Session.Step
    (Session.start (TcpConnection.established highWaterMark true highWater)) trace last) :
    (∀ p ∈ trace, p.1.WriteCompleteAccurate p.2) ↔ ∀ p ∈ trace, ¬ p.1.WritesLast p.2 := by
  have sending := sending_run run
  constructor
  · intro accurate p mem
    exact (Session.writeCompleteAccurate_iff (sending p mem) p.2).mp (accurate p mem)
  · intro never p mem
    exact (Session.writeCompleteAccurate_iff (sending p mem) p.2).mpr (never p mem)

end Runs

/-! ### One message -/

/-- A new connection with both callbacks and a mark of four bytes. -/
def watched : Session := Session.start (TcpConnection.established 4 true true)

/-- `sendInLoop("abc")` while the kernel has room for `n` bytes. -/
def sendAbc (n : Nat) : Op := .sendInLoop (ascii "abc") (.room n)

theorem run_sendAbc (n : Nat) :
    Run Session.Step watched [(watched, sendAbc n)] (watched.step (sendAbc n)) :=
  .cons rfl (.nil _)

theorem abc_below_mark : watched.HighWaterAccurate (sendAbc 2) := by
  apply (highWater_accurate_iff (run_sendAbc 2)).mpr _ _ (List.mem_singleton_self _)
  intro p mem
  obtain rfl := List.mem_singleton.mp mem
  rintro ⟨-, crossed⟩
  exact absurd crossed (by decide +kernel)

/-- Nothing of "abc" is taken, and six bytes wait with nobody told. -/
theorem abc_over_mark : Run Session.Step watched [(watched, sendAbc 0)] (watched.step (sendAbc 0)) ∧
    (watched.step (sendAbc 0)).conn.backlog = 6 ∧
    highWaterMarks (watched.performs (sendAbc 0)) = [] ∧ ¬ watched.HighWaterAccurate (sendAbc 0) := by
  have reached : (watched.step (sendAbc 0)).conn.backlog = 6 := by decide +kernel
  have queued : highWaterMarks (watched.performs (sendAbc 0)) = [] := by decide +kernel
  refine ⟨run_sendAbc 0, reached, queued, ?_⟩
  rw [Session.HighWaterAccurate, queued, reached, if_pos (by decide +kernel)]
  exact (List.cons_ne_nil _ _).symm

theorem abc_completes : watched.WriteCompleteAccurate (sendAbc 3) := by
  apply (writeComplete_accurate_iff (run_sendAbc 3)).mpr _ _ (List.mem_singleton_self _)
  intro p mem
  obtain rfl := List.mem_singleton.mp mem
  exact not_false

/-- What waits of "abc" is written in one go, and nobody is told. -/
theorem abc_drained_silently : ∃ trace last, Run Session.Step watched trace last ∧
    (watched.step (sendAbc 2), Op.handleWrite (.room 9)) ∈ trace ∧
    last.effects.count .queueWriteComplete = 0 ∧
    ¬ (watched.step (sendAbc 2)).WriteCompleteAccurate (.handleWrite (.room 9)) := by
  have run := (run_sendAbc 2).append (.cons rfl (.nil
    ((watched.step (sendAbc 2)).step (.handleWrite (.room 9)))))
  have drains : (watched.step (sendAbc 2)).Drains (.handleWrite (.room 9)) := by
    rw [Session.Drains]
    decide +kernel
  have none : ((watched.step (sendAbc 2)).performs (.handleWrite (.room 9))).count
      .queueWriteComplete = 0 := Session.count_other (by simp)
  refine ⟨_, _, run, by simp, by decide +kernel, ?_⟩
  intro accurate
  rw [accurate.1 drains] at none
  cases none

end LaliRpc.Net
