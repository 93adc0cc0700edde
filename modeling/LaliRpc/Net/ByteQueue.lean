/-
# Net.ByteQueue — buffers as byte queues

What a `Buffer` is for: a sequence of bytes, read at the front and written at the
back, with some room to write at the front too (`ByteQueue.perform`). Any number
of buffers, used in any order and swapped with each other, are that many byte
queues (`buffer_is_deque`), as long as every request for room is one that can be met:
the indices stay in order, the readable bytes are the queue, and no compaction moves
bytes away from the front. A request that cannot be met may be answered with less room,
by moving the data the other way or by cutting them off (`wrapped_not_ensured`).
-/
import Mathlib.Logic.Equiv.Basic
import LaliRpc.Net.BufferSpace
import LaliRpc.Theory.Transition

namespace LaliRpc.Net

open LaliRpc.Theory

set_option autoImplicit false

/-- The operations on one buffer. A `readFd` that fails reads `none`. -/
inductive BufferOp where
  | append (data : Bytes)
  | readFd (got : Option Bytes)
  | retrieve (len : Nat)
  | retrieveUntil (distance : Int)
  | retrieveAll
  | retrieveAsString
  | ensureWritableBytes (len : Nat)
  | prepend (data : Bytes)
  deriving DecidableEq, Repr

/-- The same operations on a sequence of bytes. -/
def ByteQueue.perform (queue : Bytes) : BufferOp → Bytes
  | .append data => queue ++ data
  | .readFd got => queue ++ got.getD []
  | .retrieve len => queue.drop len
  | .retrieveUntil distance => queue.drop (distance % 2 ^ 64).toNat
  | .retrieveAll | .retrieveAsString => []
  | .ensureWritableBytes _ => queue
  | .prepend data => data ++ queue

namespace Buffer

/-- Each operation, as far as it returns. -/
def perform (b : Buffer) : BufferOp → Except Fault Buffer
  | .append data => b.append? data
  | .readFd got => (got.map b.readFd?).getD (.ok b)
  | .retrieve len => .ok (b.retrieve len)
  | .retrieveUntil distance => .ok (b.retrieveUntil distance)
  | .retrieveAll => .ok b.retrieveAll
  | .retrieveAsString => .ok b.retrieveAsString.2
  | .ensureWritableBytes len => b.ensureWritableBytes len
  | .prepend data => .ok (b.prepend data)

/-- `readv` fills the writable space and the 64 KiB on the stack, and a `prepend`
needs room in front. -/
def Allowed (b : Buffer) : BufferOp → Prop
  | .readFd (some got) => got.length ≤ b.writableBytes + 65536
  | .prepend data => data.length ≤ b.prependableBytes
  | _ => True

/-- The buffers an operation calls `ensureWritableBytes` on, with the argument.
An overflowing read does so when it has filled the writable space. -/
def spaceRequests (b : Buffer) : BufferOp → List (Buffer × Nat)
  | .append data => [(b, data.length)]
  | .readFd (some got) =>
      if got.length ≤ b.writableBytes then []
      else [(b.filled got, (got.drop b.writableBytes).length)]
  | .ensureWritableBytes len => [(b, len)]
  | _ => []

/-- The operation asks for no room that cannot be made. -/
def AllMet (b : Buffer) (op : BufferOp) : Prop :=
  ∀ request ∈ b.spaceRequests op, request.1.Met request.2

variable {b b' : Buffer} {op : BufferOp}

/-- **An operation whose requests are met returns**, with a buffer in order whose readable
bytes are what the operation makes of a queue. -/
theorem perform_met (h : b.Sized) (allowed : b.Allowed op) (met : b.AllMet op) :
    ∃ b', b.perform op = .ok b' ∧ b'.Sized ∧
      b'.readable = ByteQueue.perform b.readable op := by
  have alone {b' : Buffer} (valid : b'.Valid) (same : b'.buffer.length = b.buffer.length) :
      b'.Sized := ⟨valid, same ▸ h.small⟩
  have retrieved (len : Nat) : (b.retrieve len).Sized := by
    refine alone (valid_retrieve h.valid len) ?_
    rw [retrieve]
    split <;> rfl
  cases op with
  | append data =>
      obtain ⟨done, sized⟩ := append?_eq h (met _ List.mem_cons_self)
      exact ⟨_, done, sized, readable_append h.valid data⟩
  | readFd got =>
      cases got with
      | none => exact ⟨b, rfl, h, (List.append_nil _).symm⟩
      | some got =>
          obtain ⟨done, sized⟩ := @readFd?_eq b h got fun more => by
            refine met (_, _) ?_
            rw [spaceRequests, if_neg more]
            exact List.mem_cons_self
          exact ⟨_, done, sized, readable_readFd h.valid got⟩
  | retrieve len => exact ⟨_, rfl, retrieved len, readable_retrieve h.valid len⟩
  | retrieveUntil distance => exact ⟨_, rfl, retrieved _, readable_retrieve h.valid _⟩
  | retrieveAll => exact ⟨_, rfl, alone (valid_retrieveAll h.valid) rfl, readable_retrieveAll b⟩
  | retrieveAsString =>
      exact ⟨_, rfl, alone (valid_retrieveAll h.valid) rfl, readable_retrieveAll b⟩
  | ensureWritableBytes len =>
      have met' : b.Met len := met (b, len) List.mem_cons_self
      exact ⟨_, (ensureWritableBytes_eq h met').1, sized_ensureRoom h met',
        readable_ensureRoom h.valid len⟩
  | prepend data =>
      have order := h.valid.order
      have inside := h.valid.inside
      have room : data.length ≤ b.readerIndex := allowed
      exact ⟨_, rfl, alone (valid_prepend h.valid allowed) (length_overwrite (by omega)),
        readable_prepend h.valid allowed⟩

theorem sized_perform (h : b.Sized) (allowed : b.Allowed op) (met : b.AllMet op)
    (done : b.perform op = .ok b') :
    b'.Sized ∧ b'.readable = ByteQueue.perform b.readable op := by
  obtain ⟨b'', done', spec⟩ := perform_met h allowed met
  obtain rfl := Except.ok.inj (done.symm.trans done')
  exact spec

theorem sized_of_request (h : b.Sized) {request : Buffer × Nat}
    (mem : request ∈ b.spaceRequests op) : request.1.Sized := by
  cases op with
  | append data =>
      obtain rfl := List.mem_singleton.mp mem
      exact h
  | ensureWritableBytes len =>
      obtain rfl := List.mem_singleton.mp mem
      exact h
  | readFd got =>
      cases got with
      | none => cases mem
      | some got =>
          rw [spaceRequests] at mem
          split at mem
          · cases mem
          · rename_i more
            obtain rfl := List.mem_singleton.mp mem
            exact sized_filled h more
  | retrieve | retrieveUntil | retrieveAll | retrieveAsString | prepend => cases mem

theorem sized_fresh : fresh.Sized := by
  refine ⟨valid_fresh, ?_⟩
  rw [fresh, List.length_replicate]
  decide

end Buffer

/-! ## Any number of buffers -/

section Pool

variable {ι : Type} [DecidableEq ι]

inductive PoolOp (ι : Type) where
  | on (i : ι) (op : BufferOp)
  | swap (i j : ι)

/-- One operation on a family of byte queues. -/
def ByteQueue.performIn (queues : ι → Bytes) : PoolOp ι → ι → Bytes
  | .on i op => Function.update queues i (ByteQueue.perform (queues i) op)
  | .swap i j => queues ∘ Equiv.swap i j

/-- One operation on a family of buffers, that returns. -/
inductive PoolStep : (ι → Buffer) → PoolOp ι → (ι → Buffer) → Prop where
  | on {pool : ι → Buffer} {i : ι} {op : BufferOp} {b' : Buffer} (allowed : (pool i).Allowed op)
      (done : (pool i).perform op = .ok b') :
      PoolStep pool (.on i op) (Function.update pool i b')
  | swap (pool : ι → Buffer) (i j : ι) : PoolStep pool (.swap i j) (pool ∘ Equiv.swap i j)

/-- Every request for room is one that can be met. -/
def AllMet (pool : ι → Buffer) : PoolOp ι → Prop
  | .on i op => (pool i).AllMet op
  | .swap _ _ => True

/-- A step that asks for no room that cannot be made. -/
def MetStep (pool : ι → Buffer) (e : PoolOp ι) (pool' : ι → Buffer) : Prop :=
  PoolStep pool e pool' ∧ AllMet pool e

variable {pool pool' : ι → Buffer} {e : PoolOp ι}

theorem sized_metStep (sized : ∀ i, (pool i).Sized) (taken : MetStep pool e pool') (i : ι) :
    (pool' i).Sized := by
  obtain ⟨step, met⟩ := taken
  cases step with
  | @on j op b' allowed done =>
      by_cases here : i = j
      · subst here
        rw [Function.update_self]
        exact (Buffer.sized_perform (sized i) allowed met done).1
      · rw [Function.update_of_ne here]
        exact sized i
  | swap j k => exact sized _

theorem readable_metStep (sized : ∀ i, (pool i).Sized) (taken : MetStep pool e pool') :
    (fun i => (pool' i).readable) = ByteQueue.performIn (fun i => (pool i).readable) e := by
  obtain ⟨step, met⟩ := taken
  cases step with
  | @on j op b' allowed done =>
      funext i
      by_cases here : i = j
      · subst here
        rw [ByteQueue.performIn, Function.update_self, Function.update_self]
        exact (Buffer.sized_perform (sized i) allowed met done).2
      · rw [ByteQueue.performIn, Function.update_of_ne here, Function.update_of_ne here]
  | swap j k => rfl

/-- **Buffers are byte queues** in every run from new ones whose requests for room can be
met; and what `ensureWritableBytes` is for it does of no other request. -/
theorem buffer_is_deque {trace : List ((ι → Buffer) × PoolOp ι)}
    (run : Run MetStep (fun _ => Buffer.fresh) trace pool) :
    (∀ i, (pool i).Valid) ∧
    (fun i => (pool i).readable) =
      (trace.map Prod.snd).foldl ByteQueue.performIn (fun _ => []) ∧
    (∀ i len, (pool i).Ensures len ↔ (pool i).Met len) ∧
    ∀ i op, (pool i).Allowed op → (pool i).AllMet op →
      (∃ b', (pool i).perform op = .ok b') ∧
      ∀ request ∈ (pool i).spaceRequests op,
        request.1.Compacts request.2 → CheapPrepend < request.1.readerIndex := by
  have kept : ∀ (s : ι → Buffer) e s', (∀ i, (s i).Sized) → MetStep s e s' → ∀ i, (s' i).Sized :=
    fun s e s' sized taken => sized_metStep sized taken
  have start : ∀ _ : ι, Buffer.fresh.Sized := fun _ => Buffer.sized_fresh
  have sized := run.invariant_last kept start
  refine ⟨fun i => (sized i).valid, ?_, fun i len => Buffer.ensures_iff (sized i) len, ?_⟩
  · have followed := run.refines (fun s i => (s i).readable) kept
      (fun s e s' sized taken => readable_metStep sized taken) start
    simpa only [Buffer.readable_fresh] using followed
  · intro i op allowed met
    obtain ⟨b', done, -⟩ := Buffer.perform_met (sized i) allowed met
    refine ⟨⟨b', done⟩, fun request mem compacts => ?_⟩
    obtain ⟨sum, sum'⟩ := Buffer.no_wrap (Buffer.sized_of_request (sized i) mem) (met request mem)
    obtain ⟨short, moved⟩ := compacts
    rw [sum, sum'] at moved
    exact Buffer.compacts_towards_front short moved

/-- Two buffers after `append("ab")` and `prepend("c")` on one, and a swap. -/
def swapped : Bool → Buffer :=
  let pool := Function.update (fun _ => Buffer.fresh) true (Buffer.fresh.append (ascii "ab"))
  Function.update pool true ((pool true).prepend (ascii "c")) ∘ Equiv.swap true false

theorem swapped_is_deque :
    (swapped false).readable = ascii "cab" ∧ (swapped true).readable = [] ∧
      (swapped false).Ensures 5000 := by
  have roomInFront : (ascii "c").length ≤ (Buffer.fresh.append (ascii "ab")).prependableBytes := by
    decide +kernel
  have enough : Buffer.fresh.AllMet (.append (ascii "ab")) := by
    intro request mem
    obtain rfl := List.mem_singleton.mp mem
    exact .inl (by decide +kernel)
  have appended := (Buffer.append?_eq Buffer.sized_fresh (enough _ List.mem_cons_self)).1
  have run : Run MetStep (fun _ : Bool => Buffer.fresh) _ swapped :=
    .cons ⟨@PoolStep.on _ _ _ true (.append (ascii "ab")) _ trivial appended, enough⟩ <|
      .cons ⟨@PoolStep.on _ _ _ true (.prepend (ascii "c")) _ roomInFront rfl,
        fun request mem => by cases mem⟩ <|
        .cons ⟨.swap _ true false, trivial⟩ (.nil _)
  obtain ⟨-, queues, ensures, -⟩ := buffer_is_deque run
  refine ⟨congrFun queues false, congrFun queues true, (ensures false 5000).mpr ?_⟩
  exact .inr (.inr (by decide +kernel))

/-- `SIZE_MAX` bytes asked of a new buffer: the sum wraps to 7, nothing is enlarged, and the
data are "moved to the front" from where they are. -/
theorem wrapped_not_ensured :
    (∃ b', Buffer.fresh.ensureWritableBytes (2 ^ 64 - 1) = .ok b' ∧ b'.writableBytes = 1024) ∧
      Buffer.fresh.Compacts (2 ^ 64 - 1) ∧ ¬ CheapPrepend < Buffer.fresh.readerIndex ∧
      ¬ Buffer.fresh.Ensures (2 ^ 64 - 1) ∧
      ∃ b b', Buffer.fresh.append? (List.replicate 100 0) = .ok b ∧
        b.ensureWritableBytes (2 ^ 64 - 100) = .ok b' ∧ ¬ b'.Valid := by
  have unmet : ¬ Buffer.fresh.Met (2 ^ 64 - 1) := by decide +kernel
  have compacted : Buffer.fresh.ensureWritableBytes (2 ^ 64 - 1) = .ok Buffer.fresh.compact := by
    rw [Buffer.ensureWritableBytes, if_pos (by decide +kernel), Buffer.makeSpace,
      if_neg (by decide +kernel), if_neg (by decide +kernel)]
  have appended := (@Buffer.append?_eq Buffer.fresh Buffer.sized_fresh (List.replicate 100 0)
    (.inl (by decide +kernel))).1
  have cut : (Buffer.fresh.append (List.replicate 100 0)).ensureWritableBytes (2 ^ 64 - 100) =
      .ok { Buffer.fresh.append (List.replicate 100 0) with
        buffer := resize (Buffer.fresh.append (List.replicate 100 0)).buffer
          (((Buffer.fresh.append (List.replicate 100 0)).writerIndex + (2 ^ 64 - 100)) %
            2 ^ 64) } := by
    rw [Buffer.ensureWritableBytes, if_pos (by decide +kernel), Buffer.makeSpace,
      if_pos (by decide +kernel), resize?, if_neg (by decide +kernel)]
    rfl
  refine ⟨⟨_, compacted, by decide +kernel⟩, ⟨by decide +kernel, by decide +kernel⟩,
    by decide +kernel,
    fun ensures => unmet ((Buffer.ensures_iff Buffer.sized_fresh _).mp ensures),
    _, _, appended, cut, fun valid => ?_⟩
  exact absurd valid.inside (by decide +kernel)

end Pool

end LaliRpc.Net
