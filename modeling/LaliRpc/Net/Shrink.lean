/-
# Net.Shrink — giving memory back

`Buffer::shrink` copies the readable bytes to the front of a vector of the right
size and swaps it in; the two indices stay what they were. They belong to the new
vector only if the data began at the initial offset before, and the vector has the right
size only if the sum of the sizes does not wrap. So `shrink` does what it is for
(`Shrunk`) exactly then (`shrunk_iff`): behind any other offset the readable bytes are
cut off at the front or end beyond the vector, and there is less room than was asked
for; and for a sum that wraps the copy leaves the vector, or there is less room again.

No operation but `prepend` takes the data in front of the initial offset
(`behindFront_frontStep`).
-/
import LaliRpc.Net.ByteQueue

namespace LaliRpc.Net

open LaliRpc.Theory

set_option autoImplicit false

namespace Buffer

/-- The readable bytes in a vector of `size` bytes, between the same indices. -/
def movedTo (b : Buffer) (size : Nat) : Buffer :=
  { b with buffer := overwrite (List.replicate size 0) CheapPrepend b.readable }

def shrink (b : Buffer) (reserve : Nat) : Except Fault Buffer :=
  let size := (CheapPrepend + b.readableBytes + reserve) % 2 ^ 64
  if maxSize < size then .error .lengthError
  else if size < CheapPrepend + b.readableBytes then .error .outside
  else .ok (b.movedTo size)

/-- The operations that write nothing in front of the data. -/
def LeavesFront : BufferOp → Prop
  | .prepend _ => False
  | _ => True

/-- One of these operations, with its requests for room met. -/
def LaterStep (b : Buffer) (op : BufferOp) (b' : Buffer) : Prop :=
  LeavesFront op ∧ b.AllMet op ∧ b.perform op = .ok b'

/-- The same, on a read of at most what `readv` has room for. -/
def FrontStep (b : Buffer) (op : BufferOp) (b' : Buffer) : Prop :=
  b.Allowed op ∧ b.LaterStep op b'

/-- What `shrink(reserve)` is to do: the data stay, the indices are in order, there
is the room asked for, and whatever is done to the buffer later has the same effect
on the data as without it. -/
structure ShrunkTo (b b' : Buffer) (reserve : Nat) : Prop where
  readable : b'.readable = b.readable
  valid : b'.Valid
  room : reserve ≤ b'.writableBytes
  later : ∀ trace trace' c c', Run LaterStep b trace c → Run LaterStep b' trace' c' →
    trace'.map Prod.snd = trace.map Prod.snd → c'.readable = c.readable

/-- `shrink(reserve)` returns, and has done what it is to do. -/
def Shrunk (b : Buffer) (reserve : Nat) : Prop :=
  ∃ b', b.shrink reserve = .ok b' ∧ b.ShrunkTo b' reserve

/-! ## The offset of the data -/

/-- The data begin at the initial offset or behind it. -/
structure BehindFront (b : Buffer) : Prop where
  sized : b.Sized
  front : CheapPrepend ≤ b.readerIndex

variable {b b' : Buffer} {op : BufferOp}

theorem behindFront_fresh : fresh.BehindFront := ⟨sized_fresh, Nat.le_refl _⟩

theorem front_ensureRoom (front : CheapPrepend ≤ b.readerIndex) (len : Nat) :
    CheapPrepend ≤ (b.ensureRoom len).readerIndex := by
  unfold ensureRoom
  split
  · unfold makeRoom
    split
    · exact front
    · exact Nat.le_refl _
  · exact front

theorem front_append (front : CheapPrepend ≤ b.readerIndex) (data : Bytes) :
    CheapPrepend ≤ (b.append data).readerIndex :=
  front_ensureRoom front data.length

theorem front_readFd (front : CheapPrepend ≤ b.readerIndex) (got : Bytes) :
    CheapPrepend ≤ (b.readFd got).readerIndex := by
  unfold readFd
  split
  · exact front
  · exact @front_append { b with
      buffer := overwrite b.buffer b.writerIndex (got.take b.writableBytes)
      writerIndex := b.buffer.length } front _

theorem front_retrieve (front : CheapPrepend ≤ b.readerIndex) (len : Nat) :
    CheapPrepend ≤ (b.retrieve len).readerIndex := by
  unfold retrieve
  split
  · exact Nat.le_add_right_of_le front
  · exact Nat.le_refl _

/-- What a request that is met leaves is what `Buffer` says it does. -/
theorem front_perform (h : b.BehindFront) (step : b.LaterStep op b') :
    CheapPrepend ≤ b'.readerIndex := by
  obtain ⟨leaves, met, done⟩ := step
  obtain ⟨sized, front⟩ := h
  have alone {c : Buffer} (front : CheapPrepend ≤ c.readerIndex)
      (same : b.perform op = .ok c) : CheapPrepend ≤ b'.readerIndex := by
    obtain rfl := Except.ok.inj (done.symm.trans same)
    exact front
  cases op with
  | append data =>
      exact alone (front_append front data) (append?_eq sized (met _ List.mem_cons_self)).1
  | readFd got =>
      cases got with
      | none => exact alone front rfl
      | some got =>
          refine alone (front_readFd front got) (readFd?_eq sized fun more => met (_, _) ?_).1
          rw [spaceRequests, if_neg more]
          exact List.mem_cons_self
  | retrieve len => exact alone (front_retrieve front len) rfl
  | retrieveUntil distance => exact alone (front_retrieve front _) rfl
  | retrieveAll => exact alone (Nat.le_refl _) rfl
  | retrieveAsString => exact alone (Nat.le_refl _) rfl
  | ensureWritableBytes len =>
      exact alone (front_ensureRoom front len)
        (ensureWritableBytes_eq sized (met (b, len) List.mem_cons_self)).1
  | prepend data => exact leaves.elim

/-- An operation that leaves the front alone needs no room there. -/
theorem perform_of_laterStep (h : b.Sized) (step : b.LaterStep op b') :
    b'.Sized ∧ b'.readable = ByteQueue.perform b.readable op := by
  obtain ⟨leaves, met, done⟩ := step
  cases op with
  | prepend data => exact leaves.elim
  | readFd got =>
      cases got with
      | none => exact sized_perform h trivial met done
      | some got =>
          have same := @readFd?_eq b h got fun more => met (_, _) (by
            rw [spaceRequests, if_neg more]
            exact List.mem_cons_self)
          obtain rfl := Except.ok.inj (done.symm.trans same.1)
          exact ⟨same.2, readable_readFd h.valid got⟩
  | append | retrieve | retrieveUntil | retrieveAll | retrieveAsString | ensureWritableBytes =>
      exact sized_perform h trivial met done

theorem behindFront_frontStep (behind : b.BehindFront) (step : FrontStep b op b') :
    b'.BehindFront :=
  ⟨(perform_of_laterStep behind.sized step.2).1, front_perform behind step.2⟩

/-! ## What is left of the data -/

section Shrinking

variable {reserve : Nat}

/-- What the operations do to the data depends on the data only. -/
theorem readable_of_run {trace : List (Buffer × BufferOp)} (h : b.Sized)
    (run : Run LaterStep b trace b') :
    b'.readable = (trace.map Prod.snd).foldl ByteQueue.perform b.readable := by
  exact run.refines readable (fun _ _ _ sized step => (perform_of_laterStep sized step).1)
    (fun _ _ _ sized step => (perform_of_laterStep sized step).2) h

theorem shrink_eq (done : b.shrink reserve = .ok b') :
    (CheapPrepend + b.readableBytes + reserve) % 2 ^ 64 ≤ maxSize ∧
      CheapPrepend + b.readableBytes ≤ (CheapPrepend + b.readableBytes + reserve) % 2 ^ 64 ∧
      b' = b.movedTo ((CheapPrepend + b.readableBytes + reserve) % 2 ^ 64) := by
  rw [shrink] at done
  split at done
  · cases done
  · rename_i small
    split at done
    · cases done
    · rename_i fits
      exact ⟨Nat.not_lt.mp small, Nat.not_lt.mp fits, (Except.ok.inj done).symm⟩

theorem length_shrink (valid : b.Valid) (done : b.shrink reserve = .ok b') :
    b'.buffer.length = (CheapPrepend + b.readableBytes + reserve) % 2 ^ 64 := by
  obtain ⟨-, fits, rfl⟩ := shrink_eq done
  refine (length_overwrite ?_).trans List.length_replicate
  rw [length_readable valid, List.length_replicate]
  exact fits

/-- The new vector has less room behind `writerIndex_` the further back the data were, and
the less of the sum is left. -/
theorem room_shrink (behind : b.BehindFront) (done : b.shrink reserve = .ok b')
    (room : reserve ≤ b'.writableBytes) (valid : b'.Valid) :
    b.readerIndex = CheapPrepend ∧ CheapPrepend + b.readableBytes + reserve ≤ maxSize := by
  have size := length_shrink behind.sized.valid done
  have front := behind.front
  have order := behind.sized.valid.order
  have inside := valid.inside
  obtain ⟨small, -, rfl⟩ := shrink_eq done
  have le := Nat.mod_le (CheapPrepend + b.readableBytes + reserve) (2 ^ 64)
  rw [writableBytes_eq inside] at room
  rw [size] at room inside
  change reserve ≤ _ - b.writerIndex at room
  change b.writerIndex ≤ _ at inside
  rw [readableBytes] at room small inside ⊢
  omega

/-- At the initial offset, and without a wrap, the new vector is as it should be. -/
theorem shrink_initial (sized : b.Sized) (initial : b.readerIndex = CheapPrepend)
    (small : CheapPrepend + b.readableBytes + reserve ≤ maxSize) :
    ∃ b', b.shrink reserve = .ok b' ∧ b'.Sized ∧ b'.readable = b.readable ∧
      reserve ≤ b'.writableBytes := by
  have whole : (CheapPrepend + b.readableBytes + reserve) % 2 ^ 64 =
      CheapPrepend + b.readableBytes + reserve := by
    refine Nat.mod_eq_of_lt ?_
    simp only [maxSize] at small
    omega
  have order := sized.valid.order
  have length := length_readable sized.valid
  have last : b.writerIndex = CheapPrepend + b.readable.length := by
    rw [length, readableBytes]
    omega
  have done : b.shrink reserve = .ok (b.movedTo (CheapPrepend + b.readableBytes + reserve)) := by
    rw [shrink, whole, if_neg (Nat.not_lt.mpr small), if_neg (by omega)]
  have size := length_shrink sized.valid done
  rw [whole] at size
  have valid : (b.movedTo (CheapPrepend + b.readableBytes + reserve)).Valid := by
    refine ⟨order, ?_, ?_⟩
    · show b.writerIndex ≤ _
      omega
    · omega
  refine ⟨_, done, ⟨valid, ?_⟩, ?_, ?_⟩
  · rw [size]
    exact small
  · show ((overwrite _ CheapPrepend b.readable).take b.writerIndex).drop b.readerIndex = _
    rw [last, take_overwrite (by rw [List.length_replicate]; omega), initial, List.drop_left']
    rw [List.length_take, List.length_replicate]
    omega
  · rw [writableBytes_eq valid.inside, size]
    show reserve ≤ _ - b.writerIndex
    omega

end Shrinking

/-- **`shrink` keeps the data exactly when they are at the initial offset and the vector is
one there can be.** -/
theorem shrunk_iff {trace : List (Buffer × BufferOp)} (run : Run FrontStep fresh trace b)
    (reserve : Nat) : b.Shrunk reserve ↔
      b.readerIndex = CheapPrepend ∧ CheapPrepend + b.readableBytes + reserve ≤ maxSize := by
  have behind : b.BehindFront :=
    run.invariant_last (fun _ _ _ => behindFront_frontStep) behindFront_fresh
  constructor
  · rintro ⟨b', done, shrunk⟩
    exact room_shrink behind done shrunk.room shrunk.valid
  · rintro ⟨initial, small⟩
    obtain ⟨b', done, sized, same, room⟩ := shrink_initial behind.sized initial small
    refine ⟨b', done, same, sized.valid, room, ?_⟩
    intro trace trace' c c' run run' equal
    rw [readable_of_run behind.sized run, readable_of_run sized run', equal, same]

/-- With `reserve` = 2^64 - 11 the new vector would have no byte. -/
example : (fresh.append (ascii "abc")).shrink (2 ^ 64 - 11) = .error .outside := by
  rw [shrink, if_neg (by decide +kernel), if_pos (by decide +kernel)]

/-- A buffer after `append("abc")`. -/
theorem run_append : Run FrontStep fresh [(fresh, .append (ascii "abc"))]
    (fresh.append (ascii "abc")) := by
  have met : fresh.AllMet (.append (ascii "abc")) := by
    intro request mem
    obtain rfl := List.mem_singleton.mp mem
    exact .inl (by decide +kernel)
  have done := (append?_eq sized_fresh (met _ List.mem_cons_self)).1
  exact .cons ⟨trivial, trivial, met, done⟩ (.nil _)

theorem appended_shrunk : (fresh.append (ascii "abc")).Shrunk 5 :=
  (shrunk_iff run_append 5).mpr (by decide +kernel)

/-- The same after `retrieve(1)`: of "bc" only "c" is left, and `writerIndex_` is behind the
end of the vector. -/
theorem retrieved_not_shrunk : ∃ trace b b', Run FrontStep fresh trace b ∧
    b.readable = ascii "bc" ∧ b.shrink 0 = .ok b' ∧ b'.readable = ascii "c" ∧
      b'.buffer.length < b'.writerIndex ∧ ¬ b.Shrunk 0 := by
  have retrieve : FrontStep (fresh.append (ascii "abc")) (.retrieve 1)
      ((fresh.append (ascii "abc")).retrieve 1) :=
    ⟨trivial, trivial, (fun request mem => by cases mem), rfl⟩
  have run := run_append.append (.cons retrieve (.nil _))
  have done : ((fresh.append (ascii "abc")).retrieve 1).shrink 0 =
      .ok (((fresh.append (ascii "abc")).retrieve 1).movedTo 10) := by
    rw [shrink, if_neg (by decide +kernel), if_neg (by decide +kernel)]
    exact congrArg (Except.ok ∘ movedTo _) (by decide +kernel)
  refine ⟨_, _, _, run, by decide +kernel, done, by decide +kernel, by decide +kernel, ?_⟩
  intro shrunk
  have initial := ((shrunk_iff run 0).mp shrunk).1
  exact absurd initial (by decide +kernel)

end Buffer

end LaliRpc.Net
