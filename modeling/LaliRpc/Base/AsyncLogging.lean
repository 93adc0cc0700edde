/-
# Base.AsyncLogging — the logger and its writing thread

Front ends `append` messages to `currentBuffer_`; a full one goes to `buffers_`
and `nextBuffer_` takes its place. The thread collects all of them, gives
`currentBuffer_` and `nextBuffer_` its own two spare buffers, writes with the lock
released, and makes two of the written buffers its next spare ones.

The pointers may be null as far as the code says. What makes their uses safe is
`Sound`: a null `nextBuffer_` has left its buffer's predecessor in `buffers_`, so
whenever the thread gives away both spare buffers it has collected at least two.
`conserved` is what follows about the messages: they are packed whole into the
buffers collected so far, `buffers_` and `currentBuffer_`, in lock order, and the
file has of each collection what it does not drop.
-/
import LaliRpc.Base.FixedBuffer
import LaliRpc.Theory.Packing
import LaliRpc.Theory.Transition

namespace LaliRpc.Base

set_option autoImplicit false

open Theory (Packed Run)

/-! ## Buffers -/

abbrev Buffer := FixedBuffer kLargerBuffer

/-- `unique_ptr<Buffer>`; `none` is the null pointer. -/
abbrev BufferPtr := Option Buffer

/-- The bytes behind a pointer. -/
def content (p : BufferPtr) : Bytes := (p.map FixedBuffer.data).getD []

/-! ## The logger -/

/-- One call of `LogFile::append`: a buffer, or the notice about a number of dropped
ones (whose text has a conversion `printf` does not define). -/
inductive Record where
  | data (bytes : Bytes)
  | notice (size : Nat)

/-- Where `threadFunc` is: in front of the loop's test, of the lock, inside
`timedWait`, behind the critical section, or at an index of the writing loop. -/
inductive Phase where
  | unstarted | head | locking | waiting | collected
  | writing (index : Nat)
  | exited
  deriving DecidableEq

/-- The members, the thread's locals, and what has happened: the messages appended in
lock order, the vectors collected, the messages appended when `stop()` was called,
and whether it has returned. -/
structure AsyncLogging where
  running : Bool
  currentBuffer : BufferPtr
  nextBuffer : BufferPtr
  buffers : List BufferPtr
  phase : Phase
  newBuffer1 : BufferPtr
  newBuffer2 : BufferPtr
  bufferToWrite : List BufferPtr
  output : List Record
  appended : List Bytes
  collections : List (List BufferPtr)
  stopped : Option (List Bytes)
  joined : Bool

namespace AsyncLogging

/-- The constructor. -/
def constructed : AsyncLogging where
  running := false
  currentBuffer := some .fresh
  nextBuffer := some .fresh
  buffers := []
  phase := .unstarted
  newBuffer1 := none
  newBuffer2 := none
  bufferToWrite := []
  output := []
  appended := []
  collections := []
  stopped := none
  joined := false

/-- `append(msg, len)` under the lock; `none` when it goes through a null pointer. The
signal in it wakes the thread, whose wait may end at any time. -/
def append (s : AsyncLogging) (msg : Bytes) : Option AsyncLogging :=
  match s.currentBuffer with
  | none => none
  | some current =>
      if current.avail > msg.length then
        some { s with
          currentBuffer := some (current.append msg), appended := s.appended ++ [msg] }
      else
        let next := s.nextBuffer.getD .fresh
        some { s with
          buffers := s.buffers ++ [s.currentBuffer]
          currentBuffer := some (next.append msg)
          nextBuffer := none
          appended := s.appended ++ [msg] }

/-- The critical section behind the wait. -/
def collect (s : AsyncLogging) : AsyncLogging :=
  let full := s.buffers ++ [s.currentBuffer]
  { s with
    phase := .collected
    currentBuffer := s.newBuffer1
    newBuffer1 := none
    buffers := s.bufferToWrite
    bufferToWrite := full
    nextBuffer := if s.nextBuffer.isNone then s.newBuffer2 else s.nextBuffer
    newBuffer2 := if s.nextBuffer.isNone then none else s.newBuffer2
    collections := s.collections ++ [full] }

/-- `erase` when more than 25 buffers were collected, and the notice. -/
def trim (s : AsyncLogging) : AsyncLogging :=
  if 25 < s.bufferToWrite.length then
    { s with
      phase := .writing 0
      output := s.output ++ [.notice (s.bufferToWrite.length - 2)]
      bufferToWrite := s.bufferToWrite.take 2 }
  else { s with phase := .writing 0 }

/-- `if (!slot)` take the last buffer of the vector and reset it; `none` when the vector
is empty or the pointer null. -/
def refill (slot : BufferPtr) (v : List BufferPtr) : Option (BufferPtr × List BufferPtr) :=
  match slot with
  | some b => some (some b, v)
  | none =>
      match v.getLast? with
      | some (some b) => some (some b.reset, v.dropLast)
      | _ => none

/-- Behind the writing loop: the spare buffers are made, the rest is cleared. -/
def recycle (s : AsyncLogging) : Option AsyncLogging :=
  let v := if 2 < s.bufferToWrite.length then s.bufferToWrite.take 2 else s.bufferToWrite
  (refill s.newBuffer1 v).bind fun r1 =>
    (refill s.newBuffer2 r1.2).map fun r2 =>
      { s with phase := .head, newBuffer1 := r1.1, newBuffer2 := r2.1, bufferToWrite := [] }

/-- The next step of `threadFunc`; `none` when it goes through a null pointer or takes
`back()` of an empty vector. -/
def advance (s : AsyncLogging) : Option AsyncLogging :=
  match s.phase with
  | .unstarted => some s
  | .head => some { s with phase := if s.running then .locking else .exited }
  | .locking => some (if s.buffers.isEmpty then { s with phase := .waiting } else s.collect)
  | .waiting => some s.collect
  | .collected => some s.trim
  | .writing i =>
      match s.bufferToWrite[i]? with
      | none => s.recycle
      | some none => none
      | some (some b) => some { s with phase := .writing (i + 1), output := s.output ++ [.data b.data] }
  | .exited => some s

/-- `start()`, with the thread's first lines. -/
def start (s : AsyncLogging) : AsyncLogging :=
  { s with
    running := true, phase := .head, newBuffer1 := some .fresh, newBuffer2 := some .fresh }

/-- What `stop()` does before it joins. -/
def stop (s : AsyncLogging) : AsyncLogging :=
  { s with running := false, stopped := some s.appended }

inductive Event where
  | start
  | append (msg : Bytes)
  | advance
  | stop
  | join

/-- Appends, each shorter than a buffer, steps of the thread, one `start()` and one
`stop()`, in any order the locks allow. -/
inductive Step : AsyncLogging → Event → AsyncLogging → Prop where
  | start {s : AsyncLogging} (new : s.phase = .unstarted) : Step s .start s.start
  | append {s s' : AsyncLogging} (msg : Bytes) (short : msg.length < kLargerBuffer)
      (done : s.append msg = some s') : Step s (.append msg) s'
  | advance {s s' : AsyncLogging} (done : s.advance = some s') : Step s .advance s'
  | stop {s : AsyncLogging} (started : s.phase ≠ .unstarted) (first : s.stopped = none) :
      Step s .stop s.stop
  | join {s : AsyncLogging} (called : s.stopped.isSome) (finished : s.phase = .exited) :
      Step s .join { s with joined := true }

/-! ## What holds of the pointers and the file -/

def record (p : BufferPtr) : Record := .data (content p)

/-- What the file gets of a collection. -/
def written (full : List BufferPtr) : List Record :=
  if 25 < full.length then .notice (full.length - 2) :: (full.take 2).map record
  else full.map record

/-- What the file has still to get of the last collection. -/
def unwritten (s : AsyncLogging) : List Record :=
  match s.phase with
  | .collected => written s.bufferToWrite
  | .writing i => (s.bufferToWrite.drop i).map record
  | _ => []

/-- Enough buffers to make the missing spare ones of. -/
structure Refills (newBuffer1 newBuffer2 : BufferPtr) (v : List BufferPtr) : Prop where
  taken : newBuffer1 = none
  nonnull : ∀ p ∈ v, p.isSome
  one : 1 ≤ v.length
  two : newBuffer2 = none → 2 ≤ v.length

/-- Outside the part from a collection to the spare buffers, the thread has both. -/
def Resting (s : AsyncLogging) : Prop :=
  s.newBuffer1.isSome ∧ s.newBuffer2.isSome ∧ s.bufferToWrite = []

/-- The thread's locals, at each place of its loop. -/
def Locals (s : AsyncLogging) : Prop :=
  match s.phase with
  | .unstarted => s.bufferToWrite = []
  | .collected => Refills s.newBuffer1 s.newBuffer2 s.bufferToWrite
  | .writing i => Refills s.newBuffer1 s.newBuffer2 s.bufferToWrite ∧ i ≤ s.bufferToWrite.length
  | _ => s.Resting

structure Sound (s : AsyncLogging) : Prop where
  current : s.currentBuffer.isSome
  full : ∀ p ∈ s.buffers, p.isSome
  -- the buffer that `nextBuffer_` replaced is still in `buffers_`
  next : s.nextBuffer = none → s.buffers ≠ []
  nextEmpty : content s.nextBuffer = []
  spareEmpty : content s.newBuffer1 = [] ∧ content s.newBuffer2 = []
  locals : s.Locals
  file : s.output ++ s.unwritten = s.collections.flatMap written
  packed : Packed s.appended
    ((s.collections.flatten ++ s.buffers ++ [s.currentBuffer]).map content)

theorem sound_constructed : constructed.Sound where
  current := rfl
  full := by simp [constructed]
  next := by simp [constructed]
  nextEmpty := rfl
  spareEmpty := ⟨rfl, rfl⟩
  locals := rfl
  file := rfl
  packed := Packed.nil.new

/-! ## Front ends -/

section Append

variable {s s' : AsyncLogging} {msg : Bytes}

/-- What an append can do: the message goes behind the others of the current buffer,
or into the next one, which was empty. -/
theorem append_cases (sound : s.Sound) (short : msg.length < kLargerBuffer)
    (done : s.append msg = some s') :
    (∃ current : Buffer, s.currentBuffer = some current ∧ ∃ grown : Buffer,
        grown.data = current.data ++ msg ∧
        s' = { s with currentBuffer := some grown, appended := s.appended ++ [msg] }) ∨
      ∃ next : Buffer, next.data = msg ∧
        s' = { s with
          buffers := s.buffers ++ [s.currentBuffer], currentBuffer := some next,
          nextBuffer := none, appended := s.appended ++ [msg] } := by
  unfold append at done
  cases here : s.currentBuffer with
  | none => simp [here] at done
  | some current =>
      simp only [here] at done
      split at done
      · rename_i room
        refine .inl ⟨current, rfl, current.append msg, FixedBuffer.data_append room, ?_⟩
        exact (Option.some.inj done).symm
      · have empty : (s.nextBuffer.getD .fresh).data = [] := by
          have := sound.nextEmpty
          cases next : s.nextBuffer with
          | none => rfl
          | some b => simpa [next, content] using this
        refine .inr ⟨(s.nextBuffer.getD .fresh).append msg, ?_, (Option.some.inj done).symm⟩
        rw [FixedBuffer.data_append (FixedBuffer.avail_of_empty empty short), empty,
          List.nil_append]

theorem sound_append (sound : s.Sound) (short : msg.length < kLargerBuffer)
    (done : s.append msg = some s') : s'.Sound := by
  have packed := sound.packed
  rw [List.map_append, List.map_singleton] at packed
  rcases append_cases sound short done with ⟨current, here, grown, data, rfl⟩ | ⟨next, data, rfl⟩
  · exact
      { current := rfl
        full := sound.full
        next := sound.next
        nextEmpty := sound.nextEmpty
        spareEmpty := sound.spareEmpty
        locals := sound.locals
        file := sound.file
        packed := by
          have last : content (some grown) = content s.currentBuffer ++ msg := by
            simp [content, here, data]
          rw [List.map_append, List.map_singleton, last]
          exact packed.into_last msg }
  · exact
      { current := rfl
        full := by
          intro p mem
          rcases List.mem_append.mp mem with old | new
          · exact sound.full p old
          · rw [List.mem_singleton.mp new]
            exact sound.current
        next := by simp
        nextEmpty := rfl
        spareEmpty := sound.spareEmpty
        locals := sound.locals
        file := sound.file
        packed := by
          have last : content (some next) = msg := data
          have into := packed.into_new msg
          simpa [last, List.append_assoc] using into }

end Append

/-! ## The thread -/

section Advance

variable {s s' : AsyncLogging}

/-- In front of a collection the thread has its spare buffers and nothing to write. -/
theorem Sound.resting (sound : s.Sound)
    (idle : s.phase = .head ∨ s.phase = .locking ∨ s.phase = .waiting) :
    s.Resting ∧ s.unwritten = [] := by
  have locals := sound.locals
  rcases idle with phase | phase | phase
  · simp only [Locals, phase] at locals
    exact ⟨locals, by simp [unwritten, phase]⟩
  · simp only [Locals, phase] at locals
    exact ⟨locals, by simp [unwritten, phase]⟩
  · simp only [Locals, phase] at locals
    exact ⟨locals, by simp [unwritten, phase]⟩

/-- In the writing loop it has the buffers that the next spare ones are made of. -/
theorem Sound.refills (sound : s.Sound) {i : Nat} (phase : s.phase = .writing i) :
    Refills s.newBuffer1 s.newBuffer2 s.bufferToWrite := by
  have locals := sound.locals
  simp only [Locals, phase] at locals
  exact locals.1

/-- **A collection** takes at least one buffer, and two when it gives away both spare
ones. -/
theorem sound_collect (sound : s.Sound) (resting : s.Resting) (quiet : s.unwritten = []) :
    s.collect.Sound := by
  obtain ⟨spare1, spare2, cleared⟩ := resting
  have file := sound.file
  have packed := sound.packed
  rw [quiet, List.append_nil] at file
  exact
    { current := spare1
      full := by
        intro p mem
        simp [collect, cleared] at mem
      next := by
        intro null
        cases next : s.nextBuffer with
        | none =>
            have given : s.newBuffer2 = none := by simpa [collect, next] using null
            rw [given] at spare2
            simp at spare2
        | some b => simp [collect, next] at null
      nextEmpty := by
        cases next : s.nextBuffer with
        | none => simpa [collect, next] using sound.spareEmpty.2
        | some b => simpa [collect, next] using sound.nextEmpty
      spareEmpty := by
        refine ⟨rfl, ?_⟩
        cases next : s.nextBuffer with
        | none => simp [collect, next, content]
        | some b => simpa [collect, next] using sound.spareEmpty.2
      locals :=
        { taken := rfl
          nonnull := by
            intro p mem
            rcases List.mem_append.mp mem with old | new
            · exact sound.full p old
            · rw [List.mem_singleton.mp new]
              exact sound.current
          one := by simp [collect]
          two := by
            intro gone
            cases next : s.nextBuffer with
            | none =>
                have := List.length_pos_iff.mpr (sound.next next)
                simp only [collect, List.length_append, List.length_singleton]
                omega
            | some b =>
                have kept : s.newBuffer2 = none := by simpa [collect, next] using gone
                rw [kept] at spare2
                simp at spare2 }
      file := by
        simp only [collect, unwritten, List.flatMap_append, List.flatMap_singleton, file]
      packed := by
        have empty : content s.newBuffer1 = [] := sound.spareEmpty.1
        have next := packed.new
        simpa [collect, cleared, empty, List.append_assoc] using next }

theorem sound_trim (sound : s.Sound) (phase : s.phase = .collected) : s.trim.Sound := by
  have refills : Refills s.newBuffer1 s.newBuffer2 s.bufferToWrite := by
    simpa [Locals, phase] using sound.locals
  have file := sound.file
  simp only [unwritten, phase, written] at file
  unfold trim
  split
  · rename_i many
    rw [if_pos many] at file
    have two : (s.bufferToWrite.take 2).length = 2 := by
      rw [List.length_take]
      omega
    exact
      { sound with
        locals :=
          ⟨{ taken := refills.taken
             nonnull := fun p mem => refills.nonnull p (List.mem_of_mem_take mem)
             one := by simp only [two]; omega
             two := fun _ => by simp only [two]; omega }, Nat.zero_le _⟩
        file := by
          rw [← file]
          simp [unwritten] }
  · rename_i few
    rw [if_neg few] at file
    exact
      { sound with
        locals := ⟨refills, Nat.zero_le _⟩
        file := by
          rw [← file]
          simp [unwritten] }

theorem sound_write (sound : s.Sound) {i : Nat} (phase : s.phase = .writing i) {b : Buffer}
    (at' : s.bufferToWrite[i]? = some (some b)) :
    Sound { s with phase := .writing (i + 1), output := s.output ++ [.data b.data] } := by
  obtain ⟨inside, same⟩ := List.getElem?_eq_some_iff.mp at'
  have file := sound.file
  simp only [unwritten, phase, List.drop_eq_getElem_cons inside, same, List.map_cons] at file
  exact
    { sound with
      locals := ⟨sound.refills phase, inside⟩
      file := by
        rw [← file]
        simp [unwritten, record, content] }

/-- A missing spare buffer is made of the last one written. -/
theorem refill_none {v : List BufferPtr} (nonnull : ∀ p ∈ v, p.isSome) (some' : v ≠ []) :
    refill none v = some (some .fresh, v.dropLast) := by
  have last := nonnull _ (List.getLast_mem some')
  obtain ⟨b, hb⟩ := Option.isSome_iff_exists.mp last
  simp [refill, List.getLast?_eq_some_getLast some', hb, FixedBuffer.reset]

/-- **`back()` is never taken of an empty vector**: the spare buffers can be made, and
they are empty. -/
theorem recycle_eq (refills : Refills s.newBuffer1 s.newBuffer2 s.bufferToWrite)
    (empty : content s.newBuffer2 = []) :
    ∃ b1 b2 : Buffer, b1.data = [] ∧ b2.data = [] ∧
      s.recycle = some { s with
        phase := .head, newBuffer1 := some b1, newBuffer2 := some b2, bufferToWrite := [] } := by
  have two := refills.two
  have one := refills.one
  unfold recycle
  generalize hv : (if 2 < s.bufferToWrite.length then s.bufferToWrite.take 2
    else s.bufferToWrite) = v
  have nonnull : ∀ p ∈ v, p.isSome := by
    intro p mem
    rw [← hv] at mem
    split at mem
    · exact refills.nonnull p (List.mem_of_mem_take mem)
    · exact refills.nonnull p mem
  have size : v.length = min 2 s.bufferToWrite.length := by
    rw [← hv]
    split
    · simp
    · omega
  have some1 : v ≠ [] := by
    apply List.length_pos_iff.mp
    omega
  have first : refill s.newBuffer1 v = some (some .fresh, v.dropLast) := by
    rw [refills.taken]
    exact refill_none nonnull some1
  cases spare : s.newBuffer2 with
  | some b =>
      refine ⟨.fresh, b, rfl, by simpa [content, spare] using empty, ?_⟩
      simp only [first, Option.bind_some]
      rfl
  | none =>
      have two := two spare
      have some2 : v.dropLast ≠ [] := by
        apply List.length_pos_iff.mp
        rw [List.length_dropLast]
        omega
      have second : refill none v.dropLast = some (some .fresh, v.dropLast.dropLast) :=
        refill_none (fun p mem => nonnull p (List.mem_of_mem_dropLast mem)) some2
      refine ⟨.fresh, .fresh, rfl, rfl, ?_⟩
      simp only [first, Option.bind_some, second, Option.map_some]

theorem sound_recycle (sound : s.Sound) {i : Nat} (phase : s.phase = .writing i)
    (at' : s.bufferToWrite[i]? = none) : ∃ s', s.recycle = some s' ∧ s'.Sound := by
  obtain ⟨b1, b2, empty1, empty2, recycled⟩ :=
    recycle_eq (sound.refills phase) sound.spareEmpty.2
  have file := sound.file
  have finished : s.bufferToWrite.drop i = [] := by
    apply List.drop_eq_nil_of_le
    exact List.getElem?_eq_none_iff.mp at'
  simp only [unwritten, phase, finished, List.map_nil] at file
  exact ⟨_, recycled,
    { sound with
      spareEmpty := ⟨empty1, empty2⟩
      locals := ⟨rfl, rfl, rfl⟩
      file := file }⟩

/-- The thread's steps in front of a collection change nothing else. -/
theorem sound_phase (sound : s.Sound) (resting : s.Resting) (quiet : s.unwritten = [])
    {phase : Phase} (idle : phase = .locking ∨ phase = .waiting ∨ phase = .exited) :
    Sound { s with phase := phase } := by
  have file := sound.file
  rw [quiet] at file
  rcases idle with rfl | rfl | rfl
  · exact { sound with locals := resting, file := file }
  · exact { sound with locals := resting, file := file }
  · exact { sound with locals := resting, file := file }

/-- **The thread never goes through a null pointer**, and keeps the invariant. -/
theorem sound_advance (sound : s.Sound) : ∃ s', s.advance = some s' ∧ s'.Sound := by
  unfold advance
  cases phase : s.phase with
  | unstarted => exact ⟨s, rfl, sound⟩
  | head =>
      obtain ⟨resting, quiet⟩ := sound.resting (.inl phase)
      refine ⟨_, rfl, sound_phase sound resting quiet ?_⟩
      split
      · exact .inl rfl
      · exact .inr (.inr rfl)
  | locking =>
      obtain ⟨resting, quiet⟩ := sound.resting (.inr (.inl phase))
      refine ⟨_, rfl, ?_⟩
      split
      · exact sound_phase sound resting quiet (.inr (.inl rfl))
      · exact sound_collect sound resting quiet
  | waiting =>
      obtain ⟨resting, quiet⟩ := sound.resting (.inr (.inr phase))
      exact ⟨_, rfl, sound_collect sound resting quiet⟩
  | collected => exact ⟨_, rfl, sound_trim sound phase⟩
  | writing i =>
      cases at' : s.bufferToWrite[i]? with
      | none => simpa [at'] using sound_recycle sound phase at'
      | some p =>
          have nonnull := (sound.refills phase).nonnull p (List.mem_of_getElem? at')
          obtain ⟨b, rfl⟩ := Option.isSome_iff_exists.mp nonnull
          exact ⟨_, by simp [at'], sound_write sound phase at'⟩
  | exited => exact ⟨s, rfl, sound⟩

end Advance

/-! ## Runs -/

theorem sound_step {s s' : AsyncLogging} {e : Event} (sound : s.Sound) (step : Step s e s') :
    s'.Sound := by
  cases step with
  | start new =>
      have file := sound.file
      simp only [unwritten, new] at file
      have cleared : s.bufferToWrite = [] := by simpa [Locals, new] using sound.locals
      exact
        { sound with
          spareEmpty := ⟨rfl, rfl⟩
          locals := ⟨rfl, rfl, cleared⟩
          file := file }
  | append msg short done => exact sound_append sound short done
  | advance done =>
      obtain ⟨s'', same, sound'⟩ := sound_advance sound
      rw [same] at done
      cases done
      exact sound'
  | stop started first => exact { sound with }
  | join called finished => exact { sound with }

/-- The message bytes in a record. -/
def Record.bytes : Record → Bytes
  | .data bytes => bytes
  | .notice _ => []

/-- The message bytes handed to `LogFile`. -/
def fileBytes (s : AsyncLogging) : Bytes := s.output.flatMap Record.bytes

theorem bytes_written {full : List BufferPtr} (few : full.length ≤ 25) :
    (written full).flatMap Record.bytes = full.flatMap content := by
  rw [written, if_neg (by omega), List.flatMap_map]
  rfl

/-- Without a notice the file, what it has still to get, and the buffers not
collected make up the messages. -/
theorem bytes_eq {s : AsyncLogging} (sound : s.Sound)
    (few : ∀ full ∈ s.collections, full.length ≤ 25) :
    s.fileBytes ++ s.unwritten.flatMap Record.bytes = s.collections.flatten.flatMap content := by
  have all : ∀ collections : List (List BufferPtr),
      (∀ full ∈ collections, full.length ≤ 25) →
        (collections.flatMap written).flatMap Record.bytes =
          collections.flatten.flatMap content := by
    intro collections
    induction collections with
    | nil => intro _; rfl
    | cons full collections ih =>
        intro few
        rw [List.flatMap_cons, List.flatMap_append, bytes_written (few full (by simp)),
          ih fun full' mem => few full' (by simp [mem]), List.flatten_cons, List.flatMap_append]
  rw [fileBytes, ← List.flatMap_append, sound.file, all _ few]

/-- What the logger owes its front ends, in a state. -/
structure Conserves (s : AsyncLogging) : Prop where
  /-- `append` finds a buffer. -/
  appends : ∀ msg, ∃ s', s.append msg = some s'
  /-- The thread writes no null buffer and takes `back()` of no empty vector. -/
  advances : ∃ s', s.advance = some s'
  spare : s.phase = .head → s.newBuffer1.isSome ∧ s.newBuffer2.isSome
  /-- Collected, filled and current buffers hold the messages, each in one buffer. -/
  packed : Packed s.appended
    ((s.collections.flatten ++ s.buffers ++ [s.currentBuffer]).map content)
  /-- Of every collection the file has, or is still to get, all, or with more than 25
  buffers a notice and the first two. -/
  file : s.output ++ s.unwritten = s.collections.flatMap written
  /-- Without such a notice no byte is missing. -/
  bytes : (∀ full ∈ s.collections, full.length ≤ 25) →
    s.fileBytes ++ s.unwritten.flatMap Record.bytes ++
      (s.buffers ++ [s.currentBuffer]).flatMap content = s.appended.flatten

theorem Sound.conserves {s : AsyncLogging} (sound : s.Sound) : s.Conserves where
  appends := by
    intro msg
    obtain ⟨current, here⟩ := Option.isSome_iff_exists.mp sound.current
    unfold append
    simp only [here]
    split
    · exact ⟨_, rfl⟩
    · exact ⟨_, rfl⟩
  advances := by
    obtain ⟨s', advanced, -⟩ := sound_advance sound
    exact ⟨s', advanced⟩
  spare := by
    intro head
    obtain ⟨⟨spare1, spare2, -⟩, -⟩ := sound.resting (.inl head)
    exact ⟨spare1, spare2⟩
  packed := sound.packed
  file := sound.file
  bytes := by
    intro few
    rw [bytes_eq sound few, ← List.flatMap_append, sound.packed.flatten_eq, List.flatMap_def,
      List.append_assoc]

/-- **The log conserves the messages**, in every state of every run: no pointer is
null where it is used, the messages are packed whole and in lock order, and the file
lacks of them only what a notice stands for. -/
theorem conserved {trace : List (AsyncLogging × Event)} {s : AsyncLogging}
    (run : Run Step constructed trace s) : Run.Throughout Conserves trace s := by
  have sound := run.invariant (I := Sound) (fun _ _ _ => sound_step) sound_constructed
  apply sound.imp
  intro s sound
  exact sound.conserves

/-- A message appended while the thread waits is collected and written. -/
theorem conserved_while_waiting : ∃ trace s, Run Step constructed trace s ∧
    s.fileBytes = ascii "up" ∧ Run.Throughout Conserves trace s := by
  have run : ∃ trace s, Run Step constructed trace s ∧ s.fileBytes = ascii "up" := by
    refine ⟨_, _, .cons (.start rfl) <| .cons (.advance rfl) <| .cons (.advance rfl) <|
      .cons (.append (ascii "up") (by decide) rfl) <| .cons (.advance rfl) <|
      .cons (.advance rfl) <| .cons (.advance rfl) <| .nil _, ?_⟩
    rfl
  obtain ⟨trace, s, run, up⟩ := run
  exact ⟨trace, s, run, up, conserved run⟩

end AsyncLogging

end LaliRpc.Base
