/-
# Base.BlockingQueue — a queue that consumers wait on

`put` appends under the lock and signals; `take` waits while the queue is empty, and
takes the first element. A signal wakes one of the consumers that wait, but whoever
gets the lock next may take the element, and a wait may also end without a signal.

For any number of threads, in any order: the elements are taken in the order in which
they were put, each by one consumer (`fifo`, `once`), and a consumer that waits
unnotified never waits in vain, as there are at least as many notified ones on their way
to the lock as elements in the queue (`answered`). So nobody waits while an element is
there that nobody comes for (`empty_of_waiting`).
-/
import LaliRpc.Theory.Crew
import LaliRpc.Theory.Transition

namespace LaliRpc.Base

set_option autoImplicit false

open Theory (Moves Run Signals Answered)

/-- Where a consumer is: not in `take`, or in front of its lock; in the wait; signalled
there; awake without a signal. -/
inductive Consumer where
  | outside | waiting | notified | roused
  deriving DecidableEq, Repr

/-- The queue and the consumers, with the elements that were put, and those that were
taken, with the consumer each was returned to; both in the order of the lock. -/
structure BlockingQueue (α : Type) where
  queue : List α
  consumers : List Consumer
  put : List α
  taken : List (Nat × α)

namespace BlockingQueue

variable {α : Type}

def constructed (consumers : Nat) : BlockingQueue α where
  queue := []
  consumers := List.replicate consumers .outside
  put := []
  taken := []

def size (s : BlockingQueue α) : Nat := s.queue.length

inductive Event (α : Type) where
  | put (producer : Nat) (obj : α)
  | take (consumer : Nat)
  | rouse (consumer : Nat)

/-- Those that go on at the test of the loop in `take` when they get the lock. -/
def Enters (c : Consumer) : Prop := c ≠ .waiting

/-- `take` from the test of its loop on, under the lock, by consumer `i`. -/
def takeLocked (s : BlockingQueue α) (i : Nat) : BlockingQueue α :=
  match s.queue with
  | [] => { s with consumers := s.consumers.set i .waiting }
  | currentTask :: queue =>
      { s with
        queue := queue
        consumers := s.consumers.set i .outside
        taken := s.taken ++ [(i, currentTask)] }

/-- Any thread's next step; a part under the lock is one step. -/
inductive Step : BlockingQueue α → Event α → BlockingQueue α → Prop where
  | put {s : BlockingQueue α} {cs : List Consumer} (producer : Nat) (obj : α)
      (weakup : Signals .waiting .notified s.consumers cs) :
      Step s (.put producer obj)
        { s with queue := s.queue ++ [obj], consumers := cs, put := s.put ++ [obj] }
  | take {s : BlockingQueue α} {i : Nat} {c : Consumer} (here : s.consumers[i]? = some c)
      (enters : Enters c) : Step s (.take i) (s.takeLocked i)
  | rouse {s : BlockingQueue α} {i : Nat} (here : s.consumers[i]? = some .waiting) :
      Step s (.rouse i) { s with consumers := s.consumers.set i .roused }

/-! ## The invariant -/

structure Sound (consumers : Nat) (s : BlockingQueue α) : Prop where
  conserved : s.put = s.taken.map Prod.snd ++ s.queue
  answered : Answered .waiting .notified s.queue.length s.consumers
  crew : s.consumers.length = consumers
  takers : ∀ d ∈ s.taken, d.1 < consumers

section Steps

variable {n : Nat} {s s' : BlockingQueue α} {e : Event α}

theorem sound_constructed (n : Nat) : (constructed n : BlockingQueue α).Sound n where
  conserved := rfl
  answered := .none _ _ _
  crew := List.length_replicate
  takers := nofun

/-- **A put answers for its element**, by a signal to somebody that waits. -/
theorem sound_put (sound : s.Sound n) {cs : List Consumer} (obj : α)
    (weakup : Signals .waiting .notified s.consumers cs) :
    Sound n { s with queue := s.queue ++ [obj], consumers := cs, put := s.put ++ [obj] } where
  conserved := by
    rw [sound.conserved, List.append_assoc]
  answered := by
    rw [List.length_append]
    exact sound.answered.signal (by simp) weakup
  crew := by
    rw [← sound.crew]
    rcases weakup with moves | ⟨-, rfl⟩
    · exact moves.length_eq
    · rfl
  takers := sound.takers

/-- **A consumer waits only in front of an empty queue**, and takes the first element with
one notification at most. -/
theorem sound_takeLocked (sound : s.Sound n) {i : Nat} {c : Consumer}
    (here : s.consumers[i]? = some c) : (s.takeLocked i).Sound n := by
  have inside : i < n := sound.crew ▸ (List.getElem?_eq_some_iff.mp here).1
  have crew : ∀ c', (s.consumers.set i c').length = n :=
    fun c' => List.length_set.trans sound.crew
  unfold takeLocked
  cases first : s.queue with
  | nil =>
      exact
        { conserved := by simpa [first] using sound.conserved
          answered := .none _ _ _
          crew := crew _
          takers := sound.takers }
  | cons currentTask queue =>
      have answered := sound.answered
      rw [first, List.length_cons] at answered
      refine ⟨?_, answered.take (Moves.of_set here .outside) (by simp) (by simp), crew _, ?_⟩
      · simp [sound.conserved, first]
      · intro d mem
        rcases List.mem_append.mp mem with early | last
        · exact sound.takers d early
        · rw [List.mem_singleton.mp last]
          exact inside

theorem sound_step (sound : s.Sound n) (step : Step s e s') : s'.Sound n := by
  cases step with
  | put producer obj weakup => exact sound_put sound obj weakup
  | take here enters => exact sound_takeLocked sound here
  | rouse here =>
      refine ⟨sound.conserved, ?_, List.length_set.trans sound.crew, sound.takers⟩
      exact sound.answered.move (Moves.of_set here .roused) (by simp) (by simp) (by simp)

end Steps

/-! ## The channel -/

/-- What the queue owes its users, in a state. -/
structure Delivers (s : BlockingQueue α) : Prop where
  /-- Elements leave the queue in the order in which they came. -/
  fifo : s.taken.map Prod.snd <+: s.put
  /-- Each of those that have left was returned to one consumer. -/
  once : ∀ k, k < s.taken.length → ∃! i, i < s.consumers.length ∧
    ∃ obj, s.put[k]? = some obj ∧ s.taken[k]? = some (i, obj)
  /-- While somebody waits, every element has a notified consumer coming for it. -/
  answered : .waiting ∈ s.consumers → s.size ≤ s.consumers.count .notified

theorem Sound.delivers {n : Nat} {s : BlockingQueue α} (sound : s.Sound n) : s.Delivers where
  fifo := ⟨s.queue, sound.conserved.symm⟩
  once := by
    intro k inside
    obtain ⟨⟨i, obj⟩, there⟩ : ∃ d, s.taken[k]? = some d :=
      ⟨_, List.getElem?_eq_getElem inside⟩
    have known : i < s.consumers.length := by
      rw [sound.crew]
      exact sound.takers (i, obj) (List.mem_of_getElem? there)
    have put : s.put[k]? = some obj := by
      rw [sound.conserved, List.getElem?_append_left (by simpa using inside), List.getElem?_map,
        there]
      rfl
    refine ⟨i, ⟨known, obj, put, there⟩, ?_⟩
    rintro j ⟨-, obj', -, also⟩
    rw [there] at also
    cases also
    rfl
  answered := sound.answered

/-- Nobody waits in front of an element that nobody comes for. -/
theorem empty_of_waiting {s : BlockingQueue α} (delivers : s.Delivers)
    (waits : .waiting ∈ s.consumers) (nobody : .notified ∉ s.consumers) : s.queue = [] := by
  have bound := delivers.answered waits
  rw [List.count_eq_zero.mpr nobody] at bound
  exact List.length_eq_zero_iff.mp (Nat.le_zero.mp bound)

/-- **The queue is a FIFO channel that loses no wake-up**, in every state of every run of
any number of producers and consumers. -/
theorem fifo_channel {consumers : Nat} {trace : List (BlockingQueue α × Event α)}
    {s : BlockingQueue α} (run : Run Step (constructed consumers) trace s) :
    Run.Throughout Delivers trace s := by
  have sound := run.invariant (I := Sound consumers) (fun _ _ _ => sound_step)
    (sound_constructed consumers)
  exact sound.imp fun s sound => sound.delivers

/-- Two consumers: one waits and is notified, and the other takes the element first. -/
theorem fifo_channel_overtaken : ∃ trace s, Run Step (constructed 2) trace s ∧
    s.taken = [(1, 'a')] ∧ s.consumers = [.waiting, .outside] ∧
    Run.Throughout Delivers trace s := by
  have run : ∃ trace s, Run Step (constructed 2) trace s ∧ s.taken = [(1, 'a')] ∧
      s.consumers = [.waiting, .outside] :=
    ⟨_, _, .cons (@Step.take _ _ 0 .outside rfl nofun) <|
      .cons (.put 7 'a' (.inl (.intro [] [Consumer.outside] _ _))) <|
      .cons (@Step.take _ _ 1 .outside rfl nofun) <|
      .cons (@Step.take _ _ 0 .notified rfl nofun) <| .nil _, rfl, rfl⟩
  obtain ⟨trace, s, run, taken, consumers⟩ := run
  exact ⟨trace, s, run, taken, consumers, fifo_channel run⟩

end BlockingQueue

end LaliRpc.Base
