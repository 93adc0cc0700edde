/-
# Base.Mutex — the record of who holds a lock

`Mutex` keeps the id of the thread that holds the pthread mutex in `holder_`: `lock()`
assigns it behind `pthread_mutex_lock`, `unlock()` clears it behind
`pthread_mutex_unlock`, when another thread may have locked and assigned already. And
`Condition::wait` gives the pthread mutex up and takes it back without a word to
`holder_`. So the record is truthful in exactly the runs in which no `unlock()` clears it
under another holder and no wait returns to find that it was assigned in the meantime
(`truthful_iff`). What never fails is the other half: no thread outside takes itself for
the holder, and once all are outside the mutex can be destroyed (`destroyed_ok`).
-/
import LaliRpc.Base.Bytes
import LaliRpc.Theory.Transition
import Mathlib.Logic.Function.Basic

namespace LaliRpc.Base

set_option autoImplicit false

open Theory (Run)

/-- What `CurrentThread::tid()` is in each thread; the system's ids are positive, and no
two threads have the same. -/
structure ThreadIds (ι : Type) where
  tid : ι → Int
  positive : ∀ i, 0 < tid i
  distinct : Function.Injective tid

/-- Where a thread is: in no call and without the mutex; in `lock()` behind
`pthread_mutex_lock`; in no call and with the mutex; in `unlock()` behind
`pthread_mutex_unlock`; in `wait()` or `timedWait()`, having given the mutex up. -/
inductive Place where
  | outside | locked | holding | unlocked | waiting
  deriving DecidableEq

/-- The pthread mutex as the thread that has it, `holder_`, where the threads are, and
whether `holder_` was assigned since a thread last gave the mutex up. -/
structure Mutex (ι : Type) where
  mutex : Option ι
  holder : Int
  place : ι → Place
  assigned : ι → Bool

namespace Mutex

variable {ι : Type}

def constructed : Mutex ι where
  mutex := none
  holder := 0
  place := fun _ => .outside
  assigned := fun _ => false

/-- Thread `i` gets the pthread mutex. -/
def acquire [DecidableEq ι] (s : Mutex ι) (i : ι) (next : Place) : Mutex ι :=
  { s with mutex := some i, place := Function.update s.place i next }

/-- Thread `i` gives the pthread mutex up. -/
def release [DecidableEq ι] (s : Mutex ι) (i : ι) (next : Place) : Mutex ι :=
  { s with
    mutex := none
    place := Function.update s.place i next
    assigned := Function.update s.assigned i false }

/-- `holder_ = value` in thread `i`. -/
def assign [DecidableEq ι] (s : Mutex ι) (i : ι) (value : Int) (next : Place) : Mutex ι :=
  { s with
    holder := value
    place := Function.update s.place i next
    assigned := fun _ => true }

def isLockbyThisThread (ids : ThreadIds ι) (s : Mutex ι) (i : ι) : Bool := s.holder = ids.tid i

def assertLocked (ids : ThreadIds ι) (s : Mutex ι) (i : ι) : Except Thrown Unit :=
  throwIf (¬ s.isLockbyThisThread ids i) .assertion

/-- `~Mutex`; `pthread_mutex_destroy` fails when a thread has the mutex. -/
def destroyed (s : Mutex ι) : Except Thrown Unit := do
  throwIf (s.holder ≠ 0) .assertion
  throwIf (s.mutex.isSome = true) .assertion

/-- The statements of `lock()` and `unlock()`, and the two halves of
`pthread_cond_wait` and `pthread_cond_timedwait`. -/
inductive Event (ι : Type) where
  | lock (i : ι)
  | setHolder (i : ι)
  | unlock (i : ι)
  | clearHolder (i : ι)
  | wait (i : ι)
  | awake (i : ι)

/-- A thread unlocks and waits when it has the mutex. A wait ends at any time: it was
signalled, its time is over, or it wakes without a reason. -/
inductive Step [DecidableEq ι] (ids : ThreadIds ι) : Mutex ι → Event ι → Mutex ι → Prop where
  | lock {s : Mutex ι} {i : ι} (here : s.place i = .outside) (free : s.mutex = none) :
      Step ids s (.lock i) (s.acquire i .locked)
  | setHolder {s : Mutex ι} {i : ι} (here : s.place i = .locked) :
      Step ids s (.setHolder i) (s.assign i (ids.tid i) .holding)
  | unlock {s : Mutex ι} {i : ι} (here : s.place i = .holding) :
      Step ids s (.unlock i) (s.release i .unlocked)
  | clearHolder {s : Mutex ι} {i : ι} (here : s.place i = .unlocked) :
      Step ids s (.clearHolder i) (s.assign i 0 .outside)
  | wait {s : Mutex ι} {i : ι} (here : s.place i = .holding) :
      Step ids s (.wait i) (s.release i .waiting)
  | awake {s : Mutex ι} {i : ι} (here : s.place i = .waiting) (free : s.mutex = none) :
      Step ids s (.awake i) (s.acquire i .holding)

/-! ## The record -/

/-- A thread that has the mutex, and is in none of the calls, is the one recorded; so
those that are in none of them learn whether they hold it, and an assertion of a holder
does not fail. -/
structure Truthful (ids : ThreadIds ι) (s : Mutex ι) : Prop where
  record : ∀ i, s.place i = .holding → s.holder = ids.tid i
  known : ∀ i, s.place i = .outside ∨ s.place i = .holding →
    (s.isLockbyThisThread ids i = true ↔ s.mutex = some i)
  asserted : ∀ i, s.place i = .holding → s.assertLocked ids i = .ok ()

/-- `holder_` is cleared while another thread has the mutex and is in none of the calls;
or a wait returns, and `holder_` was assigned since it began. -/
def Overtaken (s : Mutex ι) : Event ι → Prop
  | .clearHolder _ => ∃ j, s.place j = .holding
  | .awake i => s.assigned i = true
  | _ => False

/-- What holds in every run. -/
structure Sound (ids : ThreadIds ι) (s : Mutex ι) : Prop where
  owner : ∀ i, s.mutex = some i ↔ s.place i = .locked ∨ s.place i = .holding
  absent : ∀ i, s.place i = .outside → s.holder ≠ ids.tid i
  asleep : ∀ i, s.place i = .waiting → s.assigned i = true → s.holder ≠ ids.tid i
  recorded : s.holder = 0 ∨ ∃ i, s.holder = ids.tid i

theorem sound_constructed (ids : ThreadIds ι) : constructed.Sound ids where
  owner := fun _ => iff_of_false nofun (fun h => by rcases h with h | h <;> cases h)
  absent := fun i _ => (ids.positive i).ne
  asleep := nofun
  recorded := .inl rfl

/-- Only one thread has the mutex. -/
theorem Sound.alone {ids : ThreadIds ι} {s : Mutex ι} {i j : ι} (sound : s.Sound ids)
    (has : s.place i = .locked ∨ s.place i = .holding) (holds : s.place j = .holding) : j = i := by
  have mine := (sound.owner i).mpr has
  rw [(sound.owner j).mpr (.inr holds)] at mine
  exact Option.some.inj mine

/-- Under the invariant the record is all that there is to know. -/
theorem truthful_of_record {ids : ThreadIds ι} {s : Mutex ι} (sound : s.Sound ids)
    (record : ∀ i, s.place i = .holding → s.holder = ids.tid i) : s.Truthful ids where
  record := record
  known := by
    rintro i (out | holds)
    · have without : s.mutex ≠ some i := by
        rw [ne_eq, sound.owner i, out]
        rintro (h | h) <;> cases h
      simp only [isLockbyThisThread, decide_eq_true_eq]
      exact iff_of_false (sound.absent i out) without
    · simp only [isLockbyThisThread, decide_eq_true_eq]
      exact iff_of_true (record i holds) ((sound.owner i).mpr (.inr holds))
  asserted := by
    intro i holds
    simp [assertLocked, isLockbyThisThread, record i holds, throwIf]

section Steps

variable [DecidableEq ι] {ids : ThreadIds ι} {s s' : Mutex ι} {e : Event ι} {i j : ι}
  {next : Place} {value : Int}

/-- The acting thread and the others. -/
theorem place_update (s : Mutex ι) (i j : ι) (next : Place) :
    j = i ∧ Function.update s.place i next j = next ∨
      j ≠ i ∧ Function.update s.place i next j = s.place j := by
  by_cases same : j = i
  · subst same
    exact .inl ⟨rfl, Function.update_self ..⟩
  · exact .inr ⟨same, Function.update_of_ne same ..⟩

/-- What is not the new value is an old one, and of another thread. -/
theorem old_of_update {α : Type} {f : ι → α} {a b : α} (here : Function.update f i a j = b)
    (new : a ≠ b) : j ≠ i ∧ f j = b := by
  have other : j ≠ i := by
    rintro rfl
    exact new ((Function.update_self ..).symm.trans here)
  exact ⟨other, (Function.update_of_ne other ..).symm.trans here⟩

theorem sound_acquire (sound : s.Sound ids) (free : s.mutex = none)
    (has : next = .locked ∨ next = .holding) : (s.acquire i next).Sound ids where
  owner := by
    intro j
    simp only [acquire]
    rcases place_update s i j next with ⟨rfl, there⟩ | ⟨other, there⟩
    · rw [there]
      exact iff_of_true rfl has
    · rw [there, ← sound.owner j, free]
      exact iff_of_false (fun same => other (Option.some.inj same).symm) nofun
  absent := by
    intro j out
    have inside : next ≠ .outside := by rcases has with rfl | rfl <;> decide
    exact sound.absent j (old_of_update out inside).2
  asleep := by
    intro j sleeps marked
    have awake : next ≠ .waiting := by rcases has with rfl | rfl <;> decide
    exact sound.asleep j (old_of_update sleeps awake).2 marked
  recorded := sound.recorded

theorem sound_release (sound : s.Sound ids) (here : s.place i = .holding)
    (gone : next = .unlocked ∨ next = .waiting) : (s.release i next).Sound ids where
  owner := by
    intro j
    simp only [release]
    refine iff_of_false nofun ?_
    rcases place_update s i j next with ⟨rfl, there⟩ | ⟨other, there⟩
    · rw [there]
      rcases gone with rfl | rfl <;> rintro (h | h) <;> cases h
    · -- only one thread has the mutex, and that is `i`
      rw [there, ← sound.owner j, (sound.owner i).mpr (.inr here)]
      exact fun same => other (Option.some.inj same).symm
  absent := by
    intro j out
    have inside : next ≠ .outside := by rcases gone with rfl | rfl <;> decide
    exact sound.absent j (old_of_update out inside).2
  asleep := by
    intro j sleeps marked
    simp only [release] at sleeps marked
    obtain ⟨other, marked⟩ := old_of_update marked Bool.false_ne_true
    rw [Function.update_of_ne other] at sleeps
    exact sound.asleep j sleeps marked
  recorded := sound.recorded

/-- An assignment, in `lock()` or in `unlock()`. -/
theorem sound_assign (sound : s.Sound ids)
    (place : s.place i = .locked ∧ value = ids.tid i ∧ next = .holding ∨
      s.place i = .unlocked ∧ value = 0 ∧ next = .outside) : (s.assign i value next).Sound ids where
  owner := by
    intro j
    simp only [assign]
    rw [sound.owner j]
    rcases place_update s i j next with ⟨rfl, there⟩ | ⟨-, there⟩
    · rw [there]
      rcases place with ⟨here, -, rfl⟩ | ⟨here, -, rfl⟩
      · exact iff_of_true (.inl here) (.inr rfl)
      · rw [here]
        exact iff_of_false (by rintro (h | h) <;> cases h) (by rintro (h | h) <;> cases h)
    · rw [there]
  absent := by
    intro j out
    rcases place with ⟨-, rfl, rfl⟩ | ⟨-, rfl, rfl⟩
    · exact fun same => (old_of_update out nofun).1 (ids.distinct same).symm
    · exact (ids.positive j).ne
  asleep := by
    intro j sleeps _
    rcases place with ⟨-, rfl, rfl⟩ | ⟨-, rfl, rfl⟩
    · exact fun same => (old_of_update sleeps nofun).1 (ids.distinct same).symm
    · exact (ids.positive j).ne
  recorded := by
    rcases place with ⟨-, rfl, -⟩ | ⟨-, rfl, -⟩
    · exact .inr ⟨i, rfl⟩
    · exact .inl rfl

theorem sound_step (sound : s.Sound ids) (step : Step ids s e s') : s'.Sound ids := by
  cases step with
  | lock here free => exact sound_acquire sound free (.inl rfl)
  | setHolder here => exact sound_assign sound (.inl ⟨here, rfl, rfl⟩)
  | unlock here => exact sound_release sound here (.inl rfl)
  | clearHolder here => exact sound_assign sound (.inr ⟨here, rfl, rfl⟩)
  | wait here => exact sound_release sound here (.inr rfl)
  | awake here free => exact sound_acquire sound free (.inr rfl)

/-! ## Where it is kept -/

/-- What a wait relies on to find the record again. -/
def Slept (ids : ThreadIds ι) (s : Mutex ι) : Prop :=
  ∀ i, s.place i = .waiting → s.assigned i = false → s.holder = ids.tid i

structure Kept (ids : ThreadIds ι) (s : Mutex ι) : Prop where
  record : ∀ i, s.place i = .holding → s.holder = ids.tid i
  slept : s.Slept ids

theorem slept_acquire (kept : s.Kept ids) (awake : next ≠ .waiting)
    (sleeps : (s.acquire i next).place j = .waiting) (untouched : s.assigned j = false) :
    (s.acquire i next).holder = ids.tid j := kept.slept j (old_of_update sleeps awake).2 untouched

theorem slept_release (kept : s.Kept ids) (here : s.place i = .holding)
    (sleeps : (s.release i next).place j = .waiting)
    (untouched : (s.release i next).assigned j = false) :
    (s.release i next).holder = ids.tid j := by
  simp only [release] at sleeps untouched ⊢
  rcases place_update s i j next with ⟨rfl, -⟩ | ⟨other, there⟩
  · -- the one that begins to wait is the one recorded
    exact kept.record j here
  · rw [Function.update_of_ne other] at untouched
    exact kept.slept j (there ▸ sleeps) untouched

/-- While every holder is recorded, so is whoever sleeps over an untouched record. -/
theorem slept_step (kept : s.Kept ids) (step : Step ids s e s') : s'.Slept ids := by
  intro j sleeps untouched
  cases step with
  | lock here => exact slept_acquire kept nofun sleeps untouched
  | setHolder here => cases untouched
  | unlock here => exact slept_release kept here sleeps untouched
  | clearHolder here => cases untouched
  | wait here => exact slept_release kept here sleeps untouched
  | awake here => exact slept_acquire kept nofun sleeps untouched

/-- The acting thread is recorded if it now holds the mutex, and the others as before. -/
theorem record_update (kept : s.Kept ids) (holds : Function.update s.place i next j = .holding)
    (own : next = .holding → s.holder = ids.tid i) : s.holder = ids.tid j := by
  rcases place_update s i j next with ⟨rfl, there⟩ | ⟨-, there⟩
  · exact own (there ▸ holds)
  · exact kept.record j (there ▸ holds)

/-- An assignment while nobody else holds the mutex. -/
theorem record_assign (others : ∀ j, s.place j = .holding → j = i)
    (holds : Function.update s.place i next j = .holding)
    (own : next = .holding → value = ids.tid i) : value = ids.tid j := by
  rcases place_update s i j next with ⟨rfl, there⟩ | ⟨other, there⟩
  · exact own (there ▸ holds)
  · exact absurd (others j (there ▸ holds)) other

theorem kept_step (sound : s.Sound ids) (kept : s.Kept ids) (free : ¬ s.Overtaken e)
    (step : Step ids s e s') : s'.Kept ids := by
  refine ⟨fun j holds => ?_, slept_step kept step⟩
  cases step with
  | lock here => exact record_update (s := s) kept holds nofun
  | setHolder here =>
      exact record_assign (s := s) (fun k => sound.alone (.inl here)) holds fun _ => rfl
  | unlock here => exact record_update (s := s) kept holds nofun
  | clearHolder here =>
      exact record_assign (s := s) (fun k held => absurd ⟨k, held⟩ free) holds nofun
  | wait here => exact record_update (s := s) kept holds nofun
  | awake here =>
      have untouched := Bool.eq_false_of_not_eq_true free
      exact record_update (s := s) kept holds fun _ => kept.slept _ here untouched

/-- A record that was overtaken is not the holder's. -/
theorem broken_step (sound : s.Sound ids) (overtaken : s.Overtaken e)
    (step : Step ids s e s') : ¬ s'.Kept ids := by
  intro kept
  cases step with
  | lock here => exact overtaken
  | setHolder here => exact overtaken
  | unlock here => exact overtaken
  | @clearHolder i here =>
      obtain ⟨j, holds⟩ := overtaken
      have still : (s.assign i 0 .outside).place j = .holding := by
        simp only [assign]
        rcases place_update s i j .outside with ⟨rfl, -⟩ | ⟨-, there⟩
        · exact Place.noConfusion (holds.symm.trans here)
        · exact there.trans holds
      exact (ids.positive j).ne (kept.record j still)
  | wait here => exact overtaken
  | awake here =>
      exact sound.asleep _ here overtaken (kept.record _ (Function.update_self ..))

/-- Once every thread is outside, in any run, the assertions of the destructor hold. -/
theorem destroyed_ok {trace : List (Mutex ι × Event ι)} {t : Mutex ι}
    (run : Run (Step ids) constructed trace t) (out : ∀ i, t.place i = .outside) :
    t.destroyed = .ok () := by
  have sound : t.Sound ids := run.invariant_last (fun _ _ _ => sound_step) (sound_constructed ids)
  have cleared : throwIf (t.holder ≠ 0) .assertion = .ok () := by
    refine throwIf_ok_iff.mpr (not_not.mpr ?_)
    rcases sound.recorded with zero | ⟨i, own⟩
    · exact zero
    · exact absurd own (sound.absent i (out i))
  have free : throwIf (t.mutex.isSome = true) .assertion = .ok () := by
    refine throwIf_ok_iff.mpr fun taken => ?_
    obtain ⟨i, has⟩ := Option.isSome_iff_exists.mp taken
    rcases (sound.owner i).mp has with locked | holds
    · exact Place.noConfusion (locked.symm.trans (out i))
    · exact Place.noConfusion (holds.symm.trans (out i))
  simp only [destroyed, cleared]
  exact free

/-- **The record is truthful throughout exactly the runs in which no `unlock()` clears it
while another thread holds the mutex, and no wait returns after it was assigned.** -/
theorem truthful_iff {trace : List (Mutex ι × Event ι)} {t : Mutex ι}
    (run : Run (Step ids) constructed trace t) :
    Run.Throughout (Truthful ids) trace t ↔ ∀ p ∈ trace, ¬ p.1.Overtaken p.2 := by
  have start : constructed.Kept ids := ⟨nofun, nofun⟩
  have sound : Run.Throughout (Sound ids) trace t :=
    run.invariant (fun _ _ _ => sound_step) (sound_constructed ids)
  have exactly : Run.Throughout (Kept ids) trace t ↔ ∀ p ∈ trace, ¬ p.1.Overtaken p.2 :=
    run.invariant_iff (C := fun s e => ¬ s.Overtaken e) (fun _ _ _ => sound_step)
      (fun _ _ _ => kept_step)
      (fun _ _ _ inv _ overtaken => broken_step inv (Classical.not_not.mp overtaken))
      (sound_constructed ids) start
  rw [← exactly]
  constructor
  · intro truthful
    have slept : Run.Throughout (Slept ids) trace t :=
      run.invariant_while (C := fun s _ => s.Truthful ids)
        (fun _ _ _ slept truthful step => slept_step ⟨truthful.record, slept⟩ step)
        start.slept truthful.1
    exact ⟨fun p hp => ⟨(truthful.1 p hp).record, slept.1 p hp⟩, truthful.2.record, slept.2⟩
  · intro kept
    exact ⟨fun p hp => truthful_of_record (sound.1 p hp) (kept.1 p hp).record,
      truthful_of_record sound.2 kept.2.record⟩

end Steps

/-! ### Two threads -/

def numbered : ThreadIds Nat where
  tid := fun i => i + 1
  positive := by omega
  distinct := by
    intro i j same
    simp only at same
    omega

/-- A thread waits and wakes up by itself. The other one gets the mutex behind it, and
assigns the record behind the clearing. -/
theorem truthful_turns : ∃ (trace : List (Mutex Nat × Event Nat)) (t : Mutex Nat),
    Run (Step numbered) constructed trace t ∧ trace.length = 8 ∧ t.mutex = some 1 ∧
    Run.Throughout (Truthful numbered) trace t := by
  have run : ∃ (trace : List (Mutex Nat × Event Nat)) (t : Mutex Nat),
      Run (Step numbered) constructed trace t ∧ trace.length = 8 ∧ t.mutex = some 1 ∧
      ∀ p ∈ trace, ¬ p.1.Overtaken p.2 := by
    refine ⟨_, _, .cons (.lock (i := 0) rfl rfl) <| .cons (.setHolder (i := 0) rfl) <|
      .cons (.wait (i := 0) rfl) <| .cons (.awake (i := 0) rfl rfl) <|
      .cons (.unlock (i := 0) rfl) <| .cons (.lock (i := 1) rfl rfl) <|
      .cons (.clearHolder (i := 0) rfl) <| .cons (.setHolder (i := 1) rfl) <| .nil _,
      rfl, rfl, ?_⟩
    simp only [List.forall_mem_cons, Overtaken, not_false_eq_true, true_and]
    refine ⟨by decide, ?_, fun _ hp => absurd hp List.not_mem_nil⟩
    rintro ⟨j, holds⟩
    simp only [acquire, release, assign, constructed, Function.update_apply] at holds
    split_ifs at holds
  obtain ⟨trace, t, run, length, has, never⟩ := run
  exact ⟨trace, t, run, length, has, (truthful_iff run).mpr never⟩

/-- The clearing of an `unlock()` behind the next `lock()`, and a wait that ends behind
another thread's turn: the holder is not recorded, and its assertion fails. -/
theorem holder_not_recorded :
    (∃ (trace : List (Mutex Nat × Event Nat)) (t : Mutex Nat),
      Run (Step numbered) constructed trace t ∧
      trace.map Prod.snd =
        [.lock 0, .setHolder 0, .unlock 0, .lock 1, .setHolder 1, .clearHolder 0] ∧
      t.mutex = some 1 ∧ t.place 1 = .holding ∧ t.holder = 0 ∧
      t.isLockbyThisThread numbered 1 = false ∧
      t.assertLocked numbered 1 = .error .assertion ∧ ¬ t.Truthful numbered) ∧
    ∃ (trace : List (Mutex Nat × Event Nat)) (t : Mutex Nat),
      Run (Step numbered) constructed trace t ∧
      trace.map Prod.snd =
        [.lock 0, .setHolder 0, .wait 0, .lock 1, .setHolder 1, .unlock 1, .clearHolder 1,
          .awake 0] ∧
      t.mutex = some 0 ∧ t.place 0 = .holding ∧ t.holder = 0 ∧
      t.isLockbyThisThread numbered 0 = false ∧
      t.assertLocked numbered 0 = .error .assertion ∧ ¬ t.Truthful numbered := by
  constructor
  · refine ⟨_, _, .cons (.lock (i := 0) rfl rfl) <| .cons (.setHolder (i := 0) rfl) <|
      .cons (.unlock (i := 0) rfl) <| .cons (.lock (i := 1) rfl rfl) <|
      .cons (.setHolder (i := 1) rfl) <| .cons (.clearHolder (i := 0) rfl) <| .nil _,
      rfl, rfl, rfl, rfl, rfl, rfl, ?_⟩
    intro truthful
    have own := truthful.record 1 rfl
    cases own
  · refine ⟨_, _, .cons (.lock (i := 0) rfl rfl) <| .cons (.setHolder (i := 0) rfl) <|
      .cons (.wait (i := 0) rfl) <| .cons (.lock (i := 1) rfl rfl) <|
      .cons (.setHolder (i := 1) rfl) <| .cons (.unlock (i := 1) rfl) <|
      .cons (.clearHolder (i := 1) rfl) <| .cons (.awake (i := 0) rfl rfl) <| .nil _,
      rfl, rfl, rfl, rfl, rfl, rfl, ?_⟩
    intro truthful
    have own := truthful.record 0 rfl
    cases own

end Mutex

end LaliRpc.Base
