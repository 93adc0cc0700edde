/-
# Net.TimerQueue — the timers of a loop

A `TimerQueue` keeps its timers in a set ordered by expiration, and one timerfd that is
set for the earliest. When the timerfd is read, the timers that are due leave the set
(`getExpired`), their callbacks run, which may add further timers, and then `reset` puts
the repeating ones back, frees the others and sets the timerfd again.

`Books` is what holds of the set and the live timers, and `Armed` of the timerfd: it is
set for the earliest of them. When callbacks run is `Net.TimerHistory`.

Times are integers, in microseconds. A timer also carries the number of the call that
made it (`serial`) and how many times the queue had been read when it was last queued
(`since`), and the queue its readings so far.
-/
import LaliRpc.Theory.Index
import LaliRpc.Theory.Transition
import Mathlib.Data.List.Sort
import Mathlib.Data.List.TakeDrop

namespace LaliRpc.Net

open LaliRpc.Theory

set_option autoImplicit false

/-! ## The timerfd -/

structure Timespec where
  tv_sec : Int
  tv_nsec : Int
  deriving DecidableEq, Repr

def kMicroSecondsPerSecond : Int := 1000 * 1000

/-- The time left, `now` being what the clock says; never less than 100 µs. -/
def howMuchTimeFromNow (expiration now : Int) : Timespec :=
  let microseconds := if expiration - now < 100 then 100 else expiration - now
  ⟨microseconds.tdiv kMicroSecondsPerSecond, microseconds.tmod kMicroSecondsPerSecond * 1000⟩

/-- A timerfd: the expiration it is set for with its `it_value`, and whether it has fired
and not been read. -/
structure Timerfd where
  setting : Option (Int × Timespec)
  readable : Bool
  deriving DecidableEq, Repr

namespace Timerfd

/-- `timerfd_settime`: a malformed value is refused, and a zero disarms. -/
def settime (fd : Timerfd) (expiration : Int) (value : Timespec) : Timerfd :=
  if value.tv_sec < 0 ∨ value.tv_nsec < 0 ∨ 1000000000 ≤ value.tv_nsec then fd
  else if value = ⟨0, 0⟩ then ⟨none, false⟩
  else ⟨some (expiration, value), false⟩

/-- `::read`. -/
def read (fd : Timerfd) : Timerfd := { fd with readable := false }

/-- The timer expires. -/
def fire (_ : Timerfd) : Timerfd := ⟨none, true⟩

/-- Fired and not read, or set for this expiration. -/
def ArmedFor (fd : Timerfd) (expiration : Int) : Prop :=
  fd.readable = true ∨
    ∃ clock, fd.setting = some (expiration, howMuchTimeFromNow expiration clock)

end Timerfd

/-- The value is well formed and strictly positive. -/
structure Timespec.Positive (value : Timespec) : Prop where
  sec : 0 ≤ value.tv_sec
  nsec : 0 ≤ value.tv_nsec ∧ value.tv_nsec < 1000000000
  positive : 0 < value.tv_sec ∨ 0 < value.tv_nsec

theorem positive_howMuchTimeFromNow (expiration now : Int) :
    (howMuchTimeFromNow expiration now).Positive := by
  have least : ∃ m : Int, 100 ≤ m ∧ howMuchTimeFromNow expiration now =
      ⟨m / 1000000, m % 1000000 * 1000⟩ := by
    refine ⟨if expiration - now < 100 then 100 else expiration - now, by split <;> omega, ?_⟩
    have nonneg : 0 ≤ if expiration - now < 100 then 100 else expiration - now := by split <;> omega
    simp only [howMuchTimeFromNow, kMicroSecondsPerSecond]
    rw [Int.tdiv_eq_ediv_of_nonneg nonneg, Int.tmod_eq_emod_of_nonneg nonneg]
    rfl
  obtain ⟨m, least, eq⟩ := least
  rw [eq]
  refine ⟨?_, ?_, ?_⟩ <;> simp only <;> omega

/-- So `resetTimerfd` always arms. -/
theorem settime_howMuchTimeFromNow (fd : Timerfd) (expiration now : Int) :
    fd.settime expiration (howMuchTimeFromNow expiration now) =
      ⟨some (expiration, howMuchTimeFromNow expiration now), false⟩ := by
  obtain ⟨sec, nsec, positive⟩ := positive_howMuchTimeFromNow expiration now
  have nonzero : howMuchTimeFromNow expiration now ≠ ⟨0, 0⟩ := by
    intro zero
    rw [zero] at positive
    rcases positive with pos | pos <;> exact absurd pos (by decide)
  rw [Timerfd.settime, if_neg (by omega), if_neg nonzero]

/-! ## The queue -/

structure Timer (κ : Type) where
  callback : κ
  expiration : Int
  /-- the interval in microseconds -/
  interval : Nat
  repeats : Bool
  serial : Nat
  since : Nat

/-- `restart`, `reads` being the readings so far. -/
def Timer.restart {κ : Type} (t : Timer κ) (now : Int) (reads : Nat) : Timer κ :=
  { t with expiration := if t.repeats then now + t.interval else 0, since := reads }

/-- An expiration and the address of a timer. -/
abbrev Entry := Int × Nat

/-- `operator<` of `std::pair`. -/
def Entry.Less (e f : Entry) : Prop := e.1 < f.1 ∨ ¬ f.1 < e.1 ∧ e.2 < f.2

instance : DecidableRel Entry.Less := fun e f =>
  inferInstanceAs (Decidable (e.1 < f.1 ∨ ¬ f.1 < e.1 ∧ e.2 < f.2))

/-- The order of the set. -/
def Entry.Le (e f : Entry) : Prop := ¬ f.Less e

instance : DecidableRel Entry.Le := fun e f => inferInstanceAs (Decidable (¬ f.Less e))

def UINTPTR_MAX : Nat := 0xFFFFFFFFFFFFFFFF

/-- A `handleRead` in progress: when it began, the timers it took, and those whose
callbacks are still to be run. -/
structure Reading where
  now : Int
  expired : List Entry
  left : List Entry

structure TimerQueue (κ : Type) where
  /-- the set, in its order -/
  timers : List Entry
  /-- the timers that have not been freed -/
  heap : Nat → Option (Timer κ)
  timerfd : Timerfd
  reading : Option Reading
  /-- the clock readings of the calls of `handleRead` so far -/
  nows : List Int
  /-- the callbacks run so far, each with the number of the `handleRead` that ran it -/
  ran : List (Nat × Timer κ)
  /-- the calls of `addTimer` so far -/
  added : Nat

namespace TimerQueue

variable {κ : Type}

/-- `TimerQueue()`. -/
def fresh : TimerQueue κ := ⟨[], fun _ => none, ⟨none, false⟩, none, [], [], 0⟩

def resetTimerfd (q : TimerQueue κ) (expiration clock : Int) : TimerQueue κ :=
  { q with timerfd := q.timerfd.settime expiration (howMuchTimeFromNow expiration clock) }

/-- Whether a new timer becomes the earliest one. -/
def earliestChanged (q : TimerQueue κ) (expiration : Int) : Bool :=
  match q.timers with
  | [] => true
  | e :: _ => expiration < e.1

/-- `insert`, into a set that does not have the entry. -/
def insert (q : TimerQueue κ) (address : Nat) (t : Timer κ) : TimerQueue κ :=
  { q with
    timers := q.timers.orderedInsert Entry.Le (t.expiration, address)
    heap := Function.update q.heap address (some t) }

/-- `addTimer`, in the loop thread, where it calls `addTimerInLoop`. -/
def addTimer (q : TimerQueue κ) (address : Nat) (callback : κ) (expiration : Int) (interval : Nat)
    (repeats : Bool) (clock : Int) : TimerQueue κ :=
  let t : Timer κ := ⟨callback, expiration, interval, repeats, q.added, q.nows.length⟩
  let inserted := { q.insert address t with added := q.added + 1 }
  if q.earliestChanged expiration then inserted.resetTimerfd expiration clock else inserted

/-- `getExpired`: the entries before `lower_bound` of the sentry. -/
def getExpired (q : TimerQueue κ) (now : Int) : List Entry × List Entry :=
  q.timers.span fun e => e.Less (now, UINTPTR_MAX)

/-- `handleRead` up to the first callback. -/
def beginRead (q : TimerQueue κ) (now : Int) : TimerQueue κ :=
  { q with
    timers := (q.getExpired now).2
    timerfd := q.timerfd.read
    reading := some ⟨now, (q.getExpired now).1, (q.getExpired now).1⟩
    nows := q.nows ++ [now] }

/-- One pass of the loop of `reset`. -/
def resetOne (now : Int) (q : TimerQueue κ) (e : Entry) : TimerQueue κ :=
  match q.heap e.2 with
  | none => q
  | some t =>
      if t.repeats then q.insert e.2 (t.restart now q.nows.length)
      else { q with heap := Function.update q.heap e.2 none }

/-- The expiration of the first timer, 0 when there is none. -/
def nextExpire (q : TimerQueue κ) : Int :=
  match q.timers with
  | [] => 0
  | e :: _ =>
      match q.heap e.2 with
      | none => 0
      | some t => t.expiration

/-- `reset`, and the end of `handleRead`. -/
def reset (q : TimerQueue κ) (r : Reading) (clock : Int) : TimerQueue κ :=
  let q := { r.expired.foldl (resetOne r.now) q with reading := none }
  if 0 < q.nextExpire then q.resetTimerfd q.nextExpire clock else q

inductive Action (κ : Type) where
  | addTimer (callback : κ) (expiration : Int) (interval : Nat) (repeats : Bool)
  /-- the timerfd expires -/
  | fire
  | handleRead (now : Int)
  | runCallback
  | reset
  deriving DecidableEq

/-- What can happen next. Timers are added by other functors and handlers, or by a
running callback; a new timer gets an address that is not in use. -/
inductive Step : TimerQueue κ → Action κ → TimerQueue κ → Prop where
  | addTimer {q : TimerQueue κ} {callback : κ} {expiration : Int} {interval : Nat} {repeats : Bool}
      (address : Nat) (clock : Int) (free : q.heap address = none) (inside : address < UINTPTR_MAX)
      (user : ∀ r, q.reading = some r → r.left.length < r.expired.length) :
      Step q (.addTimer callback expiration interval repeats)
        (q.addTimer address callback expiration interval repeats clock)
  | fire {q : TimerQueue κ} (set : q.timerfd.setting.isSome) :
      Step q .fire { q with timerfd := q.timerfd.fire }
  | handleRead {q : TimerQueue κ} {now : Int} (idle : q.reading = none) (positive : 0 < now) :
      Step q (.handleRead now) (q.beginRead now)
  | runCallback {q : TimerQueue κ} {r : Reading} {e : Entry} {left : List Entry} {t : Timer κ}
      (busy : q.reading = some r) (next : r.left = e :: left) (live : q.heap e.2 = some t) :
      Step q .runCallback
        { q with reading := some { r with left := left }, ran := q.ran ++ [(q.nows.length - 1, t)] }
  | reset {q : TimerQueue κ} {r : Reading} (clock : Int) (busy : q.reading = some r)
      (done : r.left = []) : Step q .reset (q.reset r clock)

/-! ## The set and the heap -/

instance : Std.Total Entry.Le := ⟨fun e f => by
  simp only [Entry.Le, Entry.Less]
  omega⟩

instance : IsTrans Entry Entry.Le := ⟨fun e f g => by
  simp only [Entry.Le, Entry.Less]
  omega⟩

/-- The timers that a `handleRead` in progress has taken out of the set. -/
def batch (q : TimerQueue κ) : List Entry :=
  match q.reading with
  | none => []
  | some r => r.expired

/-- The set is in order, and its entries and those taken out are the live timers. -/
structure Books (q : TimerQueue κ) : Prop where
  sorted : q.timers.Pairwise Entry.Le
  index : Indexes Timer.expiration q.heap (q.timers ++ q.batch)
  inside : ∀ a t, q.heap a = some t → a < UINTPTR_MAX

variable {q q' : TimerQueue κ}

theorem books_fresh : (fresh : TimerQueue κ).Books :=
  ⟨.nil, ⟨nofun, nofun, List.nodup_nil⟩, nofun⟩

/-- What the sentry compares to is the expiration alone. -/
theorem less_sentry_iff {e : Entry} (inside : e.2 < UINTPTR_MAX) (now : Int) :
    e.Less (now, UINTPTR_MAX) ↔ e.1 ≤ now := by
  simp only [Entry.Less]
  omega

/-- `getExpired` takes exactly the timers that are due. -/
theorem getExpired_eq (books : q.Books) (now : Int) :
    q.getExpired now = (q.timers.filter (·.1 ≤ now), q.timers.filter (now < ·.1)) := by
  have sentry : ∀ e ∈ q.timers, e.Less (now, UINTPTR_MAX) ↔ e.1 ≤ now := fun e mem => by
    obtain ⟨t, live, -⟩ := books.index.found e (List.mem_append_left _ mem)
    exact less_sentry_iff (books.inside _ t live) now
  have down : ∀ e f : Entry, e.Le f → decide (f.Less (now, UINTPTR_MAX)) = true →
      decide (e.Less (now, UINTPTR_MAX)) = true := by
    intro e f le accepted
    have less := of_decide_eq_true accepted
    refine decide_eq_true ?_
    simp only [Entry.Le, Entry.Less] at le less ⊢
    omega
  rw [getExpired, List.span_eq_takeWhile_dropWhile, takeWhile_eq_filter books.sorted down,
    dropWhile_eq_filter books.sorted down]
  refine Prod.ext (List.filter_congr fun e mem => ?_) (List.filter_congr fun e mem => ?_)
  · simp only [sentry e mem]
  · simp only [sentry e mem, ← decide_not, Int.not_le]

/-- An inserted timer is one more entry. -/
theorem timers_insert (q : TimerQueue κ) (address : Nat) (t : Timer κ) (rest : List Entry) :
    ((t.expiration, address) :: (q.timers ++ rest)).Perm ((q.insert address t).timers ++ rest) :=
  ((List.perm_orderedInsert Entry.Le _ _).symm.append_right rest)

section Fields

variable (q : TimerQueue κ) (address : Nat) (callback : κ) (expiration : Int) (interval : Nat)
  (repeats : Bool) (clock : Int)

@[simp] theorem timers_addTimer :
    (q.addTimer address callback expiration interval repeats clock).timers =
      q.timers.orderedInsert Entry.Le (expiration, address) := by
  dsimp only [addTimer]
  split <;> rfl

@[simp] theorem heap_addTimer :
    (q.addTimer address callback expiration interval repeats clock).heap =
      Function.update q.heap address
        (some ⟨callback, expiration, interval, repeats, q.added, q.nows.length⟩) := by
  dsimp only [addTimer]
  split <;> rfl

@[simp] theorem reading_addTimer :
    (q.addTimer address callback expiration interval repeats clock).reading = q.reading := by
  dsimp only [addTimer]
  split <;> rfl

@[simp] theorem nows_addTimer :
    (q.addTimer address callback expiration interval repeats clock).nows = q.nows := by
  dsimp only [addTimer]
  split <;> rfl

@[simp] theorem ran_addTimer :
    (q.addTimer address callback expiration interval repeats clock).ran = q.ran := by
  dsimp only [addTimer]
  split <;> rfl

@[simp] theorem added_addTimer :
    (q.addTimer address callback expiration interval repeats clock).added = q.added + 1 := by
  dsimp only [addTimer]
  split <;> rfl

end Fields

theorem books_addTimer (books : q.Books) {address : Nat} (free : q.heap address = none)
    (inside : address < UINTPTR_MAX) (callback : κ) (expiration : Int) (interval : Nat)
    (repeats : Bool) (clock : Int) :
    (q.addTimer address callback expiration interval repeats clock).Books := by
  refine ⟨?_, ?_, fun a t live => ?_⟩
  · rw [timers_addTimer]
    exact books.sorted.orderedInsert _ _
  · rw [timers_addTimer, heap_addTimer, batch, reading_addTimer]
    exact (books.index.add free _).perm (timers_insert q address _ _)
  · rw [heap_addTimer] at live
    by_cases same : a = address
    · exact same ▸ inside
    · rw [Function.update_of_ne same] at live
      exact books.inside a t live

theorem books_beginRead (books : q.Books) (idle : q.reading = none) (now : Int) :
    (q.beginRead now).Books := by
  have split : ((q.getExpired now).2 ++ (q.getExpired now).1).Perm (q.timers ++ q.batch) := by
    have whole := List.takeWhile_append_dropWhile (p := fun e : Entry => decide (e.Less (now, UINTPTR_MAX)))
      (l := q.timers)
    rw [getExpired, List.span_eq_takeWhile_dropWhile, batch, idle, List.append_nil]
    exact List.perm_append_comm.trans (List.Perm.of_eq whole)
  refine ⟨?_, books.index.perm split.symm, books.inside⟩
  show (q.getExpired now).2.Pairwise Entry.Le
  rw [getExpired_eq books]
  exact books.sorted.filter _

/-! ### The loop of `reset` -/

/-- What the loop makes of a timer. -/
def settle (now : Int) (reads : Nat) (t : Timer κ) : Option (Timer κ) :=
  if t.repeats then some (t.restart now reads) else none

theorem resetOne_eq {e : Entry} {t : Timer κ} (live : q.heap e.2 = some t) (now : Int) :
    q.resetOne now e = if t.repeats then q.insert e.2 (t.restart now q.nows.length)
      else { q with heap := Function.update q.heap e.2 none } := by
  simp only [resetOne, live]

/-- One pass moves an entry from the batch back into the set, or out of the heap. -/
theorem books_resetOne {e : Entry} {rest : List Entry} (sorted : q.timers.Pairwise Entry.Le)
    (index : Indexes Timer.expiration q.heap (q.timers ++ e :: rest)) (now : Int) :
    (q.resetOne now e).timers.Pairwise Entry.Le ∧
      Indexes Timer.expiration (q.resetOne now e).heap ((q.resetOne now e).timers ++ rest) ∧
      ∀ a, (q.resetOne now e).heap a =
        if a = e.2 then (q.heap a).bind (settle now q.nows.length) else q.heap a := by
  have front := index.perm List.perm_middle
  obtain ⟨t, live, -⟩ := index.found e (List.mem_append_right _ List.mem_cons_self)
  rw [resetOne_eq live]
  by_cases again : t.repeats = true
  · rw [if_pos again]
    refine ⟨sorted.orderedInsert _ _, ?_, fun a => ?_⟩
    · exact (front.change (t.restart now q.nows.length)).perm (timers_insert q e.2 _ rest)
    · by_cases same : a = e.2
      · subst same
        simp [insert, live, settle, again]
      · simp [insert, same]
  · rw [if_neg again]
    refine ⟨sorted, front.remove, fun a => ?_⟩
    by_cases same : a = e.2
    · subst same
      simp [live, settle, again]
    · simp [same]

/-- The fields that the loop does not touch. -/
theorem resetOne_frame (q : TimerQueue κ) (now : Int) (e : Entry) :
    (q.resetOne now e).nows = q.nows ∧ (q.resetOne now e).ran = q.ran ∧
      (q.resetOne now e).added = q.added ∧ (q.resetOne now e).timerfd = q.timerfd := by
  unfold resetOne
  split
  · exact ⟨rfl, rfl, rfl, rfl⟩
  · split <;> exact ⟨rfl, rfl, rfl, rfl⟩

theorem resetAll_frame (expired : List Entry) (q : TimerQueue κ) (now : Int) :
    (expired.foldl (resetOne now) q).nows = q.nows ∧ (expired.foldl (resetOne now) q).ran = q.ran ∧
      (expired.foldl (resetOne now) q).added = q.added ∧
      (expired.foldl (resetOne now) q).timerfd = q.timerfd := by
  induction expired generalizing q with
  | nil => exact ⟨rfl, rfl, rfl, rfl⟩
  | cons e expired ih =>
      obtain ⟨nows, ran, added, timerfd⟩ := ih (q.resetOne now e)
      obtain ⟨nows', ran', added', timerfd'⟩ := q.resetOne_frame now e
      exact ⟨nows.trans nows', ran.trans ran', added.trans added', timerfd.trans timerfd'⟩

/-- **The loop settles every timer of the batch and no other.** -/
theorem books_resetAll {expired : List Entry} (sorted : q.timers.Pairwise Entry.Le)
    (index : Indexes Timer.expiration q.heap (q.timers ++ expired)) (now : Int) :
    (expired.foldl (resetOne now) q).timers.Pairwise Entry.Le ∧
      Indexes Timer.expiration (expired.foldl (resetOne now) q).heap
        (expired.foldl (resetOne now) q).timers ∧
      ∀ a, (expired.foldl (resetOne now) q).heap a =
        if a ∈ expired.map Prod.snd then (q.heap a).bind (settle now q.nows.length)
        else q.heap a := by
  induction expired generalizing q with
  | nil =>
      rw [List.append_nil] at index
      exact ⟨sorted, index, fun a => (if_neg List.not_mem_nil).symm⟩
  | cons e expired ih =>
      obtain ⟨sorted', index', heap'⟩ := books_resetOne sorted index now
      obtain ⟨sorted'', index'', heap''⟩ := ih sorted' index'
      refine ⟨sorted'', index'', fun a => ?_⟩
      have distinct := index.distinct
      rw [List.map_append, List.map_cons, List.nodup_append] at distinct
      have once := (List.nodup_cons.mp distinct.2.1).1
      rw [List.foldl_cons, heap'', heap', (q.resetOne_frame now e).1, List.map_cons]
      by_cases same : a = e.2
      · subst same
        rw [if_neg once, if_pos rfl, if_pos List.mem_cons_self]
      · simp only [List.mem_cons, same, false_or, if_false]

/-! ### Every step -/

/-- The queue behind `reset`, less its timerfd. -/
theorem reset_eq (q : TimerQueue κ) (r : Reading) (clock : Int) :
    ∃ timerfd, q.reset r clock =
      { r.expired.foldl (resetOne r.now) q with reading := none, timerfd := timerfd } := by
  dsimp only [reset]
  split
  · exact ⟨_, rfl⟩
  · exact ⟨_, rfl⟩

section Fields

variable (q : TimerQueue κ) (r : Reading) (clock : Int)

@[simp] theorem reading_reset : (q.reset r clock).reading = none := by
  obtain ⟨timerfd, eq⟩ := q.reset_eq r clock
  rw [eq]

@[simp] theorem nows_reset : (q.reset r clock).nows = q.nows := by
  obtain ⟨timerfd, eq⟩ := q.reset_eq r clock
  rw [eq]
  exact (resetAll_frame r.expired q r.now).1

@[simp] theorem ran_reset : (q.reset r clock).ran = q.ran := by
  obtain ⟨timerfd, eq⟩ := q.reset_eq r clock
  rw [eq]
  exact (resetAll_frame r.expired q r.now).2.1

@[simp] theorem added_reset : (q.reset r clock).added = q.added := by
  obtain ⟨timerfd, eq⟩ := q.reset_eq r clock
  rw [eq]
  exact (resetAll_frame r.expired q r.now).2.2.1

end Fields

theorem batch_eq {r : Reading} (busy : q.reading = some r) : q.batch = r.expired := by
  simp only [batch, busy]

theorem books_reset (books : q.Books) {r : Reading} (busy : q.reading = some r) (clock : Int) :
    (q.reset r clock).Books ∧ ∀ a, (q.reset r clock).heap a =
      if a ∈ r.expired.map Prod.snd then (q.heap a).bind (settle r.now q.nows.length)
      else q.heap a := by
  have index := books.index
  rw [batch_eq busy] at index
  obtain ⟨sorted, index, heap⟩ := books_resetAll books.sorted index r.now
  obtain ⟨timerfd, eq⟩ := q.reset_eq r clock
  rw [eq]
  refine ⟨⟨sorted, ?_, fun a t live => ?_⟩, heap⟩
  · show Indexes _ _ (_ ++ [])
    rw [List.append_nil]
    exact index
  · have live' := (heap a).symm.trans live
    split at live'
    · obtain ⟨u, old, -⟩ := Option.bind_eq_some_iff.mp live'
      exact books.inside a u old
    · exact books.inside a t live'

/-- **Every step keeps the books.** -/
theorem books_step {a : Action κ} (books : q.Books) (step : q.Step a q') : q'.Books := by
  cases step with
  | addTimer address clock free inside user => exact books_addTimer books free inside _ _ _ _ clock
  | fire set => exact ⟨books.sorted, books.index, books.inside⟩
  | handleRead idle positive => exact books_beginRead books idle _
  | runCallback busy next live =>
      refine ⟨books.sorted, ?_, books.inside⟩
      have index := books.index
      rw [batch_eq busy] at index
      exact index
  | reset clock busy done => exact (books_reset books busy clock).1

/-! ## The timerfd is set for the earliest timer -/

/-- The expiration of an earliest timer. -/
def Earliest (q : TimerQueue κ) (expiration : Int) : Prop :=
  expiration ∈ q.timers.map Prod.fst ∧ ∀ e ∈ q.timers, expiration ≤ e.1

/-- While callbacks run, only a timer that `reset` would not set the timerfd for needs to
have it set. -/
structure Armed (q : TimerQueue κ) : Prop where
  positive : ∀ r, q.reading = some r → 0 < r.now
  set : ∀ expiration, q.Earliest expiration → q.reading = none ∨ expiration ≤ 0 →
    q.timerfd.ArmedFor expiration

theorem armed_fresh : (fresh : TimerQueue κ).Armed :=
  ⟨nofun, fun _ earliest => absurd earliest.1 List.not_mem_nil⟩

theorem armedFor_settime (fd : Timerfd) (expiration clock : Int) :
    (fd.settime expiration (howMuchTimeFromNow expiration clock)).ArmedFor expiration :=
  .inr ⟨clock, by rw [settime_howMuchTimeFromNow]⟩

/-- The first of an ordered set is an earliest. -/
theorem first_le {e : Entry} {rest : List Entry} (sorted : (e :: rest).Pairwise Entry.Le) :
    ∀ f ∈ e :: rest, e.1 ≤ f.1 := by
  intro f mem
  rcases List.mem_cons.mp mem with rfl | later
  · exact Int.le_refl _
  · have le := (List.pairwise_cons.mp sorted).1 f later
    simp only [Entry.Le, Entry.Less] at le
    omega

theorem earliestChanged_iff (sorted : q.timers.Pairwise Entry.Le) (expiration : Int) :
    q.earliestChanged expiration = true ↔ ∀ e ∈ q.timers, expiration < e.1 := by
  unfold earliestChanged
  split
  · rename_i none
    simp [none]
  · rename_i e rest first
    rw [first] at sorted ⊢
    rw [decide_eq_true_iff]
    exact ⟨fun lt f mem => Int.lt_of_lt_of_le lt (first_le sorted f mem),
      fun all => all e List.mem_cons_self⟩

theorem armed_addTimer (books : q.Books) (armed : q.Armed) (address : Nat) (callback : κ)
    (expiration : Int) (interval : Nat) (repeats : Bool) (clock : Int) :
    (q.addTimer address callback expiration interval repeats clock).Armed := by
  have members : ∀ e, e ∈ q.timers.orderedInsert Entry.Le (expiration, address) ↔
      e = (expiration, address) ∨ e ∈ q.timers := fun e => List.mem_orderedInsert Entry.Le
  unfold addTimer
  dsimp only
  split
  · rename_i changed
    have all := (earliestChanged_iff books.sorted expiration).mp changed
    refine ⟨armed.positive, fun w earliest _ => ?_⟩
    obtain ⟨mem, least⟩ := earliest
    obtain ⟨e, inside, rfl⟩ := List.mem_map.mp mem
    have le := least _ ((members _).mpr (.inl rfl))
    have new : e.1 = expiration := by
      rcases (members e).mp inside with rfl | old
      · rfl
      · have := all e old
        dsimp only at le
        omega
    rw [new]
    exact armedFor_settime _ _ _
  · rename_i unchanged
    obtain ⟨f, old, le⟩ : ∃ f ∈ q.timers, f.1 ≤ expiration := by
      by_contra none
      exact unchanged ((earliestChanged_iff books.sorted expiration).mpr fun e mem =>
        Int.not_le.mp fun le => none ⟨e, mem, le⟩)
    refine ⟨armed.positive, fun w earliest when_ => armed.set w ⟨?_, fun e mem =>
      earliest.2 e ((members e).mpr (.inr mem))⟩ when_⟩
    obtain ⟨e, mem, rfl⟩ := List.mem_map.mp earliest.1
    rcases (members e).mp mem with rfl | old'
    · have least := earliest.2 f ((members f).mpr (.inr old))
      exact List.mem_map.mpr ⟨f, old, Int.le_antisymm le least⟩
    · exact List.mem_map_of_mem old'

/-- The loop of `reset` adds timers in the future only, and takes none. -/
theorem mem_resetAll {now : Int} (positive : 0 < now) (expired : List Entry) (q : TimerQueue κ) :
    (∀ e ∈ q.timers, e ∈ (expired.foldl (resetOne now) q).timers) ∧
      ∀ e ∈ (expired.foldl (resetOne now) q).timers, e ∈ q.timers ∨ 0 < e.1 := by
  induction expired generalizing q with
  | nil => exact ⟨fun e mem => mem, fun e mem => .inl mem⟩
  | cons f expired ih =>
      obtain ⟨keeps, adds⟩ := ih (q.resetOne now f)
      have one : (∀ e ∈ q.timers, e ∈ (q.resetOne now f).timers) ∧
          ∀ e ∈ (q.resetOne now f).timers, e ∈ q.timers ∨ 0 < e.1 := by
        unfold resetOne
        split
        · exact ⟨fun e mem => mem, fun e mem => .inl mem⟩
        · rename_i t live
          split
          · rename_i again
            refine ⟨fun e mem => (List.mem_orderedInsert Entry.Le).mpr (.inr mem), fun e mem => ?_⟩
            rcases (List.mem_orderedInsert Entry.Le).mp mem with rfl | old
            · refine .inr ?_
              simp only [Timer.restart, if_pos again]
              omega
            · exact .inl old
          · exact ⟨fun e mem => mem, fun e mem => .inl mem⟩
      refine ⟨fun e mem => keeps e (one.1 e mem), fun e mem => ?_⟩
      rcases adds e mem with old | future
      · exact one.2 e old
      · exact .inr future

theorem nextExpire_eq {e : Entry} {rest : List Entry} (first : q.timers = e :: rest)
    (found : ∃ t, q.heap e.2 = some t ∧ t.expiration = e.1) : q.nextExpire = e.1 := by
  obtain ⟨t, live, key⟩ := found
  simp only [nextExpire, first, live, key]

theorem earliest_of_first {e : Entry} {rest : List Entry} (sorted : q.timers.Pairwise Entry.Le)
    (first : q.timers = e :: rest) {expiration : Int} (earliest : q.Earliest expiration) :
    expiration = e.1 := by
  obtain ⟨mem, least⟩ := earliest
  obtain ⟨f, inside, rfl⟩ := List.mem_map.mp mem
  rw [first] at sorted inside least
  exact Int.le_antisymm (least e List.mem_cons_self) (first_le sorted f inside)

/-- `reset` sets the timerfd, unless a callback had to. -/
theorem armed_reset (books : q.Books) (armed : q.Armed) {r : Reading} (busy : q.reading = some r)
    (clock : Int) : (q.reset r clock).Armed := by
  have index := books.index
  rw [batch_eq busy] at index
  obtain ⟨sorted, index, -⟩ := books_resetAll books.sorted index r.now
  obtain ⟨keeps, adds⟩ := mem_resetAll (armed.positive r busy) r.expired q
  cases first : (r.expired.foldl (resetOne r.now) q).timers with
  | nil =>
      obtain ⟨timerfd, eq⟩ := q.reset_eq r clock
      refine ⟨by rw [eq]; nofun, fun expiration earliest => ?_⟩
      have mem := earliest.1
      rw [eq] at mem
      rw [first] at mem
      cases mem
  | cons e rest =>
      have least : ∀ f ∈ (r.expired.foldl (resetOne r.now) q).timers, e.1 ≤ f.1 := by
        rw [first] at sorted ⊢
        exact first_le sorted
      have here : e ∈ (r.expired.foldl (resetOne r.now) q).timers := first ▸ List.mem_cons_self
      have next : nextExpire { r.expired.foldl (resetOne r.now) q with reading := none } = e.1 :=
        nextExpire_eq first (index.found e here)
      simp only [reset, next]
      split
      · refine ⟨nofun, fun expiration earliest _ => ?_⟩
        rw [earliest_of_first sorted first earliest]
        exact armedFor_settime _ _ _
      · rename_i invalid
        have old : e ∈ q.timers := (adds e here).resolve_right invalid
        refine ⟨nofun, fun expiration earliest _ => ?_⟩
        rw [earliest_of_first sorted first earliest]
        have set := armed.set e.1 ⟨List.mem_map_of_mem old, fun f mem => least f (keeps f mem)⟩
          (.inr (Int.not_lt.mp invalid))
        rw [← (resetAll_frame r.expired q r.now).2.2.2] at set
        exact set

/-- **Every step keeps the timerfd armed.** -/
theorem armed_step {a : Action κ} (books : q.Books) (armed : q.Armed) (step : q.Step a q') :
    q'.Armed := by
  cases step with
  | addTimer address clock free inside user => exact armed_addTimer books armed _ _ _ _ _ clock
  | fire set => exact ⟨armed.positive, fun _ _ _ => .inl rfl⟩
  | @handleRead now idle positive =>
      refine ⟨fun r busy => ?_, fun expiration earliest early => ?_⟩
      · rw [← Option.some.inj busy]
        exact positive
      · obtain ⟨e, mem, rfl⟩ := List.mem_map.mp earliest.1
        have later : e ∈ (q.getExpired now).2 := mem
        rw [getExpired_eq books, List.mem_filter, decide_eq_true_iff] at later
        have : e.1 ≤ 0 := early.resolve_left nofun
        omega
  | runCallback busy next live =>
      refine ⟨fun r' busy' => ?_, fun expiration earliest early => ?_⟩
      · have began := armed.positive _ busy
        rw [← Option.some.inj busy']
        exact began
      · exact armed.set expiration earliest (.inr (early.resolve_left nofun))
  | reset clock busy done => exact armed_reset books armed busy clock

end TimerQueue

end LaliRpc.Net
