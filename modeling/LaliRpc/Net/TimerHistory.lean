/-
# Net.TimerHistory — when the callbacks of timers run

A timer's callback runs in the first reading of the timerfd that reaches its expiration
(`History`), a one-shot timer's once (`Serials`), and one `handleRead` runs the
callbacks of all the timers that are due, in order (`handleRead_runs`). With the set and
the timerfd in order they make `timers_served`.
-/
import LaliRpc.Net.TimerQueue

namespace LaliRpc.Net

open LaliRpc.Theory

set_option autoImplicit false

namespace TimerQueue

variable {κ : Type} {q q' : TimerQueue κ}

/-! ## When callbacks run -/

/-- No reading since it was queued has reached the timer. -/
structure NotReached (nows : List Int) (t : Timer κ) : Prop where
  since : t.since ≤ nows.length
  later : ∀ (j : Nat) (now : Int), t.since ≤ j → nows[j]? = some now → now < t.expiration

/-- Reading `i` is the first that reaches the timer since it was queued. -/
structure FirstReached (nows : List Int) (t : Timer κ) (i : Nat) : Prop where
  since : t.since ≤ i
  reached : ∃ now, nows[i]? = some now ∧ t.expiration ≤ now
  later : ∀ (j : Nat) (now : Int), t.since ≤ j → j < i → nows[j]? = some now → now < t.expiration

section Reached

variable {nows : List Int} {t : Timer κ} {i : Nat} {x : Int}

theorem notReached_new (new : t.since = nows.length) : NotReached nows t := by
  refine ⟨Nat.le_of_eq new, fun j now since here => ?_⟩
  have inside := (List.getElem?_eq_some_iff.mp here).1
  omega

theorem FirstReached.lt (first : FirstReached nows t i) : i < nows.length := by
  obtain ⟨now, here, -⟩ := first.reached
  exact (List.getElem?_eq_some_iff.mp here).1

theorem FirstReached.snoc (first : FirstReached nows t i) (x : Int) :
    FirstReached (nows ++ [x]) t i := by
  have inside := first.lt
  obtain ⟨now, here, le⟩ := first.reached
  refine ⟨first.since, ⟨now, ?_, le⟩, fun j now' since before here' => ?_⟩
  · rw [List.getElem?_append_left inside]
    exact here
  · rw [List.getElem?_append_left (by omega)] at here'
    exact first.later j now' since before here'

theorem NotReached.snoc (ahead : NotReached nows t) (later : x < t.expiration) :
    NotReached (nows ++ [x]) t := by
  refine ⟨?_, fun j now since here => ?_⟩
  · rw [List.length_append]
    exact Nat.le_trans ahead.since (Nat.le_add_right _ _)
  · rcases Nat.lt_or_ge j nows.length with inside | outside
    · rw [List.getElem?_append_left inside] at here
      exact ahead.later j now since here
    · rw [List.getElem?_append_right outside] at here
      obtain rfl : x = now := List.mem_singleton.mp (List.mem_of_getElem? here) |>.symm
      exact later

theorem NotReached.reached (ahead : NotReached nows t) (now : t.expiration ≤ x) :
    FirstReached (nows ++ [x]) t nows.length := by
  refine ⟨ahead.since, ⟨x, by simp, now⟩, fun j now' since before here => ?_⟩
  rw [List.getElem?_append_left before] at here
  exact ahead.later j now' since here

end Reached

/-- A queued timer has not been reached, and a callback runs when its timer is. -/
structure History (q : TimerQueue κ) : Prop where
  queued : ∀ e ∈ q.timers, ∀ t, q.heap e.2 = some t → NotReached q.nows t
  taken : ∀ r, q.reading = some r → ∀ e ∈ r.expired, ∀ t, q.heap e.2 = some t →
    FirstReached q.nows t (q.nows.length - 1)
  ran : ∀ x ∈ q.ran, FirstReached q.nows x.2 x.1
  left : ∀ r, q.reading = some r → r.left <:+ r.expired

theorem history_fresh : (fresh : TimerQueue κ).History := ⟨nofun, nofun, nofun, nofun⟩

/-- An entry is not at a free address. -/
theorem live_ne_free (books : q.Books) {address : Nat} (free : q.heap address = none) {e : Entry}
    (mem : e ∈ q.timers ++ q.batch) : e.2 ≠ address := fun same =>
  books.index.notMem_of_free free (same ▸ List.mem_map_of_mem mem)

theorem history_addTimer (books : q.Books) (history : q.History) {address : Nat}
    (free : q.heap address = none) (callback : κ) (expiration : Int) (interval : Nat)
    (repeats : Bool) (clock : Int) :
    (q.addTimer address callback expiration interval repeats clock).History := by
  constructor
  · rw [timers_addTimer, heap_addTimer, nows_addTimer]
    intro e mem t live
    rcases (List.mem_orderedInsert Entry.Le).mp mem with rfl | old
    · rw [Function.update_self] at live
      rw [← Option.some.inj live]
      exact notReached_new rfl
    · rw [Function.update_of_ne (live_ne_free books free (List.mem_append_left _ old))] at live
      exact history.queued e old t live
  · rw [reading_addTimer, heap_addTimer, nows_addTimer]
    intro r busy e mem t live
    have old : e ∈ q.batch := (batch_eq busy).symm ▸ mem
    rw [Function.update_of_ne (live_ne_free books free (List.mem_append_right _ old))] at live
    exact history.taken r busy e mem t live
  · rw [ran_addTimer, nows_addTimer]
    exact history.ran
  · rw [reading_addTimer]
    exact history.left

theorem history_beginRead (books : q.Books) (history : q.History) (now : Int) :
    (q.beginRead now).History := by
  have split := getExpired_eq books now
  refine ⟨fun e mem t live => ?_, fun r busy e mem t live => ?_, fun x mem => ?_, fun r busy => ?_⟩
  · have later : e ∈ (q.getExpired now).2 := mem
    rw [split, List.mem_filter, decide_eq_true_iff] at later
    obtain ⟨u, live', key⟩ := books.index.found e (List.mem_append_left _ later.1)
    obtain rfl := Option.some.inj (live'.symm.trans live)
    exact (history.queued e later.1 u live').snoc (key ▸ later.2)
  · obtain rfl := Option.some.inj busy
    have due : e ∈ (q.getExpired now).1 := mem
    rw [split, List.mem_filter, decide_eq_true_iff] at due
    obtain ⟨u, live', key⟩ := books.index.found e (List.mem_append_left _ due.1)
    obtain rfl := Option.some.inj (live'.symm.trans live)
    have reached := (history.queued e due.1 u live').reached (key ▸ due.2)
    have last : (q.beginRead now).nows.length - 1 = q.nows.length := by simp [beginRead]
    rw [last]
    exact reached
  · exact (history.ran x mem).snoc now
  · obtain rfl := Option.some.inj busy
    exact List.suffix_rfl

theorem history_reset (books : q.Books) (history : q.History) {r : Reading}
    (busy : q.reading = some r) (clock : Int) : (q.reset r clock).History := by
  obtain ⟨-, heap⟩ := books_reset books busy clock
  constructor
  · intro e mem t live
    rw [nows_reset]
    rw [heap] at live
    split at live
    · obtain ⟨u, old, settled⟩ := Option.bind_eq_some_iff.mp live
      unfold settle at settled
      split at settled
      · obtain rfl := Option.some.inj settled
        exact notReached_new rfl
      · cases settled
    · rename_i outside
      have place := books.index.all e.2 t live
      rw [batch_eq busy] at place
      rcases List.mem_append.mp place with queued | taken
      · exact history.queued _ queued t live
      · exact absurd (List.mem_map_of_mem (f := Prod.snd) taken) outside
  · rw [reading_reset]
    nofun
  · rw [ran_reset, nows_reset]
    exact history.ran
  · rw [reading_reset]
    nofun

/-- **Every step keeps the history.** -/
theorem history_step {a : Action κ} (books : q.Books) (history : q.History) (step : q.Step a q') :
    q'.History := by
  cases step with
  | addTimer address clock free inside user => exact history_addTimer books history free _ _ _ _ clock
  | fire set => exact ⟨history.queued, history.taken, history.ran, history.left⟩
  | handleRead idle positive => exact history_beginRead books history _
  | @runCallback r e left t busy next live =>
      have suffix := history.left r busy
      rw [next] at suffix
      have mem : e ∈ r.expired := suffix.subset List.mem_cons_self
      refine ⟨history.queued, fun r' busy' => ?_, fun x mem' => ?_, fun r' busy' => ?_⟩
      · obtain rfl := Option.some.inj busy'
        exact history.taken r busy
      · rcases List.mem_append.mp mem' with old | new
        · exact history.ran x old
        · rw [List.mem_singleton.mp new]
          exact history.taken r busy e mem t live
      · obtain rfl := Option.some.inj busy'
        exact (List.suffix_cons e left).trans suffix
  | reset clock busy done => exact history_reset books history busy clock

/-! ## One-shot timers run once -/

/-- The timers by the calls that made them: a call's timer is live, or it was a one-shot
and has run, once. -/
structure Serials (q : TimerQueue κ) : Prop where
  fresh : ∀ a t, q.heap a = some t → t.serial < q.added
  ranFresh : ∀ x ∈ q.ran, x.2.serial < q.added
  distinct : ∀ a b t u, q.heap a = some t → q.heap b = some u → t.serial = u.serial → a = b
  once : ((q.ran.filter fun x => !x.2.repeats).map fun x => x.2.serial).Nodup
  /-- A one-shot that has run is about to be freed. -/
  gone : ∀ x ∈ q.ran, x.2.repeats = false → ∀ a t, q.heap a = some t →
    t.serial = x.2.serial → t.repeats = false ∧
      ∃ r, q.reading = some r ∧ (t.expiration, a) ∈ r.expired ∧ (t.expiration, a) ∉ r.left
  done : ∀ r, q.reading = some r → ∃ done, r.expired = done ++ r.left ∧
    ∀ e ∈ done, ∃ x ∈ q.ran, q.heap e.2 = some x.2
  kept : ∀ n < q.added, (∃ a t, q.heap a = some t ∧ t.serial = n) ∨
    ∃ x ∈ q.ran, x.2.serial = n ∧ x.2.repeats = false

theorem serials_fresh : (TimerQueue.fresh : TimerQueue κ).Serials :=
  ⟨nofun, nofun, nofun, List.nodup_nil, nofun, nofun, fun _ none => absurd none (Nat.not_lt_zero _)⟩

theorem serials_addTimer (books : q.Books) (serials : q.Serials) {address : Nat}
    (free : q.heap address = none) (callback : κ) (expiration : Int) (interval : Nat)
    (repeats : Bool) (clock : Int) :
    (q.addTimer address callback expiration interval repeats clock).Serials := by
  -- a live timer is the new one or an old one elsewhere
  have live : ∀ a t, (q.addTimer address callback expiration interval repeats clock).heap a = some t →
      a = address ∧ t.serial = q.added ∨ a ≠ address ∧ q.heap a = some t := by
    intro a t here
    rw [heap_addTimer] at here
    by_cases same : a = address
    · subst same
      rw [Function.update_self] at here
      exact .inl ⟨rfl, Option.some.inj here ▸ rfl⟩
    · rw [Function.update_of_ne same] at here
      exact .inr ⟨same, here⟩
  constructor
  case fresh =>
    intro a t here
    rw [added_addTimer]
    rcases live a t here with ⟨-, new⟩ | ⟨-, old⟩
    · omega
    · exact Nat.lt_succ_of_lt (serials.fresh a t old)
  case ranFresh =>
    rw [ran_addTimer, added_addTimer]
    exact fun x mem => Nat.lt_succ_of_lt (serials.ranFresh x mem)
  case distinct =>
    intro a b t u here there same
    rcases live a t here with ⟨rfl, new⟩ | ⟨-, old⟩ <;> rcases live b u there with ⟨rfl, new'⟩ | ⟨-, old'⟩
    · rfl
    · have := serials.fresh b u old'
      omega
    · have := serials.fresh a t old
      omega
    · exact serials.distinct a b t u old old' same
  case once =>
    rw [ran_addTimer]
    exact serials.once
  case gone =>
    rw [ran_addTimer, reading_addTimer]
    intro x mem oneShot a t here same
    rcases live a t here with ⟨-, new⟩ | ⟨-, old⟩
    · have := serials.ranFresh x mem
      omega
    · exact serials.gone x mem oneShot a t old same
  case done =>
    rw [ran_addTimer, reading_addTimer, heap_addTimer]
    intro r busy
    obtain ⟨done, split, run⟩ := serials.done r busy
    refine ⟨done, split, fun e mem => ?_⟩
    have taken : e ∈ q.batch := by
      rw [batch_eq busy, split]
      exact List.mem_append_left _ mem
    rw [Function.update_of_ne (live_ne_free books free (List.mem_append_right _ taken))]
    exact run e mem
  case kept =>
    rw [ran_addTimer, added_addTimer, heap_addTimer]
    intro n lt
    rcases Nat.lt_succ_iff_lt_or_eq.mp lt with old | rfl
    · rcases serials.kept n old with ⟨a, t, here, serial⟩ | run
      · have other : a ≠ address := fun same => by
          rw [same, free] at here
          cases here
        exact .inl ⟨a, t, (Function.update_of_ne other _ _).trans here, serial⟩
      · exact .inr run
    · exact .inl ⟨address, _, Function.update_self _ _ _, rfl⟩

theorem serials_runCallback (books : q.Books) (history : q.History) (serials : q.Serials)
    {r : Reading} {e : Entry} {left : List Entry} {t : Timer κ} (busy : q.reading = some r)
    (next : r.left = e :: left) (live : q.heap e.2 = some t) :
    Serials { q with reading := some { r with left := left },
                     ran := q.ran ++ [(q.nows.length - 1, t)] } := by
  have suffix := history.left r busy
  rw [next] at suffix
  have taken : e ∈ r.expired := suffix.subset List.mem_cons_self
  have batch := batch_eq busy
  have place : (t.expiration, e.2) = e := by
    obtain ⟨u, live', key⟩ := books.index.found e (List.mem_append_right _ (batch ▸ taken))
    obtain rfl := Option.some.inj (live.symm.trans live')
    exact Prod.ext key rfl
  have notLeft : e ∉ left := by
    have nodup := (books.index.nodup.sublist (List.sublist_append_right _ _))
    rw [batch] at nodup
    exact (List.nodup_cons.mp (nodup.sublist suffix.sublist)).1
  constructor
  case fresh =>
    exact serials.fresh
  case ranFresh =>
    intro x mem
    rcases List.mem_append.mp mem with old | new
    · exact serials.ranFresh x old
    · rw [List.mem_singleton.mp new]
      exact serials.fresh _ t live
  case distinct =>
    exact serials.distinct
  case once =>
    show (((q.ran ++ [(q.nows.length - 1, t)]).filter _).map _).Nodup
    rw [List.filter_append, List.map_append]
    refine List.nodup_append.mpr ⟨serials.once, ?_, fun a old b new same => ?_⟩
    · exact ((List.filter_sublist).map _).nodup (List.nodup_singleton _)
    · obtain ⟨x, mem, rfl⟩ := List.mem_map.mp old
      obtain ⟨y, mem', rfl⟩ := List.mem_map.mp new
      obtain ⟨mem, oneShot⟩ := List.mem_filter.mp mem
      obtain rfl := List.mem_singleton.mp (List.mem_filter.mp mem').1
      obtain ⟨-, r', busy', -, notLeft'⟩ :=
        serials.gone x mem (by simpa using oneShot) e.2 t live same.symm
      obtain rfl := Option.some.inj (busy.symm.trans busy')
      rw [place, next] at notLeft'
      exact notLeft' List.mem_cons_self
  case gone =>
    intro x mem oneShot a u here same
    rcases List.mem_append.mp mem with old | new
    · obtain ⟨single, r', busy', inside, outside⟩ := serials.gone x old oneShot a u here same
      obtain rfl := Option.some.inj (busy.symm.trans busy')
      rw [next, List.mem_cons, not_or] at outside
      exact ⟨single, _, rfl, inside, outside.2⟩
    · obtain rfl := List.mem_singleton.mp new
      obtain rfl := serials.distinct a e.2 u t here live same
      obtain rfl := Option.some.inj (here.symm.trans live)
      exact ⟨oneShot, _, rfl, place ▸ taken, place ▸ notLeft⟩
  case done =>
    intro r' busy'
    obtain rfl := Option.some.inj busy'
    obtain ⟨done, split, run⟩ := serials.done r busy
    refine ⟨done ++ [e], ?_, fun f mem => ?_⟩
    · show r.expired = done ++ [e] ++ left
      rw [split, next, List.append_assoc]
      rfl
    · rcases List.mem_append.mp mem with old | new
      · obtain ⟨x, mem, here⟩ := run f old
        exact ⟨x, List.mem_append_left _ mem, here⟩
      · rw [List.mem_singleton.mp new]
        exact ⟨_, List.mem_append_right _ (List.mem_singleton_self _), live⟩
  case kept =>
    intro n lt
    rcases serials.kept n lt with live' | ⟨x, mem, run⟩
    · exact .inl live'
    · exact .inr ⟨x, List.mem_append_left _ mem, run⟩

theorem settle_eq_some {now : Int} {reads : Nat} {t u : Timer κ}
    (settled : settle now reads t = some u) : t.repeats = true ∧ u = t.restart now reads := by
  unfold settle at settled
  split at settled
  · exact ⟨‹_›, (Option.some.inj settled).symm⟩
  · cases settled

theorem serials_reset (books : q.Books) (serials : q.Serials) {r : Reading}
    (busy : q.reading = some r) (through : r.left = []) (clock : Int) :
    (q.reset r clock).Serials := by
  obtain ⟨-, heap⟩ := books_reset books busy clock
  obtain ⟨done, split, run⟩ := serials.done r busy
  rw [through, List.append_nil] at split
  -- a live timer was there before, under the same serial, and is no one-shot of the batch
  have live : ∀ a t, (q.reset r clock).heap a = some t → ∃ u, q.heap a = some u ∧
      t.serial = u.serial ∧ (u.repeats = false → a ∉ r.expired.map Prod.snd) := by
    intro a t here
    rw [heap] at here
    split at here
    · obtain ⟨u, old, settled⟩ := Option.bind_eq_some_iff.mp here
      obtain ⟨again, rfl⟩ := settle_eq_some settled
      refine ⟨u, old, rfl, fun single => ?_⟩
      rw [single] at again
      cases again
    · exact ⟨t, here, rfl, fun _ => ‹_›⟩
  constructor
  case fresh =>
    intro a t here
    obtain ⟨u, old, same, -⟩ := live a t here
    rw [added_reset, same]
    exact serials.fresh a u old
  case ranFresh =>
    rw [ran_reset, added_reset]
    exact serials.ranFresh
  case distinct =>
    intro a b t u here there same
    obtain ⟨t', old, serial, -⟩ := live a t here
    obtain ⟨u', old', serial', -⟩ := live b u there
    exact serials.distinct a b t' u' old old' (by omega)
  case once =>
    rw [ran_reset]
    exact serials.once
  case gone =>
    rw [ran_reset]
    intro x mem oneShot a t here same
    obtain ⟨u, old, serial, outside⟩ := live a t here
    obtain ⟨single, r', busy', inside, -⟩ := serials.gone x mem oneShot a u old (by omega)
    obtain rfl := Option.some.inj (busy.symm.trans busy')
    exact absurd (List.mem_map_of_mem (f := Prod.snd) inside) (outside single)
  case done =>
    rw [reading_reset]
    nofun
  case kept =>
    rw [ran_reset, added_reset]
    intro n lt
    rcases serials.kept n lt with ⟨a, t, old, serial⟩ | ran
    · by_cases inside : a ∈ r.expired.map Prod.snd
      · by_cases again : t.repeats = true
        · refine .inl ⟨a, t.restart r.now q.nows.length, ?_, serial⟩
          rw [heap, if_pos inside, old]
          simp [settle, again]
        · -- a one-shot of the batch, whose callback has run
          obtain ⟨e, mem, rfl⟩ := List.mem_map.mp inside
          obtain ⟨x, ran, here⟩ := run e (split ▸ mem)
          obtain rfl := Option.some.inj (old.symm.trans here)
          exact .inr ⟨x, ran, serial, by simpa using again⟩
      · exact .inl ⟨a, t, by rw [heap, if_neg inside, old], serial⟩
    · exact .inr ran

/-- **Every step keeps count of the calls.** -/
theorem serials_step {a : Action κ} (books : q.Books) (history : q.History) (serials : q.Serials)
    (step : q.Step a q') : q'.Serials := by
  cases step with
  | addTimer address clock free inside user => exact serials_addTimer books serials free _ _ _ _ clock
  | fire set =>
      exact ⟨serials.fresh, serials.ranFresh, serials.distinct, serials.once, serials.gone,
        serials.done, serials.kept⟩
  | handleRead idle positive =>
      refine ⟨serials.fresh, serials.ranFresh, serials.distinct, serials.once,
        fun x mem oneShot a t here same => ?_, fun r busy => ?_, serials.kept⟩
      · obtain ⟨-, r, busy, -⟩ := serials.gone x mem oneShot a t here same
        rw [idle] at busy
        cases busy
      · obtain rfl := Option.some.inj busy
        exact ⟨[], rfl, nofun⟩
  | runCallback busy next live => exact serials_runCallback books history serials busy next live
  | reset clock busy done => exact serials_reset books serials busy done clock

/-! ## One `handleRead` -/

/-- The timers that are due, in the order of the set. -/
def due (q : TimerQueue κ) (now : Int) : List Entry := q.timers.filter (·.1 ≤ now)

/-- The callbacks of these timers, run by the `handleRead` that is next. -/
def runs (q : TimerQueue κ) (entries : List Entry) : List (Nat × Timer κ) :=
  entries.filterMap fun e => (q.heap e.2).map (q.nows.length, ·)

/-- How far a `handleRead` that began in `q` is. -/
structure Progress (q : TimerQueue κ) (now : Int) (s : TimerQueue κ) : Prop where
  reads : s.nows.length = q.nows.length + 1
  ran : ∃ done left, q.due now = done ++ left ∧ s.reading = some ⟨now, q.due now, left⟩ ∧
    s.ran = q.ran ++ q.runs done
  heap : ∀ e ∈ q.due now, s.heap e.2 = q.heap e.2

theorem progress_step {now : Int} {s s' : TimerQueue κ} {a : Action κ} (books : q.Books)
    (progress : Progress q now s) (step : s.Step a s') (notReset : a ≠ .reset) :
    Progress q now s' := by
  obtain ⟨reads, ⟨done, left, split, busy, ran⟩, heap⟩ := progress
  cases step with
  | addTimer address clock free inside user =>
      refine ⟨by simpa using reads, ⟨done, left, split, by simpa using busy, by simpa using ran⟩,
        fun e mem => ?_⟩
      obtain ⟨t, live, -⟩ := books.index.found e (List.mem_append_left _ (List.mem_filter.mp mem).1)
      have other : e.2 ≠ address := fun same => by
        rw [← same, heap e mem, live] at free
        cases free
      rw [heap_addTimer, Function.update_of_ne other]
      exact heap e mem
  | fire set => exact ⟨reads, ⟨done, left, split, busy, ran⟩, heap⟩
  | handleRead idle =>
      rw [busy] at idle
      cases idle
  | @runCallback r e rest t busy' next live =>
      obtain rfl := Option.some.inj (busy.symm.trans busy')
      obtain rfl : left = e :: rest := next
      have mem : e ∈ q.due now := split ▸ List.mem_append_right _ List.mem_cons_self
      refine ⟨reads, ⟨done ++ [e], rest, ?_, rfl, ?_⟩, heap⟩
      · rw [split, List.append_assoc]
        rfl
      · rw [heap e mem] at live
        have number : s.nows.length - 1 = q.nows.length := by omega
        simp only [ran, runs, List.filterMap_append, List.append_assoc, number]
        simp [live]
  | reset => exact absurd rfl notReset

theorem progress_run {now : Int} {s s' : TimerQueue κ} {mid : List (TimerQueue κ × Action κ)}
    (books : q.Books) (run : Run Step s mid s') (progress : Progress q now s)
    (notReset : ∀ p ∈ mid, p.2 ≠ .reset) : Progress q now s' := by
  induction run with
  | nil s => exact progress
  | cons first rest ih =>
      exact ih (progress_step books progress first (notReset _ List.mem_cons_self))
        fun p mem => notReset p (List.mem_cons_of_mem _ mem)

theorem due_sorted (books : q.Books) (now : Int) :
    (q.due now).Pairwise fun e f => e.1 ≤ f.1 := by
  refine (books.sorted.filter _).imp fun {e f} le => ?_
  simp only [Entry.Le, Entry.Less] at le
  omega

/-- A whole `handleRead` runs the callbacks that were due when it began, and settles
their timers. -/
theorem handleRead_runs {now : Int} {q₁ q₂ q₃ : TimerQueue κ}
    {mid : List (TimerQueue κ × Action κ)} (books : q.Books) (begins : q.Step (.handleRead now) q₁)
    (run : Run Step q₁ mid q₂) (notReset : ∀ p ∈ mid, p.2 ≠ .reset) (ends : q₂.Step .reset q₃) :
    q₃.ran = q.ran ++ q.runs (q.due now) ∧
      ∀ e ∈ q.due now, q₃.heap e.2 = (q.heap e.2).bind (settle now (q.nows.length + 1)) := by
  have began : Progress q now q₁ := by
    cases begins with
    | handleRead idle positive =>
        refine ⟨by simp [beginRead], ⟨[], q.due now, rfl, ?_, ?_⟩, fun e mem => rfl⟩
        · simp only [beginRead, getExpired_eq books]
          rfl
        · simp [beginRead, runs]
  have books₁ := books_step books begins
  have books₂ : q₂.Books := run.invariant_last (fun _ _ _ books step => books_step books step) books₁
  obtain ⟨reads, ⟨done, left, split, busy, ran⟩, heap⟩ := progress_run books run began notReset
  cases ends with
  | reset clock busy' through =>
      obtain rfl := Option.some.inj (busy.symm.trans busy')
      obtain rfl : left = [] := through
      rw [List.append_nil] at split
      obtain ⟨-, settled⟩ := books_reset books₂ busy clock
      refine ⟨by rw [ran_reset, ran, split], fun e mem => ?_⟩
      rw [settled, if_pos (List.mem_map_of_mem mem), heap e mem, reads]

/-! ## The timer queue -/

/-- What a queue keeps. -/
structure Served (q : TimerQueue κ) : Prop where
  /-- an entry's key is its timer's expiration -/
  keys : ∀ e ∈ q.timers, ∃ t, q.heap e.2 = some t ∧ t.expiration = e.1
  /-- between operations every live timer has exactly one entry -/
  queued : q.reading = none → ∀ a t, q.heap a = some t →
    (t.expiration, a) ∈ q.timers ∧ (q.timers.map Prod.snd).count a = 1
  /-- a `handleRead` runs what was due when it began, in order; a one-shot is freed and a
  repeating timer queued again -/
  handleRead : ∀ (now : Int) (q₁ : TimerQueue κ) (mid : List (TimerQueue κ × Action κ))
    (q₂ q₃ : TimerQueue κ), q.Step (.handleRead now) q₁ → Run Step q₁ mid q₂ →
    (∀ p ∈ mid, p.2 ≠ .reset) → q₂.Step .reset q₃ →
    q₃.ran = q.ran ++ q.runs (q.due now) ∧ (q.due now).Pairwise (fun e f => e.1 ≤ f.1) ∧
    ∀ e ∈ q.due now, ∀ t, q.heap e.2 = some t →
      (t.repeats = false → q₃.heap e.2 = none) ∧
      (t.repeats = true → (now + t.interval, e.2) ∈ q₃.timers)
  /-- a callback runs in the first `handleRead` that reaches its timer -/
  ran : ∀ x ∈ q.ran, FirstReached q.nows x.2 x.1
  ahead : ∀ e ∈ q.timers, ∀ t, q.heap e.2 = some t → NotReached q.nows t
  /-- no one-shot runs twice, and one that has run is freed with the `handleRead` -/
  once : ((q.ran.filter fun x => !x.2.repeats).map fun x => x.2.serial).Nodup
  freed : q.reading = none → ∀ x ∈ q.ran, x.2.repeats = false → ∀ a t, q.heap a = some t →
    t.serial ≠ x.2.serial
  /-- no timer is lost: it is live, or a one-shot that has run -/
  kept : ∀ n < q.added, (∃ a t, q.heap a = some t ∧ t.serial = n) ∨
    ∃ x ∈ q.ran, x.2.serial = n ∧ x.2.repeats = false
  /-- the timerfd is armed for the earliest timer, or has fired -/
  armed : q.reading = none → ∀ expiration, q.Earliest expiration →
    q.timerfd.readable = true ∨ ∃ value clock, q.timerfd.setting = some (expiration, value) ∧
      value.Positive ∧ value = howMuchTimeFromNow expiration clock

/-- **No timer is lost or fires twice, and the queue is never left unarmed.** -/
theorem timers_served {trace : List (TimerQueue κ × Action κ)} (run : Run Step fresh trace q) :
    q.Served := by
  have all := run.invariant_last (I := fun q => q.Books ∧ q.Armed ∧ q.History ∧ q.Serials)
    (fun _ _ _ inv step => ⟨books_step inv.1 step, armed_step inv.1 inv.2.1 step,
      history_step inv.1 inv.2.2.1 step, serials_step inv.1 inv.2.2.1 inv.2.2.2 step⟩)
    ⟨books_fresh, armed_fresh, history_fresh, serials_fresh⟩
  obtain ⟨books, armed, history, serials⟩ := all
  refine ⟨fun e mem => books.index.found e (List.mem_append_left _ mem), fun idle a t live => ?_,
    fun now q₁ mid q₂ q₃ begins run notReset ends => ?_, history.ran, history.queued, serials.once,
    fun idle x mem oneShot a t live same => ?_, serials.kept, fun idle expiration earliest => ?_⟩
  · have index := books.index
    simp only [batch, idle, List.append_nil] at index
    have place := index.all a t live
    exact ⟨place, List.count_eq_one_of_mem index.distinct (List.mem_map_of_mem (f := Prod.snd) place)⟩
  · obtain ⟨ran, settled⟩ := handleRead_runs books begins run notReset ends
    refine ⟨ran, due_sorted books now, fun e mem t live => ⟨fun single => ?_, fun again => ?_⟩⟩
    · rw [settled e mem, live]
      simp [settle, single]
    · have books₃ : q₃.Books := books_step (run.invariant_last
        (fun _ _ _ books step => books_step books step) (books_step books begins)) ends
      have here : q₃.heap e.2 = some (t.restart now (q.nows.length + 1)) := by
        rw [settled e mem, live]
        simp [settle, again]
      have place := books₃.index.all e.2 _ here
      have idle : q₃.reading = none := by
        cases ends with
        | reset => exact reading_reset _ _ _
      simpa [batch, idle, Timer.restart, again] using place
  · obtain ⟨-, r, busy, -⟩ := serials.gone x mem oneShot a t live same
    rw [idle] at busy
    cases busy
  · rcases armed.set expiration earliest (.inl idle) with fired | ⟨clock, set⟩
    · exact .inl fired
    · exact .inr ⟨_, clock, set, positive_howMuchTimeFromNow expiration clock, rfl⟩

/-- A one-shot and a repeating timer, both due; the first callback adds a timer that is
long due itself and stays for the next `handleRead`. -/
theorem two_timers_served :
    ∃ (trace : List (TimerQueue Char × Action Char)) (q : TimerQueue Char),
      Run Step fresh trace q ∧ q.ran.map (fun x => x.2.callback) = ['b', 'a'] ∧
      q.timers = [(-7, 2), (16, 1)] ∧ q.timerfd.setting.map Prod.fst = some (-7) ∧ q.Served := by
  have run := Run.cons
      (.addTimer 0 0 rfl (by decide) nofun :
        (fresh : TimerQueue Char).Step (.addTimer 'a' 5 0 false) _) <|
    .cons (.addTimer 1 0 rfl (by decide) (fun r busy => by cases busy) :
      Step _ (.addTimer 'b' 3 10 true) _) <|
    .cons (.fire rfl) <| .cons (.handleRead rfl (by decide) : Step _ (.handleRead 6) _) <|
    .cons (.runCallback rfl rfl rfl) <|
    .cons (.addTimer 2 6 rfl (by decide) (fun r busy => by cases busy; decide) :
      Step _ (.addTimer 'c' (-7) 0 false) _) <|
    .cons (.runCallback rfl rfl rfl) <| .cons (.reset 7 rfl rfl) <| .nil _
  exact ⟨_, _, run, rfl, rfl, rfl, timers_served run⟩

end TimerQueue

end LaliRpc.Net
