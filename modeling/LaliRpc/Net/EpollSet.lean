/-
# Net.EpollSet — a poller with many channels

`Poller` keeps `channels_`, by descriptor, and each channel its `events_` and
`index_`; the interest list is the kernel's. Three functions change them, and an
`epoll_ctl` that the kernel refuses is only logged. The kernel refuses to add a
descriptor that is there, and to change or delete one that is not.

With a descriptor of its own for each channel, whatever is done to the channels in
whatever order, no call is refused, and the three stay in step (`poller_in_step`): the
interest list has the channel with its mask exactly when the index is `Add`, and
`channels_` has it exactly when the index is not `New`. An operation touches its own
channel only (`elsewhere_perform`), where it does what `Registration` says of a channel
alone (`registration_updateChannel`).
-/
import Mathlib.Logic.Function.Basic
import LaliRpc.Net.Poller
import LaliRpc.Theory.Assoc

namespace LaliRpc.Net

open LaliRpc.Theory

set_option autoImplicit false

/-- `struct epoll_event`: the mask, and the channel `data.ptr` points to. -/
structure EpollEvent (ι : Type) where
  events : BitVec 32
  ptr : ι
  deriving DecidableEq, Repr

open Poller (Index Ctl Registration)

/-- `channels_`, the interest list in the kernel, the channels' `events_` and `index_`,
and the calls of `epoll_ctl` that failed. -/
structure EpollSet (ι : Type) where
  channels : Table Int ι
  epoll : Table Int (EpollEvent ι)
  channel : ι → Channel
  index : ι → Index
  refused : List (Ctl × Int)

inductive ChannelOp where
  | enableReading | enableWriting | disableWriting | disableAll | remove
  deriving DecidableEq, Repr

namespace EpollSet

variable {ι : Type}

/-- A poller and new channels. -/
def fresh : EpollSet ι where
  channels := .empty
  epoll := .empty
  channel := fun _ => ⟨Channel.NoneEventFlag⟩
  index := fun _ => .new
  refused := []

/-- `::epoll_ctl`; `none` is −1. -/
def epollCtl (epoll : Table Int (EpollEvent ι)) (operation : Ctl) (fd : Int)
    (event : EpollEvent ι) : Option (Table Int (EpollEvent ι)) :=
  match operation, epoll.find fd with
  | .add, none => some (epoll.assign fd event)
  | .mod, some _ => some (epoll.assign fd event)
  | .del, some _ => some (epoll.erase fd)
  | _, _ => none

variable [DecidableEq ι] (fd : ι → Int)

def setIndex (s : EpollSet ι) (i : ι) (idx : Index) : EpollSet ι :=
  { s with index := Function.update s.index i idx }

def setEvents (s : EpollSet ι) (i : ι) (c : Channel) : EpollSet ι :=
  { s with channel := Function.update s.channel i c }

omit [DecidableEq ι] in
def update (s : EpollSet ι) (operation : Ctl) (i : ι) : EpollSet ι :=
  match epollCtl s.epoll operation (fd i) ⟨(s.channel i).events, i⟩ with
  | some epoll => { s with epoll := epoll }
  | none => { s with refused := s.refused ++ [(operation, fd i)] }

def updateChannel (s : EpollSet ι) (i : ι) : EpollSet ι :=
  if s.index i = .new ∨ s.index i = .deleted then
    let s := if s.index i = .new then { s with channels := s.channels.assign (fd i) i } else s
    (s.setIndex i .add).update fd .add i
  else if (s.channel i).isNoneEvent then (s.update fd .del i).setIndex i .deleted
  else s.update fd .mod i

def removeChannel (s : EpollSet ι) (i : ι) : EpollSet ι :=
  let added := s.index i = .add
  let s := { s with channels := s.channels.erase (fd i) }
  let s := if added then s.update fd .del i else s
  s.setIndex i .new

/-- An operation of channel `i`. -/
def perform (s : EpollSet ι) (i : ι) : ChannelOp → EpollSet ι
  | .enableReading => (s.setEvents i (s.channel i).enableReading).updateChannel fd i
  | .enableWriting => (s.setEvents i (s.channel i).enableWriting).updateChannel fd i
  | .disableWriting => (s.setEvents i (s.channel i).disableWriting).updateChannel fd i
  | .disableAll => (s.setEvents i (s.channel i).disableAll).updateChannel fd i
  | .remove => s.removeChannel fd i

def Step (s : EpollSet ι) (e : ι × ChannelOp) (s' : EpollSet ι) : Prop :=
  s' = s.perform fd e.1 e.2

/-- The channel, its entry and `channels_` agree. -/
structure Agrees (s : EpollSet ι) (i : ι) : Prop where
  entry : s.epoll.find (fd i) =
    if s.index i = .add then some ⟨(s.channel i).events, i⟩ else none
  known : s.channels.find (fd i) = if s.index i = .new then none else some i

/-- All channels agree, and no call has been refused. -/
structure InStep (s : EpollSet ι) : Prop where
  agrees : ∀ i, s.Agrees fd i
  accepted : s.refused = []

variable {fd} {s s' s'' : EpollSet ι} {i j : ι}

omit [DecidableEq ι] in
theorem inStep_fresh : (fresh : EpollSet ι).InStep fd :=
  ⟨fun _ => ⟨rfl, rfl⟩, rfl⟩

/-! ## The other channels -/

/-- Nothing but channel `i` has changed. -/
structure Elsewhere (fd : ι → Int) (i : ι) (s s' : EpollSet ι) : Prop where
  index : ∀ j, j ≠ i → s'.index j = s.index j
  channel : ∀ j, j ≠ i → s'.channel j = s.channel j
  entry : ∀ j, j ≠ i → s'.epoll.find (fd j) = s.epoll.find (fd j)
  known : ∀ j, j ≠ i → s'.channels.find (fd j) = s.channels.find (fd j)

namespace Elsewhere

omit [DecidableEq ι] in
theorem refl (s : EpollSet ι) : Elsewhere fd i s s :=
  ⟨fun _ _ => rfl, fun _ _ => rfl, fun _ _ => rfl, fun _ _ => rfl⟩

omit [DecidableEq ι] in
theorem trans (first : Elsewhere fd i s s') (second : Elsewhere fd i s' s'') :
    Elsewhere fd i s s'' where
  index := fun j ne => (second.index j ne).trans (first.index j ne)
  channel := fun j ne => (second.channel j ne).trans (first.channel j ne)
  entry := fun j ne => (second.entry j ne).trans (first.entry j ne)
  known := fun j ne => (second.known j ne).trans (first.known j ne)

omit [DecidableEq ι] in
theorem agrees (elsewhere : Elsewhere fd i s s') (ne : j ≠ i) (agrees : s.Agrees fd j) :
    s'.Agrees fd j := by
  refine ⟨?_, ?_⟩
  · rw [elsewhere.entry j ne, elsewhere.index j ne, elsewhere.channel j ne]
    exact agrees.entry
  · rw [elsewhere.known j ne, elsewhere.index j ne]
    exact agrees.known

end Elsewhere

theorem elsewhere_setIndex (s : EpollSet ι) (i : ι) (idx : Index) :
    Elsewhere fd i s (s.setIndex i idx) where
  index := fun _ ne => Function.update_of_ne ne _ _
  channel := fun _ _ => rfl
  entry := fun _ _ => rfl
  known := fun _ _ => rfl

theorem elsewhere_setEvents (s : EpollSet ι) (i : ι) (c : Channel) :
    Elsewhere fd i s (s.setEvents i c) where
  index := fun _ _ => rfl
  channel := fun _ ne => Function.update_of_ne ne _ _
  entry := fun _ _ => rfl
  known := fun _ _ => rfl

section Distinct

variable (distinct : Function.Injective fd)

include distinct

omit [DecidableEq ι] in
theorem elsewhere_update (s : EpollSet ι) (operation : Ctl) (i : ι) :
    Elsewhere fd i s (s.update fd operation i) where
  index := by
    intro j _
    unfold update
    split <;> rfl
  channel := by
    intro j _
    unfold update
    split <;> rfl
  entry := by
    intro j ne
    have other : fd j ≠ fd i := fun same => ne (distinct same)
    unfold update
    split
    · rename_i epoll changed
      unfold epollCtl at changed
      split at changed
      · cases changed
        exact Table.find_assign_of_ne other _ _
      · cases changed
        exact Table.find_assign_of_ne other _ _
      · cases changed
        exact Table.find_erase_of_ne other _
      · cases changed
    · rfl
  known := by
    intro j _
    unfold update
    split <;> rfl

theorem elsewhere_updateChannel (s : EpollSet ι) (i : ι) :
    Elsewhere fd i s (s.updateChannel fd i) := by
  unfold updateChannel
  split
  · have entered : Elsewhere fd i s
        (if s.index i = .new then { s with channels := s.channels.assign (fd i) i } else s) := by
      split
      · refine ⟨fun _ _ => rfl, fun _ _ => rfl, fun _ _ => rfl, ?_⟩
        intro j ne
        exact Table.find_assign_of_ne (fun same => ne (distinct same)) _ _
      · exact .refl s
    exact (entered.trans (elsewhere_setIndex _ i .add)).trans (elsewhere_update distinct _ _ i)
  · split
    · exact (elsewhere_update distinct s .del i).trans (elsewhere_setIndex _ i .deleted)
    · exact elsewhere_update distinct s .mod i

theorem elsewhere_removeChannel (s : EpollSet ι) (i : ι) :
    Elsewhere fd i s (s.removeChannel fd i) := by
  have erased : Elsewhere fd i s { s with channels := s.channels.erase (fd i) } := by
    refine ⟨fun _ _ => rfl, fun _ _ => rfl, fun _ _ => rfl, ?_⟩
    intro j ne
    exact Table.find_erase_of_ne (fun same => ne (distinct same)) _
  have deleted : Elsewhere fd i { s with channels := s.channels.erase (fd i) }
      (if s.index i = .add then update fd { s with channels := s.channels.erase (fd i) } .del i
        else { s with channels := s.channels.erase (fd i) }) := by
    split
    · exact elsewhere_update distinct _ .del i
    · exact .refl _
  exact (erased.trans deleted).trans (elsewhere_setIndex _ i .new)

/-- **An operation of one channel touches no other.** -/
theorem elsewhere_perform (s : EpollSet ι) (i : ι) (op : ChannelOp) :
    Elsewhere fd i s (s.perform fd i op) := by
  cases op with
  | remove => exact elsewhere_removeChannel distinct s i
  | _ => exact (elsewhere_setEvents s i _).trans (elsewhere_updateChannel distinct _ i)

end Distinct

/-! ## The channel itself -/

/-- The interest list has the channel exactly when its index says so, with any mask. -/
structure Placed (fd : ι → Int) (s : EpollSet ι) (i : ι) : Prop where
  present : s.index i = .add → ∃ event, s.epoll.find (fd i) = some event
  absent : s.index i ≠ .add → s.epoll.find (fd i) = none
  known : s.channels.find (fd i) = if s.index i = .new then none else some i

omit [DecidableEq ι] in
theorem Agrees.placed (agrees : s.Agrees fd i) : s.Placed fd i where
  present := fun added => ⟨_, agrees.entry.trans (if_pos added)⟩
  absent := fun other => agrees.entry.trans (if_neg other)
  known := agrees.known

theorem Placed.setEvents (placed : s.Placed fd i) (c : Channel) :
    (s.setEvents i c).Placed fd i := ⟨placed.present, placed.absent, placed.known⟩

section Calls

omit [DecidableEq ι]

theorem update_add (absent : s.epoll.find (fd i) = none) :
    s.update fd .add i =
      { s with epoll := s.epoll.assign (fd i) ⟨(s.channel i).events, i⟩ } := by
  simp [update, epollCtl, absent]

theorem update_mod {event : EpollEvent ι} (present : s.epoll.find (fd i) = some event) :
    s.update fd .mod i =
      { s with epoll := s.epoll.assign (fd i) ⟨(s.channel i).events, i⟩ } := by
  simp [update, epollCtl, present]

theorem update_del {event : EpollEvent ι} (present : s.epoll.find (fd i) = some event) :
    s.update fd .del i = { s with epoll := s.epoll.erase (fd i) } := by
  simp [update, epollCtl, present]

end Calls

/-- **`updateChannel` brings the kernel up to date**, whatever mask it had, and each of
its calls is accepted. -/
theorem agrees_updateChannel (placed : s.Placed fd i) :
    (s.updateChannel fd i).Agrees fd i ∧ (s.updateChannel fd i).refused = s.refused := by
  have known := placed.known
  unfold updateChannel
  cases here : s.index i with
  | new =>
      have absent := placed.absent (by simp [here])
      rw [if_pos (.inl rfl), if_pos rfl]
      have added := @update_add ι fd
        (setIndex { s with channels := s.channels.assign (fd i) i } i .add) i absent
      simp only [added]
      refine ⟨⟨?_, ?_⟩, rfl⟩
      · simp [setIndex, Table.find_assign_self]
      · simp [setIndex, Table.find_assign_self]
  | deleted =>
      have absent := placed.absent (by simp [here])
      rw [here] at known
      rw [if_pos (.inr rfl), if_neg (by simp)]
      have added := @update_add ι fd (s.setIndex i .add) i absent
      simp only [added]
      refine ⟨⟨?_, ?_⟩, rfl⟩
      · simp [setIndex, Table.find_assign_self]
      · simpa [setIndex] using known
  | add =>
      obtain ⟨event, present⟩ := placed.present here
      rw [here] at known
      rw [if_neg (by simp)]
      split
      · rw [update_del present]
        refine ⟨⟨?_, ?_⟩, rfl⟩
        · simp [setIndex, Table.find_erase_self]
        · simpa [setIndex] using known
      · rw [update_mod present]
        refine ⟨⟨?_, ?_⟩, rfl⟩
        · simp [here, Table.find_assign_self]
        · simpa [here] using known

theorem agrees_removeChannel (placed : s.Placed fd i) :
    (s.removeChannel fd i).Agrees fd i ∧ (s.removeChannel fd i).refused = s.refused := by
  unfold removeChannel
  by_cases added : s.index i = .add
  · obtain ⟨event, present⟩ := placed.present added
    have deleted := @update_del ι fd { s with channels := s.channels.erase (fd i) } i event present
    simp only [if_pos added, deleted]
    refine ⟨⟨?_, ?_⟩, rfl⟩
    · simp [setIndex, Table.find_erase_self]
    · simp [setIndex, Table.find_erase_self]
  · have absent := placed.absent added
    simp only [if_neg added]
    refine ⟨⟨?_, ?_⟩, rfl⟩
    · simpa [setIndex] using absent
    · simp [setIndex, Table.find_erase_self]

theorem agrees_perform (agrees : s.Agrees fd i) (op : ChannelOp) :
    (s.perform fd i op).Agrees fd i ∧ (s.perform fd i op).refused = s.refused := by
  cases op with
  | remove => exact agrees_removeChannel agrees.placed
  | _ => exact agrees_updateChannel (agrees.placed.setEvents _)

/-! ## One channel alone -/

/-- What the poller has of channel `i`. -/
def registration (fd : ι → Int) (s : EpollSet ι) (i : ι) : Registration where
  index := s.index i
  entry := (s.epoll.find (fd i)).map (·.events)

/-- **For its own channel the poller does what it does for a single one.** -/
theorem registration_updateChannel (placed : s.Placed fd i) :
    registration fd (s.updateChannel fd i) i =
      (registration fd s i).updateChannel (s.channel i) := by
  unfold updateChannel
  cases here : s.index i with
  | new =>
      have absent := placed.absent (by simp [here])
      have added := @update_add ι fd
        (setIndex { s with channels := s.channels.assign (fd i) i } i .add) i absent
      rw [if_pos (.inl rfl), if_pos rfl]
      simp only [added]
      simp [registration, setIndex, Table.find_assign_self, Registration.updateChannel,
        Registration.update, Poller.epollCtl, here, absent]
  | deleted =>
      have absent := placed.absent (by simp [here])
      have added := @update_add ι fd (s.setIndex i .add) i absent
      rw [if_pos (.inr rfl), if_neg (by simp)]
      simp only [added]
      simp [registration, setIndex, Table.find_assign_self, Registration.updateChannel,
        Registration.update, Poller.epollCtl, here, absent]
  | add =>
      obtain ⟨event, present⟩ := placed.present here
      rw [if_neg (by simp)]
      by_cases silent : (s.channel i).isNoneEvent = true
      · rw [if_pos silent, update_del present]
        simp [registration, setIndex, Table.find_erase_self, Registration.updateChannel,
          Registration.update, Poller.epollCtl, here, silent]
      · rw [if_neg silent, update_mod present]
        simp [registration, Table.find_assign_self, Registration.updateChannel,
          Registration.update, Poller.epollCtl, here, present, silent]

theorem registration_removeChannel (placed : s.Placed fd i) :
    registration fd (s.removeChannel fd i) i =
      (registration fd s i).removeChannel (s.channel i) := by
  unfold removeChannel
  by_cases added : s.index i = .add
  · obtain ⟨event, present⟩ := placed.present added
    have deleted := @update_del ι fd { s with channels := s.channels.erase (fd i) } i event present
    simp only [if_pos added, deleted]
    simp [registration, setIndex, Table.find_erase_self, Registration.removeChannel,
      Registration.update, Poller.epollCtl, added]
  · simp only [if_neg added]
    simp [registration, setIndex, Registration.removeChannel, added]

/-! ## Runs -/

theorem inStep_step (distinct : Function.Injective fd) {e : ι × ChannelOp} (inStep : s.InStep fd)
    (step : Step fd s e s') : s'.InStep fd := by
  obtain ⟨i, op⟩ := e
  obtain rfl := step
  obtain ⟨own, accepted⟩ := agrees_perform (inStep.agrees i) op
  refine ⟨?_, accepted.trans inStep.accepted⟩
  intro j
  by_cases same : j = i
  · subst same
    exact own
  · exact (elsewhere_perform distinct s i op).agrees same (inStep.agrees j)

/-- **The poller, the channels and the kernel are in step** after every operation, and
the kernel has refused nothing. -/
theorem poller_in_step (distinct : Function.Injective fd)
    {trace : List (EpollSet ι × (ι × ChannelOp))} (run : Run (Step fd) fresh trace s) :
    Run.Throughout (InStep fd) trace s :=
  run.invariant (fun _ _ _ => inStep_step distinct) inStep_fresh

/-- Two channels: one is watched, told to stop, removed and watched again, and the other
is updated with an empty mask. -/
theorem two_channels_in_step : ∃ trace s, Run (Step fun b : Bool => if b then 5 else 6) fresh trace s ∧
    s.index true = .add ∧ s.index false = .add ∧
    Run.Throughout (InStep fun b : Bool => if b then 5 else 6) trace s := by
  have distinct : Function.Injective fun b : Bool => if b then (5 : Int) else 6 := by
    intro a b
    cases a <;> cases b <;> simp
  have run : ∃ trace s, Run (Step fun b : Bool => if b then 5 else 6) fresh trace s ∧
      s.index true = .add ∧ s.index false = .add :=
    ⟨_, _, .cons (e := (true, .enableWriting)) rfl <| .cons (e := (true, .disableWriting)) rfl <|
      .cons (e := (false, .disableWriting)) rfl <| .cons (e := (true, .remove)) rfl <|
      .cons (e := (true, .enableReading)) rfl <| .nil _, by decide +kernel, by decide +kernel⟩
  obtain ⟨trace, s, run, first, second⟩ := run
  exact ⟨trace, s, run, first, second, poller_in_step distinct run⟩

end EpollSet

end LaliRpc.Net
