/-
# Net.Poller — a channel and its entry in the epoll set

`Channel::update` reaches `Poller::updateChannel`, which keeps two things in step:
the channel's `index_` and the entry of its descriptor in the interest list of
epoll (`mirrors_updateChannel`). What a poll reports for the channel is cut out of
the socket's readiness by that entry, and `Channel::handleEvent` turns it into calls.

`disableAll` is meant to empty the interest set. Its body computes `events_ |
NoneEventFlag` and drops the value, so a channel that was watched stays watched
and a poll reports of its socket what it reported before (`report_disableAll`).
-/
import LaliRpc.Net.TcpConnection

namespace LaliRpc.Net

set_option autoImplicit false

/-! ## Events -/

namespace Channel

def POLLIN : BitVec 32 := 0x001
def POLLPRI : BitVec 32 := 0x002
def POLLOUT : BitVec 32 := 0x004
def POLLERR : BitVec 32 := 0x008
def POLLHUP : BitVec 32 := 0x010
def POLLNVAL : BitVec 32 := 0x020
def POLLRDHUP : BitVec 32 := 0x2000

def isNoneEvent (c : Channel) : Bool := c.events = NoneEventFlag

/-- `events_|NoneEventFlag;` is an expression: nothing is assigned. -/
def disableAll (c : Channel) : Channel := c

/-- The four callbacks of a channel. -/
inductive Handler where
  | close | error | read | write
  deriving DecidableEq, Repr

/-- Some of the flags are among the events. -/
def reports (events flags : BitVec 32) : Bool := events &&& flags ≠ 0

/-- The callbacks `handleEvent` calls, in order. `currentEvents_` is set by the poll
and does not change until the next one. -/
def handleEvent (currentEvents : BitVec 32) : List Handler :=
  (if reports currentEvents POLLHUP && !reports currentEvents POLLIN then [.close] else []) ++
  (if reports currentEvents (POLLERR ||| POLLNVAL) then [.error] else []) ++
  (if reports currentEvents (POLLIN ||| POLLPRI ||| POLLRDHUP) then [.read] else []) ++
  (if reports currentEvents POLLOUT then [.write] else [])

/-- The events that `handleEvent` calls a handler for, other than that of errors. -/
def Handled : BitVec 32 := POLLIN ||| POLLPRI ||| POLLRDHUP ||| POLLOUT ||| POLLHUP

variable {events flags : BitVec 32}

theorem reports_eq_false {all : BitVec 32} (silent : events &&& all = 0)
    (part : flags &&& all = flags) : reports events flags = false := by
  have none : events &&& flags = 0 := by
    rw [← part, BitVec.and_comm flags, ← BitVec.and_assoc, silent]
    exact BitVec.zero_and
  simp [reports, none]

/-- Without any of these, at most the error handler is called. -/
theorem handleEvent_of_silent (silent : events &&& Handled = 0) :
    ∀ h ∈ handleEvent events, h = .error := by
  have close : reports events POLLHUP = false := reports_eq_false silent (by decide)
  have read : reports events (POLLIN ||| POLLPRI ||| POLLRDHUP) = false :=
    reports_eq_false silent (by decide)
  have write : reports events POLLOUT = false := reports_eq_false silent (by decide)
  simp [handleEvent, close, read, write]

/-- All the flags are among the events. -/
def Has (events flags : BitVec 32) : Prop := events &&& flags = flags

theorem Has.or_left (has : Has events flags) (others : BitVec 32) :
    Has (events ||| others) flags := by
  rw [Has, BitVec.and_or_distrib_right, has]
  ext i
  simp only [BitVec.getElem_or, BitVec.getElem_and]
  cases flags[i] <;> simp

theorem Has.or_right (has : Has events flags) (others : BitVec 32) :
    Has (others ||| events) flags := by
  rw [BitVec.or_comm]
  exact has.or_left others

theorem Has.and {others : BitVec 32} (has : Has events flags) (too : Has others flags) :
    Has (events &&& others) flags := by
  rw [Has, BitVec.and_assoc, too, has]

/-- Events that have flags report them. -/
theorem Has.reports {all : BitVec 32} (has : Has events flags) (part : flags &&& all = flags)
    (nonzero : flags ≠ 0) : reports events all = true := by
  by_contra silent
  have absent : events &&& all = 0 := by simpa [Channel.reports] using silent
  have none := reports_eq_false absent part
  rw [Channel.reports, has] at none
  exact nonzero (by simpa using none)

/-- The channel asks to be told of input. -/
def IsReading (c : Channel) : Prop := Has c.events POLLIN

theorem isReading_enableReading (c : Channel) : c.enableReading.IsReading := by
  have asked : Has ReadEventFlag POLLIN := by
    rw [Has]
    decide
  exact asked.or_right c.events

theorem isReading_enableWriting {c : Channel} (reading : c.IsReading) :
    c.enableWriting.IsReading :=
  reading.or_left WriteEventFlag

theorem isReading_disableWriting {c : Channel} (reading : c.IsReading) :
    c.disableWriting.IsReading := by
  have kept : Has (~~~WriteEventFlag) POLLIN := by
    rw [Has]
    decide
  exact reading.and kept

theorem isNoneEvent_of_isReading {c : Channel} (reading : c.IsReading) :
    c.isNoneEvent = false := by
  simp only [isNoneEvent, decide_eq_false_iff_not]
  intro silent
  rw [IsReading, Has, silent] at reading
  exact absurd reading (by decide)

theorem read_mem_handleEvent :
    .read ∈ handleEvent events ↔ reports events (POLLIN ||| POLLPRI ||| POLLRDHUP) = true := by
  simp [handleEvent]

theorem write_mem_handleEvent : .write ∈ handleEvent events ↔ reports events POLLOUT = true := by
  simp [handleEvent]

theorem close_mem_handleEvent :
    .close ∈ handleEvent events ↔ reports events POLLHUP = true ∧ reports events POLLIN = false := by
  simp [handleEvent]

/-- With one of them, another handler is. -/
theorem handleEvent_of_heard (heard : events &&& Handled ≠ 0) :
    ∃ h ∈ handleEvent events, h ≠ .error := by
  by_cases read : reports events (POLLIN ||| POLLPRI ||| POLLRDHUP) = true
  · exact ⟨.read, read_mem_handleEvent.mpr read, nofun⟩
  · by_cases write : reports events POLLOUT = true
    · exact ⟨.write, write_mem_handleEvent.mpr write, nofun⟩
    · have input : events &&& (POLLIN ||| POLLPRI ||| POLLRDHUP) = 0 := by simpa [reports] using read
      have output : events &&& POLLOUT = 0 := by simpa [reports] using write
      refine ⟨.close, close_mem_handleEvent.mpr ⟨?_, reports_eq_false input (by decide)⟩, nofun⟩
      rw [Handled, BitVec.and_or_distrib_left, BitVec.and_or_distrib_left, input, output] at heard
      simpa [reports] using heard

end Channel

/-! ## Registration -/

namespace Poller

/-- `New`, `Add` and `Deleted`. -/
inductive Index where
  | new | add | deleted
  deriving DecidableEq, Repr

/-- The operations of `epoll_ctl`. -/
inductive Ctl where
  | add | mod | del
  deriving DecidableEq, Repr

/-- `epoll_ctl` on the entry of a descriptor. Adding an entry that exists and
modifying one that does not are errors, which change nothing. -/
def epollCtl (entry : Option (BitVec 32)) : Ctl → BitVec 32 → Option (BitVec 32)
  | .add, events => some (entry.getD events)
  | .mod, events => entry.map fun _ => events
  | .del, _ => none

/-- What the poller keeps of a channel: `index_`, and the entry in the epoll set. -/
structure Registration where
  index : Index
  entry : Option (BitVec 32)
  deriving DecidableEq, Repr

namespace Registration

def update (r : Registration) (operation : Ctl) (channel : Channel) : Registration :=
  { r with entry := epollCtl r.entry operation channel.events }

def updateChannel (r : Registration) (channel : Channel) : Registration :=
  match r.index with
  | .new | .deleted => Registration.update { r with index := .add } .add channel
  | .add =>
      if channel.isNoneEvent then { r.update .del channel with index := .deleted }
      else r.update .mod channel

def removeChannel (r : Registration) (channel : Channel) : Registration :=
  { (if r.index = .add then r.update .del channel else r) with index := .new }

/-- What `epoll_wait` returns of a socket that is ready in these ways: errors and
hang-ups need not be asked for. -/
def report (r : Registration) (ready : BitVec 32) : BitVec 32 :=
  match r.entry with
  | some events => ready &&& (events ||| Channel.POLLERR ||| Channel.POLLHUP)
  | none => 0

/-- The epoll set has what the channel asks for, if the index says so. -/
def Mirrors (r : Registration) (channel : Channel) : Prop :=
  r.entry = if r.index = .add then some channel.events else none

variable {r : Registration} {channel : Channel}

/-- **`update()` brings the epoll set up to date**, whatever the interest set was before. -/
theorem mirrors_updateChannel {old : Channel} (mirrors : r.Mirrors old) (channel : Channel) :
    (r.updateChannel channel).Mirrors channel := by
  obtain ⟨index, entry⟩ := r
  cases index with
  | new =>
      have absent : entry = none := mirrors
      simp [updateChannel, update, epollCtl, Mirrors, absent]
  | deleted =>
      have absent : entry = none := mirrors
      simp [updateChannel, update, epollCtl, Mirrors, absent]
  | add =>
      have present : entry = some old.events := mirrors
      by_cases silent : channel.isNoneEvent = true
      · simp [updateChannel, update, epollCtl, Mirrors, silent]
      · simp [updateChannel, update, epollCtl, Mirrors, silent, present]

theorem mirrors_removeChannel (mirrors : r.Mirrors channel) (other : Channel) :
    (r.removeChannel other).Mirrors channel := by
  obtain ⟨index, entry⟩ := r
  cases index with
  | add => simp [removeChannel, update, epollCtl, Mirrors]
  | new =>
      have absent : entry = none := mirrors
      simp [removeChannel, Mirrors, absent]
  | deleted =>
      have absent : entry = none := mirrors
      simp [removeChannel, Mirrors, absent]

/-- A channel that asks for something is in the epoll set after `update()`. -/
theorem index_updateChannel (asks : channel.isNoneEvent = false) :
    (r.updateChannel channel).index = .add := by
  obtain ⟨index, entry⟩ := r
  cases index <;> simp [updateChannel, update, asks]

/-- **`disableAll` does not silence a channel**: what a poll reports of it is what it
reported before, `update()` included. -/
theorem report_disableAll (mirrors : r.Mirrors channel) (added : r.index = .add)
    (asks : channel.isNoneEvent = false) (ready : BitVec 32) :
    (r.updateChannel channel.disableAll).report ready = r.report ready := by
  have entry : r.entry = some channel.events := by
    rw [Registration.Mirrors, if_pos added] at mirrors
    exact mirrors
  have updated := mirrors_updateChannel mirrors channel
  rw [Registration.Mirrors, if_pos (index_updateChannel asks)] at updated
  simp only [report, Channel.disableAll, updated, entry]

end Registration

end Poller

end LaliRpc.Net
