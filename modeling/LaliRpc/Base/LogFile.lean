/-
# Base.LogFile — the log's files

`AppendFile::append` calls `fwrite` until it has accepted the whole message, or
accepts nothing more. `LogFile` begins another file when the current one has grown
beyond `rollSize_` or, at every `checkLine_`-th append, when the clock says a later
day; but not twice in one second, and not when the clock has gone back.

The time of the last roll is the time of the current file, so the files' times
increase, and with them the names differ: no file is opened again, a new one begins
empty, and what is written into it leaves the others alone (`Sound`).
-/
import LaliRpc.Base.Calendar
import LaliRpc.Theory.Loop
import LaliRpc.Theory.Packing
import LaliRpc.Theory.Transition
import Mathlib.Logic.Function.Basic

namespace LaliRpc.Base

set_option autoImplicit false

open Theory (Loop Packed Pass Run)

/-! ## One file -/

/-- What the file of each name holds, with what `stdio` has still to hand on. -/
abbrev Disk := Bytes → Bytes

/-- An open `fp_`, by the name it was opened under, and the sum of the lengths. -/
structure AppendFile where
  filename : Bytes
  writtenData : Nat
  deriving DecidableEq

/-- How far `append` has got: its `n`, the calls of `fwrite`, and what the file holds. -/
structure Writing where
  n : Nat
  calls : Nat
  held : Bytes

namespace AppendFile

/-- `fopen(filename, "ae")`: what the file holds stays. -/
def fopen (filename : Bytes) : AppendFile := ⟨filename, 0⟩

section Append

variable (msg : Bytes) (fwrite : Nat → Nat)

/-- `write(msg + n, len - n)`; call `k` accepts `fwrite k` bytes, or all there are. -/
def write (w : Writing) : Writing :=
  let accepted := (msg.drop w.n).take (fwrite w.calls)
  { n := w.n + accepted.length, calls := w.calls + 1, held := w.held ++ accepted }

def pass (w : Writing) : Pass Writing Empty Empty :=
  let remain := msg.length - w.n
  if remain > 0 then
    let w' := write msg fwrite w
    if w'.n = w.n then .stop w' else .next w' []
  else .stop w

theorem write_n (w : Writing) :
    (write msg fwrite w).n = w.n + min (fwrite w.calls) (msg.length - w.n) := by
  simp [write]

/-- The loop behind the first call. -/
def retry : Loop Writing Empty Empty where
  body := pass msg fwrite
  measure w := msg.length - w.n
  decreases := by
    intro w w' es passed
    simp only [pass] at passed
    split at passed
    · split at passed
      · cases passed
      · rename_i left moved
        obtain ⟨rfl, -⟩ := Pass.next.inj passed
        rw [write_n] at moved ⊢
        omega
    · cases passed

/-- `append(msg, len)`; the length counts as written whatever `fwrite` did. -/
def append (f : AppendFile) (disk : Disk) : AppendFile × Disk :=
  let w := ((retry msg fwrite).run (write msg fwrite ⟨0, 0, disk f.filename⟩)).state
  ({ f with writtenData := f.writtenData + msg.length }, Function.update disk f.filename w.held)

end Append

variable {msg before : Bytes} {fwrite : Nat → Nat}

/-- What one call accepts continues what the earlier ones did. -/
theorem held_write {w : Writing} (held : w.held = before ++ msg.take w.n) :
    (write msg fwrite w).held = before ++ msg.take (write msg fwrite w).n := by
  have part : (msg.drop w.n).take (fwrite w.calls) =
      (msg.drop w.n).take ((msg.drop w.n).take (fwrite w.calls)).length :=
    List.prefix_iff_eq_take.mp (List.take_prefix _ _)
  simp only [write]
  rw [held, List.take_add, ← part, List.append_assoc]

/-- **When every repeated call accepts something, the loop writes the whole rest.** -/
theorem held_retry (progress : ∀ k, 0 < fwrite (k + 1)) {w : Writing} (tried : 0 < w.calls)
    (held : w.held = before ++ msg.take w.n) :
    ((retry msg fwrite).run w).state.held = before ++ msg := by
  induction size : msg.length - w.n using Nat.strongRecOn generalizing w with
  | ind left ih =>
      subst size
      by_cases remain : msg.length - w.n > 0
      · have accepts : 0 < fwrite w.calls := by
          obtain ⟨k, calls⟩ := Nat.exists_eq_succ_of_ne_zero (Nat.pos_iff_ne_zero.mp tried)
          rw [calls]
          exact progress k
        have moved := write_n msg fwrite w
        have next : (retry msg fwrite).body w = .next (write msg fwrite w) [] := by
          change pass msg fwrite w = _
          rw [pass, if_pos remain, if_neg (by omega)]
        rw [(retry msg fwrite).run_next next]
        exact ih _ (by omega) (Nat.succ_pos _) (held_write held) rfl
      · have stop : (retry msg fwrite).body w = .stop w := by
          change pass msg fwrite w = _
          rw [pass, if_neg remain]
        rw [(retry msg fwrite).run_stop stop, held, List.take_of_length_le (by omega)]

theorem append_eq (progress : ∀ k, 0 < fwrite (k + 1)) (f : AppendFile) (disk : Disk) :
    f.append msg fwrite disk =
      ({ f with writtenData := f.writtenData + msg.length },
        Function.update disk f.filename (disk f.filename ++ msg)) := by
  have first : (Writing.mk 0 0 (disk f.filename)).held = disk f.filename ++ msg.take 0 := by
    simp
  rw [append, held_retry progress (Nat.succ_pos 0) (held_write first)]

end AppendFile

/-! ## The files -/

/-- A file that was opened, and the clock reading it has its name of. -/
structure Opened where
  filename : Bytes
  time : Nat
  deriving DecidableEq

/-- The members but the mutex, under which `append` runs; the process's id; and what
has happened: the files opened and the messages appended, in order. A null `file_` is
`none`. -/
structure LogFile where
  filename : Bytes
  flushInterval : Int
  checkLine : Int
  rollSize : Int
  count : Int
  lastRollTime : Nat
  lastFlushTime : Nat
  startofPeriod : Nat
  file : Option AppendFile
  pid : Nat
  disk : Disk
  opened : List Opened
  appended : List Bytes

namespace LogFile

/-- With the reading `now` of the clock. -/
def getLogFileName (filename : Bytes) (pid now : Nat) : Bytes :=
  filename ++ (strftime (gmtime now) ++ (ascii "." ++ toDecimal pid ++ ascii ".log"))

def rollFile (s : LogFile) (now : Nat) : LogFile × Bool :=
  let outputFilename := getLogFileName s.filename s.pid now
  let startofThePeriod := now / daySeconds * daySeconds
  if now > s.lastRollTime then
    ({ s with
        lastRollTime := now
        lastFlushTime := now
        startofPeriod := startofThePeriod
        file := some (.fopen outputFilename)
        opened := s.opened ++ [⟨outputFilename, now⟩] }, true)
  else (s, false)

/-- The members as the constructor initializes them. -/
def initial (filename : Bytes) (rollSize flushInterval checkLine : Int) (pid : Nat) : LogFile where
  filename := filename
  flushInterval := flushInterval
  checkLine := checkLine
  rollSize := rollSize
  count := 0
  lastRollTime := 0
  lastFlushTime := 0
  startofPeriod := 0
  file := none
  pid := pid
  disk := fun _ => []
  opened := []
  appended := []

/-- The constructor, which rolls at the clock reading `now`. -/
def constructed (filename : Bytes) (rollSize flushInterval checkLine : Int) (pid now : Nat) :
    LogFile :=
  ((initial filename rollSize flushInterval checkLine pid).rollFile now).1

/-- A call of `append` with what `fwrite` accepts and the clock says in the course of it. -/
structure Call where
  msg : Bytes
  fwrite : Nat → Nat
  clock : Nat → Nat

/-- `file_->append(msg, len)`. -/
def written (s : LogFile) (file : AppendFile) (c : Call) : LogFile :=
  let after := file.append c.msg c.fwrite s.disk
  { s with file := some after.1, disk := after.2, appended := s.appended ++ [c.msg] }

/-- What `append_unlocked` does when the file may grow further. `fflush` hands on what
`stdio` holds already. -/
def check (s : LogFile) (clock : Nat → Nat) : LogFile :=
  let s := { s with count := s.count + 1 }
  if s.count ≥ s.checkLine then
    let s := { s with count := 0 }
    let now := clock 0
    let startofThePeriod := now / daySeconds * daySeconds
    if startofThePeriod > s.startofPeriod then (s.rollFile (clock 1)).1
    else if (now : Int) - s.lastFlushTime ≥ s.flushInterval then { s with lastFlushTime := now }
    else s
  else s

/-- `append_unlocked`; `none` when it goes through a null pointer. -/
def append (s : LogFile) (c : Call) : Option LogFile :=
  match s.file with
  | none => none
  | some file =>
      let grown := (file.append c.msg c.fwrite s.disk).1
      let s := s.written file c
      some (if (grown.writtenData : Int) > s.rollSize then (s.rollFile (c.clock 0)).1
        else s.check c.clock)

/-- `fwrite` keeps making progress and the clock has been set. -/
structure Call.Usual (c : Call) : Prop where
  progress : ∀ k, 0 < c.fwrite (k + 1)
  positive : ∀ k, 0 < c.clock k

def Step (s : LogFile) (c : Call) (s' : LogFile) : Prop := c.Usual ∧ s.append c = some s'

example :
    ((constructed (ascii "log") 100 3 1 7 951782399).append
      ⟨ascii "hello", fun _ => 2, fun _ => 951782400⟩).map
        (fun s => s.opened.map fun o => (o.filename, s.disk o.filename)) =
      some [(ascii "log.2000-02-28-23:59:59.7.log", ascii "hello"),
        (ascii "log.2000-02-29-00:00:00.7.log", [])] := by decide +kernel

theorem getLogFileName_injective {filename : Bytes} {pid now now' : Nat}
    (same : getLogFileName filename pid now = getLogFileName filename pid now') : now = now' :=
  strftime_injective (List.append_cancel_right (List.append_cancel_left same))

/-! ## What holds of the files -/

/-- What the file of an `Opened` holds. -/
def content (s : LogFile) (o : Opened) : Bytes := s.disk o.filename

/-- What holds before the first roll, too. -/
structure Files (s : LogFile) : Prop where
  named : ∀ o ∈ s.opened, o.filename = getLogFileName s.filename s.pid o.time
  past : ∀ o ∈ s.opened, o.time ≤ s.lastRollTime
  times : s.opened.Pairwise fun a b => a.time < b.time
  unopened : ∀ name, (∀ o ∈ s.opened, o.filename ≠ name) → s.disk name = []
  packed : Packed s.appended (s.opened.map s.content)

structure Sound (s : LogFile) : Prop extends Files s where
  current : ∃ early o, s.opened = early ++ [o] ∧ o.time = s.lastRollTime ∧
    s.file = some ⟨o.filename, (s.content o).length⟩
  period : s.startofPeriod = s.lastRollTime / daySeconds * daySeconds

/-- The current file has grown beyond `rollSize_` with this message, or the clock says a
later day than when the file was opened. -/
def Due (s : LogFile) (c : Call) : Prop :=
  ∃ early o, s.opened = early ++ [o] ∧
    (((s.content o ++ c.msg).length : Int) > s.rollSize ∨
      o.time / daySeconds < c.clock 0 / daySeconds)

/-- The files hold what was appended, no message lies in two of them, and none of them
was opened twice. -/
structure Kept (s : LogFile) : Prop where
  bytes : (s.opened.map s.content).flatten = s.appended.flatten
  packed : Packed s.appended (s.opened.map s.content)
  times : s.opened.Pairwise fun a b => a.time < b.time
  names : (s.opened.map Opened.filename).Nodup

section Invariant

variable {s s' : LogFile} {c : Call} {now : Nat}

/-- Names differ where times do. -/
theorem Files.names (files : s.Files) : (s.opened.map Opened.filename).Nodup := by
  rw [List.nodup_iff_pairwise_ne, List.pairwise_map]
  apply files.times.imp_of_mem
  intro a b ha hb earlier same
  rw [files.named a ha, files.named b hb] at same
  exact absurd (getLogFileName_injective same) (Nat.ne_of_lt earlier)

theorem Sound.kept (sound : s.Sound) : s.Kept where
  bytes := sound.packed.flatten_eq.symm
  packed := sound.packed
  times := sound.times
  names := sound.toFiles.names

/-! ### A roll -/

/-- A later second names a file that was not opened yet. -/
theorem Files.fresh (files : s.Files) (later : s.lastRollTime < now) :
    ∀ o ∈ s.opened, o.filename ≠ getLogFileName s.filename s.pid now := by
  intro o ho same
  rw [files.named o ho] at same
  have past := files.past o ho
  have := getLogFileName_injective same
  omega

theorem rollFile_of_later (later : s.lastRollTime < now) :
    (s.rollFile now).1 = { s with
      lastRollTime := now
      lastFlushTime := now
      startofPeriod := now / daySeconds * daySeconds
      file := some (.fopen (getLogFileName s.filename s.pid now))
      opened := s.opened ++ [⟨getLogFileName s.filename s.pid now, now⟩] } := by
  rw [rollFile, if_pos later]

theorem rollFile_of_not_later (same : ¬ s.lastRollTime < now) : (s.rollFile now).1 = s := by
  rw [rollFile, if_neg same]

/-- **A roll begins an empty file.** -/
theorem Files.sound_roll (files : s.Files) (later : s.lastRollTime < now) :
    (s.rollFile now).1.Sound := by
  have fresh := files.fresh later
  have empty := files.unopened _ fresh
  rw [rollFile_of_later later]
  refine ⟨⟨?named, ?past, ?times, ?unopened, ?packed⟩, ?current, rfl⟩
  case named =>
    intro o ho
    rcases List.mem_append.mp ho with old | new
    · exact files.named o old
    · rw [List.mem_singleton.mp new]
  case past =>
    intro o ho
    rcases List.mem_append.mp ho with old | new
    · exact Nat.le_of_lt (Nat.lt_of_le_of_lt (files.past o old) later)
    · rw [List.mem_singleton.mp new]
  case times =>
    refine List.pairwise_append.mpr ⟨files.times, List.pairwise_singleton _ _, ?_⟩
    intro o ho new hn
    rw [List.mem_singleton.mp hn]
    exact Nat.lt_of_le_of_lt (files.past o ho) later
  case unopened =>
    intro name other
    exact files.unopened name fun o ho => other o (List.mem_append_left _ ho)
  case packed =>
    rw [List.map_append, List.map_singleton]
    have new : s.content ⟨getLogFileName s.filename s.pid now, now⟩ = [] := empty
    exact new ▸ files.packed.new
  case current =>
    refine ⟨s.opened, _, rfl, rfl, ?_⟩
    simp only [content, AppendFile.fopen]
    rw [empty, List.length_nil]

theorem Sound.rollFile (sound : s.Sound) (now : Nat) : (s.rollFile now).1.Sound := by
  by_cases later : s.lastRollTime < now
  · exact sound.toFiles.sound_roll later
  · rw [rollFile_of_not_later later]
    exact sound

theorem files_initial (filename : Bytes) (rollSize flushInterval checkLine : Int) (pid : Nat) :
    (initial filename rollSize flushInterval checkLine pid).Files where
  named := fun _ ho => absurd ho List.not_mem_nil
  past := fun _ ho => absurd ho List.not_mem_nil
  times := .nil
  unopened := fun _ _ => rfl
  packed := .nil

/-! ### An append -/

theorem written_eq (progress : ∀ k, 0 < c.fwrite (k + 1)) (file : AppendFile) :
    s.written file c = { s with
      file := some { file with writtenData := file.writtenData + c.msg.length }
      disk := Function.update s.disk file.filename (s.disk file.filename ++ c.msg)
      appended := s.appended ++ [c.msg] } := by
  rw [LogFile.written, AppendFile.append_eq progress]

/-- The message goes behind the others of the current file. -/
theorem Sound.written (sound : s.Sound) {file : AppendFile} (here : s.file = some file)
    (progress : ∀ k, 0 < c.fwrite (k + 1)) : (s.written file c).Sound := by
  obtain ⟨early, o, opened, time, current⟩ := sound.current
  obtain rfl := Option.some.inj (here.symm.trans current)
  have names := sound.toFiles.names
  rw [opened, List.map_append, List.map_singleton] at names
  have others : ∀ e ∈ early, e.filename ≠ o.filename := by
    intro e he
    exact (List.nodup_append.mp names).2.2 e.filename (List.mem_map_of_mem he) o.filename
      (List.mem_singleton_self _)
  rw [written_eq progress]
  refine ⟨⟨sound.named, sound.past, sound.times, ?unopened, ?packed⟩, ?current, sound.period⟩
  case unopened =>
    intro name other
    have last : o.filename ≠ name := other o (by simp [opened])
    exact (Function.update_of_ne last.symm _ _).trans (sound.unopened name other)
  case packed =>
    have packed := sound.packed
    rw [opened, List.map_append, List.map_singleton] at packed
    have contents :
        s.opened.map (fun e =>
          Function.update s.disk o.filename (s.disk o.filename ++ c.msg) e.filename) =
        early.map s.content ++ [s.content o ++ c.msg] := by
      rw [opened, List.map_append, List.map_singleton, Function.update_self]
      congr 1
      exact List.map_congr_left fun e he => Function.update_of_ne (others e he) _ _
    exact contents ▸ packed.into_last c.msg
  case current =>
    refine ⟨early, o, opened, time, ?_⟩
    simp [content]

theorem Sound.check (sound : s.Sound) (clock : Nat → Nat) : (s.check clock).Sound := by
  have counted : ∀ n flushed, { s with count := n, lastFlushTime := flushed }.Sound :=
    fun _ _ => ⟨⟨sound.named, sound.past, sound.times, sound.unopened, sound.packed⟩,
      sound.current, sound.period⟩
  simp only [LogFile.check]
  split
  · split
    · exact (counted 0 s.lastFlushTime).rollFile _
    · split
      · exact counted 0 _
      · exact counted 0 s.lastFlushTime
  · exact counted _ s.lastFlushTime

theorem sound_append (sound : s.Sound) (usual : c.Usual) (done : s.append c = some s') :
    s'.Sound := by
  obtain ⟨early, o, -, -, current⟩ := sound.current
  simp only [append, current, Option.some.injEq] at done
  subst done
  have after := sound.written current usual.progress
  split
  · exact after.rollFile _
  · exact after.check _

theorem append_isSome (sound : s.Sound) (c : Call) : ∃ s', s.append c = some s' := by
  obtain ⟨early, o, -, -, current⟩ := sound.current
  rw [append, current]
  exact ⟨_, rfl⟩

theorem appended_rollFile (s : LogFile) (now : Nat) :
    (s.rollFile now).1.appended = s.appended := by
  rw [LogFile.rollFile]
  split
  · rfl
  · rfl

theorem appended_check (s : LogFile) (clock : Nat → Nat) :
    (s.check clock).appended = s.appended := by
  simp only [LogFile.check]
  split
  · split
    · exact appended_rollFile _ _
    · split
      · rfl
      · rfl
  · rfl

theorem appended_append (done : s.append c = some s') : s'.appended = s.appended ++ [c.msg] := by
  rw [append] at done
  split at done
  · cases done
  · obtain rfl := Option.some.inj done
    split
    · exact appended_rollFile _ _
    · exact appended_check _ _

/-! ### When a file is replaced -/

theorem opened_rollFile (s : LogFile) (now : Nat) :
    (s.rollFile now).1.opened = s.opened ∨ ∃ o, (s.rollFile now).1.opened = s.opened ++ [o] := by
  rw [LogFile.rollFile]
  split
  · exact .inr ⟨_, rfl⟩
  · exact .inl rfl

theorem opened_check (s : LogFile) (clock : Nat → Nat) :
    (s.check clock).opened = s.opened ∨
      s.startofPeriod < clock 0 / daySeconds * daySeconds ∧
        ∃ o, (s.check clock).opened = s.opened ++ [o] := by
  simp only [LogFile.check]
  split
  · split
    · rename_i day
      exact (opened_rollFile _ _).imp id fun other => ⟨day, other⟩
    · split
      · exact .inl rfl
      · exact .inl rfl
  · exact .inl rfl

/-- **An append opens another file only when that is due.** -/
theorem opened_append (sound : s.Sound) (done : s.append c = some s') :
    s'.opened = s.opened ∨ s.Due c ∧ ∃ o, s'.opened = s.opened ++ [o] := by
  obtain ⟨early, o, opened, time, current⟩ := sound.current
  simp only [append, current, Option.some.injEq] at done
  subst done
  split
  · rename_i large
    have due : s.Due c := by
      refine ⟨early, o, opened, .inl ?_⟩
      simpa [LogFile.written, AppendFile.append] using large
    exact (opened_rollFile _ _).imp id fun other => ⟨due, other⟩
  · have day : ∀ now, s.startofPeriod < now / daySeconds * daySeconds →
        o.time / daySeconds < now / daySeconds := by
      intro now later
      rw [sound.period, ← time] at later
      exact Nat.lt_of_mul_lt_mul_right later
    exact (opened_check _ _).imp id fun ⟨later, other⟩ =>
      ⟨⟨early, o, opened, .inr (day _ later)⟩, other⟩

end Invariant

/-! ## Runs -/

variable {filename : Bytes} {rollSize flushInterval checkLine : Int} {pid now : Nat}
  {trace : List (LogFile × Call)} {t : LogFile}

theorem sound_run (positive : 0 < now)
    (run : Run Step (constructed filename rollSize flushInterval checkLine pid now) trace t) :
    t.Sound :=
  run.invariant_last (fun _ _ _ sound step => sound_append sound step.1 step.2)
    ((files_initial filename rollSize flushInterval checkLine pid).sound_roll positive)

theorem appended_run {s : LogFile} (run : Run Step s trace t) :
    t.appended = s.appended ++ trace.map fun p => p.2.msg := by
  induction run with
  | nil s => simp
  | cons first rest ih => rw [ih, appended_append first.2, List.append_assoc, List.map_cons]; rfl

/-- **The files keep the messages.** After any calls, the files opened hold the messages
appended, one behind the other and each in one file; no two of them have the same name;
and the next call does not go through a null pointer and opens another file only when it
leaves the current one larger than `rollSize_` or the clock says a later day. -/
theorem messages_kept (positive : 0 < now)
    (run : Run Step (constructed filename rollSize flushInterval checkLine pid now) trace t) :
    t.appended = trace.map (fun p => p.2.msg) ∧ t.Kept ∧
      ∀ c : Call, c.Usual → ∃ t', t.append c = some t' ∧
        (t'.opened = t.opened ∨ t.Due c ∧ ∃ o, t'.opened = t.opened ++ [o]) := by
  have sound := sound_run positive run
  have empty : (constructed filename rollSize flushInterval checkLine pid now).appended = [] :=
    appended_rollFile _ _
  refine ⟨?_, sound.kept, ?_⟩
  · rw [appended_run run, empty, List.nil_append]
  · intro c _
    obtain ⟨t', done⟩ := append_isSome sound c
    exact ⟨t', done, opened_append sound done⟩

/-- A message in pieces of two bytes, at the turn of a day, with one append a check. -/
theorem messages_kept_two_days :
    let s := constructed (ascii "log") 100 3 1 7 951782399
    let c : Call := ⟨ascii "hello", fun _ => 2, fun _ => 951782400⟩
    ∃ t, Run Step s [(s, c)] t ∧ t.appended = [ascii "hello"] ∧ t.Kept := by
  intro s c
  have usual : c.Usual := ⟨fun _ => Nat.zero_lt_two, fun _ => Nat.succ_pos 951782399⟩
  obtain ⟨t, done⟩ := append_isSome (sound_run (by decide) (.nil s)) c
  have run : Run Step s [(s, c)] t := .cons ⟨usual, done⟩ (.nil t)
  obtain ⟨appended, kept, -⟩ := messages_kept (by decide) run
  exact ⟨t, run, appended, kept⟩

end LogFile

end LaliRpc.Base
