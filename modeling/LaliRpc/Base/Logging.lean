/-
# Base.Logging — a record and its newline

A `Logger` streams the time, the thread's name and id, then the operands; `~Logger`
streams the file name, the line number and a newline behind them and hands the buffer
over. What does not fit is left out, and the newline may be what does not fit: it is
the last of five operands, each of which may have filled the buffer. The four lemmas
on what stands in front of the newline go backwards from it (`endsLine_newline` to
`endsLine_closing`).
-/
import LaliRpc.Base.Calendar
import LaliRpc.Base.Logstream

namespace LaliRpc.Base

set_option autoImplicit false

/-- What the constructor of `Impl` asks the system. -/
structure Context where
  microSecondsSinceEpoch : Nat
  threadName : Option Bytes
  tid : Int32

structure Logger where
  stream : Logstream
  line : Int32
  filename : Option Bytes

namespace Logger

/-- `%4d`. -/
def spaced (width d : Nat) : Bytes :=
  List.replicate (width - (toDecimal d).length) 32 ++ toDecimal d

/-- What `formatTime` streams, of which 63 characters fit into its `buf`. -/
def formatTime (microSecondsSinceEpoch : Nat) : Bytes :=
  let kMicroSecondsPerSecond := 1000 * 1000
  let tm := gmtime (microSecondsSinceEpoch / kMicroSecondsPerSecond)
  let microseconds := microSecondsSinceEpoch % kMicroSecondsPerSecond
  (spaced 4 tm.year ++ padded 2 (tm.mon + 1) ++ padded 2 tm.mday ++ ascii " " ++
    padded 2 tm.hour ++ ascii ":" ++ padded 2 tm.min ++ ascii ":" ++ padded 2 tm.sec ++
    ascii "." ++ padded 6 microseconds).take 63

example : formatTime 951782400000007 = ascii "20000229 00:00:00.000007" := by decide +kernel

/-- What the constructor streams. -/
def opening (context : Context) : List Operand :=
  [.cstr (some (formatTime context.microSecondsSinceEpoch)), .cstr context.threadName,
    .int context.tid]

/-- What `finsh` streams. -/
def closing (filename : Option Bytes) (line : Int32) : List Operand :=
  [.cstr (some (ascii "-")), .cstr filename, .cstr (some (ascii ":")), .int line,
    .cstr (some (ascii "\n"))]

/-- `stream() << …`. -/
def put (l : Logger) (os : List Operand) : Option Logger :=
  (l.stream.putAll os).map fun stream => { l with stream }

/-- The constructor. -/
def new (filename : Option Bytes) (line : Int32) (context : Context) : Option Logger :=
  (Logger.mk ⟨.fresh⟩ line filename).put (opening context)

def finsh (l : Logger) : Option Logger := l.put (closing l.filename l.line)

/-- `~Logger`: what is passed to `F_output`. -/
def output (l : Logger) : Option Bytes := l.finsh.map fun l => l.stream.buffer.data

/-- `LOG << …`, up to the destructor. -/
def logged (filename : Option Bytes) (line : Int32) (context : Context) (os : List Operand) :
    Option Logger :=
  (new filename line context).bind fun l => l.put os

example :
    (logged (some (ascii "server.cpp")) 42 ⟨951782400000007, some (ascii "main"), 7⟩
      [.string (ascii " n = "), .long (-50), .bool true]).bind output =
        some (ascii "20000229 00:00:00.000007main7 n = -501-server.cpp:42\n") := by decide +kernel

/-! ## What a record is -/

theorem put_spec (l : Logger) (os : List Operand) :
    ∃ l', l.put os = some l' ∧ l'.filename = l.filename ∧ l'.line = l.line ∧
      l'.stream.buffer.data = os.foldl streamed l.stream.buffer.data := by
  obtain ⟨stream, put, data⟩ := l.stream.putAll_spec os
  refine ⟨{ l with stream }, ?_, rfl, rfl, data⟩
  rw [Logger.put, put, Option.map_some]

theorem logged_spec (filename : Option Bytes) (line : Int32) (context : Context)
    (os : List Operand) :
    ∃ l, logged filename line context os = some l ∧ l.filename = filename ∧ l.line = line ∧
      l.stream.buffer.data = (opening context ++ os).foldl streamed [] := by
  obtain ⟨l, made, name, number, first⟩ := put_spec ⟨⟨.fresh⟩, line, filename⟩ (opening context)
  obtain ⟨l', put, name', number', all⟩ := l.put_spec os
  refine ⟨l', ?_, name'.trans name, number'.trans number, ?_⟩
  · rw [logged, new, made, Option.bind_some, put]
  · rw [all, first, List.foldl_append]
    rfl

theorem output_spec (l : Logger) :
    l.output = some ((closing l.filename l.line).foldl streamed l.stream.buffer.data) := by
  obtain ⟨l', put, -, -, data⟩ := l.put_spec (closing l.filename l.line)
  rw [output, finsh, put, Option.map_some, data]

/-! ## Where the newline goes -/

def EndsLine (d : Bytes) : Prop := d.getLast? = some 10

instance (d : Bytes) : Decidable (EndsLine d) := inferInstanceAs (Decidable (_ = _))

theorem endsLine_append (d e : Bytes) : EndsLine (d ++ e) ↔ EndsLine e ∨ e = [] ∧ EndsLine d := by
  rw [EndsLine, List.getLast?_append]
  cases last : e.getLast? with
  | none =>
      rw [List.getLast?_eq_none_iff.mp last]
      simp [EndsLine]
  | some c =>
      have more : e ≠ [] := by
        rintro rfl
        cases last
      simp [EndsLine, last, more]

/-- When `~Logger` begins: the newline will fit, or without it the buffer is full behind a
file name, or was full before, that ends in one. -/
def Closes (d name : Bytes) : Prop :=
  d.length < 3997 ∧ d.length + name.length ≠ 3997 ∧ d.length + name.length ≠ 3998 ∨
    d.length < 3998 ∧ d.length + name.length = 3998 ∧ EndsLine name ∨
    d.length = 3999 ∧ EndsLine d

section Closing

variable {d : Bytes}

/-- A text goes behind the others when it leaves a byte free. -/
theorem streamed_cstr (d : Bytes) (v : Option Bytes) :
    streamed d (.cstr v) =
      if d.length + (Logstream.cstring v).length < 4000 then d ++ Logstream.cstring v else d := by
  have need : (Operand.cstr v).need = (Logstream.cstring v).length + 1 := rfl
  have size : kSmallBuffer = 4000 := rfl
  rw [streamed, need]
  by_cases room : d.length + (Logstream.cstring v).length < 4000
  · rw [if_pos (by omega), if_pos room]
    rfl
  · rw [if_neg (by omega), if_neg room]

/-- The newline fits where a byte more than itself is free. -/
theorem endsLine_newline (spare : d.length < 4000) :
    EndsLine (streamed d (.cstr (some (ascii "\n")))) ↔ d.length < 3999 ∨ EndsLine d := by
  have text : Logstream.cstring (some (ascii "\n")) = [10] := by decide +kernel
  rw [streamed_cstr, text, List.length_singleton]
  by_cases room : d.length < 3999
  · rw [if_pos (by omega)]
    exact iff_of_true ((endsLine_append _ _).mpr (.inl rfl)) (.inl room)
  · rw [if_neg (by omega)]
    exact ⟨.inr, fun h => h.resolve_left room⟩

/-- The line number asks for more room than it takes. -/
theorem endsLine_line (line : Int32) :
    (streamed d (.int line)).length < 3999 ∨ EndsLine (streamed d (.int line)) ↔
      d.length < 3999 ∨ EndsLine d := by
  have size : kSmallBuffer = 4000 := rfl
  have need : (Operand.int line).need = 32 := rfl
  have low := line.le_toInt
  have high := line.toInt_lt
  have short : (Operand.int line).text.length ≤ 20 :=
    length_decimal_le (by omega) (by omega)
  rw [streamed, need]
  by_cases room : 32 ≤ kSmallBuffer - d.length
  · rw [if_pos room, List.length_append]
    exact iff_of_true (.inl (by omega)) (.inl (by omega))
  · rw [if_neg room]

theorem endsLine_colon (spare : d.length < 4000) :
    (streamed d (.cstr (some (ascii ":")))).length < 3999 ∨
        EndsLine (streamed d (.cstr (some (ascii ":")))) ↔
      d.length < 3998 ∨ d.length = 3999 ∧ EndsLine d := by
  have text : Logstream.cstring (some (ascii ":")) = [58] := by decide +kernel
  rw [streamed_cstr, text, List.length_singleton]
  by_cases room : d.length + 1 < 4000
  · have last : ¬ EndsLine (d ++ [58]) := by simp [EndsLine]
    rw [if_pos room, List.length_append, List.length_singleton, or_iff_left last]
    omega
  · have full : d.length = 3999 := by omega
    rw [if_neg room]
    simp [full]

/-- **What the newline depends on** is how full the buffer is and how long the name. -/
theorem endsLine_closing (spare : d.length < 4000) (filename : Option Bytes) (line : Int32) :
    EndsLine ((closing filename line).foldl streamed d) ↔
      Closes d (Logstream.cstring filename) := by
  have named :=
    length_streamed (length_streamed spare (.cstr (some (ascii "-")))) (.cstr filename)
  have numbered := length_streamed (length_streamed named (.cstr (some (ascii ":")))) (.int line)
  have dash : Logstream.cstring (some (ascii "-")) = [45] := by decide +kernel
  simp only [closing, List.foldl_cons, List.foldl_nil]
  rw [endsLine_newline numbered, endsLine_line, endsLine_colon named, streamed_cstr _ filename,
    streamed_cstr d, dash, List.length_singleton]
  by_cases begun : d.length + 1 < 4000
  · have last : ¬ EndsLine (d ++ [45]) := by simp [EndsLine]
    rw [if_pos begun, List.length_append, List.length_singleton]
    by_cases fits : d.length + 1 + (Logstream.cstring filename).length < 4000
    · have behind : EndsLine (d ++ [45] ++ Logstream.cstring filename) ↔
          EndsLine (Logstream.cstring filename) := by
        rw [endsLine_append, or_iff_left fun dashed => last dashed.2]
      rw [if_pos fits, List.length_append, List.length_append, List.length_singleton, behind, Closes]
      by_cases ends : EndsLine (Logstream.cstring filename)
      · have long : 0 < (Logstream.cstring filename).length := by
          rw [List.length_pos_iff]
          intro none
          rw [none] at ends
          cases ends
        simp only [ends, and_true]
        omega
      · simp only [ends, and_false, or_false, false_or]
        omega
    · rw [if_neg fits, List.length_append, List.length_singleton, Closes]
      simp only [last, and_false, or_false]
      omega
  · have full : d.length = 3999 := by omega
    rw [if_neg begun, Closes]
    by_cases none : Logstream.cstring filename = []
    · simp [none, full]
    · have long := List.length_pos_iff.mpr none
      rw [if_neg (by omega)]
      simp [full]

end Closing

/-- **A record is a line exactly when the newline finds room**, or what fills the buffer in
its place ends in one; it is never longer than 3999 bytes. -/
theorem record_line_iff (filename : Option Bytes) (line : Int32) (context : Context)
    (os : List Operand) :
    ∃ l r, logged filename line context os = some l ∧ l.output = some r ∧
      (r.length ≤ 3999 ∧ EndsLine r ↔
        Closes l.stream.buffer.data (Logstream.cstring filename)) := by
  obtain ⟨l, made, name, number, data⟩ := logged_spec filename line context os
  have spare : l.stream.buffer.data.length < 4000 := by
    rw [data]
    exact length_foldl_streamed (by decide) _
  refine ⟨l, _, made, l.output_spec, ?_⟩
  rw [name, endsLine_closing spare]
  exact and_iff_right (Nat.le_of_lt_succ (length_foldl_streamed spare _))

/-- With 3998 bytes in front of it the "-" fills the buffer. -/
theorem record_without_newline :
    ¬ ∀ filename line context os, ∃ l r, logged filename line context os = some l ∧
      l.output = some r ∧ r.length ≤ 3999 ∧ EndsLine r := by
  intro all
  let name : Option Bytes := some (ascii "server.cpp")
  let context : Context := ⟨951782400000000, some (ascii "main"), 7⟩
  let os : List Operand := [.string (List.replicate 3969 97)]
  obtain ⟨l, r, made, passed, -, ends⟩ := all name 42 context os
  obtain ⟨l', made', filename, line, data⟩ := logged_spec name 42 context os
  obtain rfl := Option.some.inj (made'.symm.trans made)
  obtain rfl := Option.some.inj (l'.output_spec.symm.trans passed)
  have begun : (opening context).foldl streamed [] = ascii "20000229 00:00:00.000000main7" := by
    decide +kernel
  have filled : l'.stream.buffer.data.length = 3998 := by
    have room : (Operand.string (List.replicate 3969 97)).need ≤
        kSmallBuffer - (ascii "20000229 00:00:00.000000main7").length := by decide +kernel
    rw [data, List.foldl_append, begun, List.foldl_cons, List.foldl_nil, streamed, if_pos room,
      List.length_append]
    decide +kernel
  have closes := (endsLine_closing (by omega) l'.filename l'.line).mp ends
  rw [Closes, filled] at closes
  omega

/-- Parts that are short enough together make a line. -/
theorem closes_of_short {name : Bytes} {os : List Operand}
    (short : (os.map fun o => o.text.length).sum + name.length < 3997) :
    Closes (os.foldl streamed []) name := by
  have length := length_foldl_streamed_le [] os
  rw [List.length_nil] at length
  exact .inl (by omega)

end Logger

end LaliRpc.Base
