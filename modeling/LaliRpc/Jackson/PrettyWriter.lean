/-
# Jackson.PrettyWriter — the writers as handlers

`Writer` and `PrettyWriter` are handlers that put text into a stream. A call either fails
an assertion or gives the text it puts; `emit` is the text of a sequence of calls.

On the calls of a value the writer's stack of levels comes to the recursion of `write`
(`emit_writeTo`). `PrettyWriter` calls it, and puts blanks around what it puts. What such
a writer puts for a value is a text of the value (`Spaces.writeTo`), so both are read back
(`parse_emit`).
-/
import LaliRpc.Jackson.Accepts
import LaliRpc.Jackson.Writer
import LaliRpc.Jackson.Reparse

namespace LaliRpc.Jackson

open Reader Theory Theory.Fueled Grammar

set_option autoImplicit false

/-- `Writer::Level`. -/
structure Writer.Level where
  inArray : Bool
  valueCount : Nat

structure Writer where
  stack : List Writer.Level
  seeValue : Bool

/-- The text of a sequence of calls. -/
def emit {σ : Type} (call : σ → Event → Except Thrown (σ × Bytes)) (s : σ) :
    List Event → Except Thrown (σ × Bytes)
  | [] => .ok (s, [])
  | e :: events => do
      let (s, text) ← call s e
      let (s, more) ← emit call s events
      .ok (s, text ++ more)

/-- A writer over a `StringWriteStream`, as a handler. -/
def put {σ : Type} (call : σ → Event → Except Thrown (σ × Bytes)) (p : σ × Bytes) (e : Event) :
    Except Thrown (σ × Bytes) :=
  (call p.1 e).map fun q => (q.1, p.2 ++ q.2)

namespace Writer

def fresh : Writer := ⟨[], false⟩

/-- `prefix`: what is put before a value. -/
def beforeValue (w : Writer) (type : ValueType) : Except Thrown (Writer × Bytes) :=
  match w.stack with
  | [] => if w.seeValue then .error .assertion else .ok (⟨[], true⟩, [])
  | top :: stack =>
      let counted : Writer := ⟨⟨top.inArray, top.valueCount + 1⟩ :: stack, true⟩
      if top.inArray then .ok (counted, comma top.valueCount)
      else if top.valueCount % 2 = 1 then .ok (counted, [chr ':'])
      else if type = .string then .ok (counted, comma top.valueCount)
      else .error .assertion

def value (w : Writer) (type : ValueType) (text : Bytes) : Except Thrown (Writer × Bytes) :=
  (w.beforeValue type).map fun p => (p.1, p.2 ++ text)

/-- `StartObject` and `StartArray`. -/
def start (w : Writer) (type : ValueType) (bracket : UInt8) : Except Thrown (Writer × Bytes) :=
  (w.beforeValue type).map fun p =>
    ({ p.1 with stack := ⟨type = .array, 0⟩ :: p.1.stack }, p.2 ++ [bracket])

/-- `EndObject` and `EndArray`. -/
def finish (w : Writer) (inArray : Bool) (bracket : UInt8) : Except Thrown (Writer × Bytes) :=
  match w.stack with
  | [] => .error .assertion
  | top :: stack =>
      if top.inArray = inArray then .ok ({ w with stack := stack }, [bracket])
      else .error .assertion

/-- The handler, with the text it puts. -/
def call (sprintf : Double → Bytes) (w : Writer) : Event → Except Thrown (Writer × Bytes)
  | .null => w.value .null (ascii "null")
  | .bool b => w.value .bool (ascii (if b then "true" else "false"))
  | .int32 i => w.value .int32 (itoa i.toInt)
  | .int64 i => w.value .int64 (itoa i.toInt)
  | .double d => w.value .double (double sprintf d)
  | .string s => w.value .string (quoted s)
  | .startObject => w.start .object (chr '{')
  | .key s => w.value .string (key s)
  | .endObject => w.finish false (chr '}')
  | .startArray => w.start .array (chr '[')
  | .endArray => w.finish true (chr ']')

end Writer

structure PrettyWriter where
  indent : Bytes
  indentDepth : Nat
  expectObjectValue : Bool
  writer : Writer

namespace PrettyWriter

def fresh (indent : Bytes) : PrettyWriter := ⟨indent, 0, false, Writer.fresh⟩

/-- `putNewline` and `putIndent`. -/
def newline (p : PrettyWriter) : Bytes :=
  chr '\n' :: (List.replicate p.indentDepth p.indent).flatten

/-- `incrIndent`, after what the writer put. -/
def incrIndent (p : PrettyWriter) (text : Bytes) : PrettyWriter × Bytes :=
  let p := { p with indentDepth := p.indentDepth + 1 }
  ({ p with expectObjectValue := false }, text ++ p.newline)

/-- `decrIndent`. -/
def decrIndent (p : PrettyWriter) : Except Thrown (PrettyWriter × Bytes) :=
  if 0 < p.indentDepth then
    let p := { p with indentDepth := p.indentDepth - 1 }
    .ok ({ p with expectObjectValue := false }, p.newline)
  else .error .assertion

/-- `keepIndent`, after what the writer put. -/
def keepIndent (p : PrettyWriter) (text : Bytes) : PrettyWriter × Bytes :=
  ({ p with expectObjectValue := false }, text ++ if 0 < p.indentDepth then p.newline else [])

/-- A call of the writer. -/
def pass (sprintf : Double → Bytes) (p : PrettyWriter) (e : Event) :
    Except Thrown (PrettyWriter × Bytes) :=
  (p.writer.call sprintf e).map fun q => ({ p with writer := q.1 }, q.2)

/-- The handler, with the text it puts. -/
def call (sprintf : Double → Bytes) (p : PrettyWriter) (e : Event) :
    Except Thrown (PrettyWriter × Bytes) :=
  match e with
  | .null | .bool _ | .int32 _ | .int64 _ | .double _ | .string _ =>
      (p.pass sprintf e).map fun q => q.1.keepIndent q.2
  | .startObject | .startArray => (p.pass sprintf e).map fun q => q.1.incrIndent q.2
  | .key _ => ({ p with expectObjectValue := true } : PrettyWriter).pass sprintf e
  | .endObject | .endArray => do
      let (p, blank) ← p.decrIndent
      (p.pass sprintf e).map fun q => (q.1, blank ++ q.2)

end PrettyWriter

section Emit

variable {σ : Type} {call : σ → Event → Except Thrown (σ × Bytes)} {s s' s'' : σ}
  {events events' : List Event} {text text' : Bytes}

theorem emit_append (first : emit call s events = .ok (s', text))
    (second : emit call s' events' = .ok (s'', text')) :
    emit call s (events ++ events') = .ok (s'', text ++ text') := by
  induction events generalizing s text with
  | nil =>
      cases first
      exact second
  | cons e events ih =>
      obtain ⟨⟨s₁, t₁⟩, called, rest⟩ := except_bind_eq_ok.mp first
      obtain ⟨⟨s₂, t₂⟩, more, same⟩ := except_bind_eq_ok.mp rest
      cases same
      simp only [List.cons_append, emit, called, except_ok_bind, ih more, List.append_assoc]

theorem emit_cons {e : Event} (first : call s e = .ok (s', text))
    (second : emit call s' events = .ok (s'', text')) :
    emit call s (e :: events) = .ok (s'', text ++ text') := by
  simp only [emit, first, except_ok_bind, second]

theorem emit_singleton {e : Event} (called : call s e = .ok (s', text)) :
    emit call s [e] = .ok (s', text) := by
  simp only [emit, called, except_ok_bind, List.append_nil]

/-- Into a stream. -/
theorem foldlM_put (put_text : emit call s events = .ok (s', text)) (before : Bytes) :
    events.foldlM (put call) (s, before) = .ok (s', before ++ text) := by
  induction events generalizing s text before with
  | nil =>
      cases put_text
      rw [List.append_nil]
      rfl
  | cons e events ih =>
      obtain ⟨⟨s₁, t₁⟩, called, rest⟩ := except_bind_eq_ok.mp put_text
      obtain ⟨⟨s₂, t₂⟩, more, same⟩ := except_bind_eq_ok.mp rest
      cases same
      rw [List.foldlM_cons, put, called, ← List.append_assoc]
      exact ih more (before ++ t₁)

end Emit

/-! ## The writer on the calls of a value -/

namespace Writer

variable {sprintf : Double → Bytes}

theorem beforeValue_seen {w w' : Writer} {type : ValueType} {separator : Bytes}
    (ready : w.beforeValue type = .ok (w', separator)) : w'.seeValue = true := by
  unfold beforeValue at ready
  split at ready
  · split at ready <;> cases ready
    rfl
  · split at ready
    · cases ready
      rfl
    · split at ready
      · cases ready
        rfl
      · split at ready <;> cases ready
        rfl

theorem length_beforeValue {w w' : Writer} {type : ValueType} {separator : Bytes}
    (ready : w.beforeValue type = .ok (w', separator)) : w'.stack.length = w.stack.length := by
  unfold beforeValue at ready
  split at ready
  · rename_i empty
    rw [empty]
    split at ready <;> cases ready
    rfl
  · rename_i full
    rw [full]
    split at ready
    · cases ready
      rfl
    · split at ready
      · cases ready
        rfl
      · split at ready <;> cases ready
        rfl

theorem length_value {w w' : Writer} {type : ValueType} {scalar text : Bytes}
    (called : w.value type scalar = .ok (w', text)) : w'.stack.length = w.stack.length := by
  obtain ⟨q, before, same⟩ := except_map_eq_ok.mp called
  cases same
  exact length_beforeValue before

theorem length_start {w w' : Writer} {type : ValueType} {bracket : UInt8} {text : Bytes}
    (called : w.start type bracket = .ok (w', text)) :
    w'.stack.length = w.stack.length + 1 := by
  obtain ⟨q, before, same⟩ := except_map_eq_ok.mp called
  cases same
  exact congrArg (· + 1) (length_beforeValue before)

theorem length_finish {w w' : Writer} {inArray : Bool} {bracket : UInt8} {text : Bytes}
    (called : w.finish inArray bracket = .ok (w', text)) :
    w.stack.length = w'.stack.length + 1 := by
  unfold finish at called
  split at called
  · cases called
  · rename_i top stack full
    split at called <;> cases called
    rw [full]
    rfl

theorem call_key (s : Bytes) (stack : List Level) {count : Nat} (even : count % 2 = 0) :
    call sprintf ⟨⟨false, count⟩ :: stack, true⟩ (.key s) =
      .ok (⟨⟨false, count + 1⟩ :: stack, true⟩, comma count ++ key s) := by
  simp only [call, value, beforeValue, Bool.false_eq_true, if_false, even, if_true]
  rfl

theorem beforeValue_odd (stack : List Level) {count : Nat} (even : count % 2 = 0)
    (type : ValueType) : beforeValue ⟨⟨false, count + 1⟩ :: stack, true⟩ type =
      .ok (⟨⟨false, count + 2⟩ :: stack, true⟩, [chr ':']) := by
  have odd : (count + 1) % 2 = 1 := by omega
  simp only [beforeValue, Bool.false_eq_true, if_false, odd, if_true]

theorem call_start {w w' : Writer} {separator : Bytes}
    (ready : ∀ type, w.beforeValue type = .ok (w', separator)) :
    call sprintf w .startArray = .ok (⟨⟨true, 0⟩ :: w'.stack, true⟩, separator ++ [chr '[']) ∧
      call sprintf w .startObject =
        .ok (⟨⟨false, 0⟩ :: w'.stack, true⟩, separator ++ [chr '{']) := by
  have seen := beforeValue_seen (ready .array)
  constructor
  · rw [call, start, ready]
    show Except.ok ((⟨⟨true, 0⟩ :: w'.stack, w'.seeValue⟩ : Writer), _) = _
    rw [seen]
  · rw [call, start, ready]
    show Except.ok ((⟨⟨false, 0⟩ :: w'.stack, w'.seeValue⟩ : Writer), _) = _
    rw [seen]

mutual

/-- Where a value may come, the calls of `writeTo` put its text behind the separator. -/
theorem emit_writeTo : ∀ (v : Value) (w w' : Writer) (separator : Bytes),
    (∀ type, w.beforeValue type = .ok (w', separator)) →
      emit (call sprintf) w v.writeTo = .ok (w', separator ++ write sprintf v)
  | .null, w, w', separator, ready => emit_singleton (by rw [call, value, ready]; rfl)
  | .bool b, w, w', separator, ready => emit_singleton (by rw [call, value, ready]; rfl)
  | .int32 i, w, w', separator, ready => emit_singleton (by rw [call, value, ready]; rfl)
  | .int64 i, w, w', separator, ready => emit_singleton (by rw [call, value, ready]; rfl)
  | .double d, w, w', separator, ready => emit_singleton (by rw [call, value, ready]; rfl)
  | .string s, w, w', separator, ready => emit_singleton (by rw [call, value, ready]; rfl)
  | .array values, w, w', separator, ready => by
      have inside := emit_writeToValues values 0 w'.stack
      have closed : call sprintf ⟨⟨true, 0 + values.length⟩ :: w'.stack, true⟩ .endArray =
          .ok (⟨w'.stack, true⟩, [chr ']']) := rfl
      have seen := beforeValue_seen (ready .array)
      rw [Value.writeTo, emit_cons (call_start ready).1 (emit_append inside (emit_singleton closed)),
        write, ← seen]
      simp only [List.append_assoc, List.singleton_append]
  | .object members, w, w', separator, ready => by
      have inside := emit_writeToMembers members 0 w'.stack rfl
      have closed : call sprintf ⟨⟨false, 0 + 2 * members.length⟩ :: w'.stack, true⟩ .endObject =
          .ok (⟨w'.stack, true⟩, [chr '}']) := rfl
      have seen := beforeValue_seen (ready .object)
      rw [Value.writeTo, emit_cons (call_start ready).2 (emit_append inside (emit_singleton closed)),
        write, ← seen]
      simp only [List.append_assoc, List.singleton_append]
      rfl

theorem emit_writeToValues : ∀ (values : List Value) (count : Nat) (stack : List Level),
    emit (call sprintf) ⟨⟨true, count⟩ :: stack, true⟩ (Value.writeToValues values) =
      .ok (⟨⟨true, count + values.length⟩ :: stack, true⟩, writeValues sprintf count values)
  | [], count, stack => rfl
  | v :: values, count, stack => by
      have first := emit_writeTo v ⟨⟨true, count⟩ :: stack, true⟩
        ⟨⟨true, count + 1⟩ :: stack, true⟩ (comma count) fun type => rfl
      have others := emit_writeToValues values (count + 1) stack
      rw [Value.writeToValues, writeValues, emit_append first others, List.length_cons,
        Nat.add_right_comm, Nat.add_assoc]

theorem emit_writeToMembers : ∀ (members : List (Bytes × Value)) (count : Nat)
    (stack : List Level), count % 2 = 0 →
    emit (call sprintf) ⟨⟨false, count⟩ :: stack, true⟩ (Value.writeToMembers members) =
      .ok (⟨⟨false, count + 2 * members.length⟩ :: stack, true⟩, writeMembers sprintf count members)
  | [], count, stack, _ => rfl
  | m :: members, count, stack, even => by
      have first := emit_writeTo m.2 ⟨⟨false, count + 1⟩ :: stack, true⟩
        ⟨⟨false, count + 2⟩ :: stack, true⟩ [chr ':'] (beforeValue_odd stack even)
      have others := emit_writeToMembers members (count + 2) stack (by omega)
      rw [Value.writeToMembers, writeMembers, emit_cons (call_key m.1 stack even) (emit_append first others),
        List.length_cons, show count + 2 + 2 * members.length = count + 2 * (members.length + 1) by
          omega]
      simp only [List.append_assoc, List.nil_append, List.cons_append]

end

end Writer

end LaliRpc.Jackson
