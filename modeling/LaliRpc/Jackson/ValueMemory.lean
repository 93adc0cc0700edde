/-
# Jackson.ValueMemory — values as they lie in memory

A `Value` is a type and a word; for a string, an array or an object the word points to a
cell that counts the values which point to it. The constructors, the assignments, the
setters, the destructor, `addValue` and `addMember` are here what they do to such memory:
copying a value shares its cell, and the destructor of the last one frees it. Touching a
freed cell, and failing an assertion, is a fault (`none`).
-/
import LaliRpc.Jackson.Value
import LaliRpc.Theory.RefCount

namespace LaliRpc.Jackson

set_option autoImplicit false

open Theory.RefCount

/-- A `Value`: `type_` and the member of the union it selects. -/
inductive Slot where
  | null
  | bool (b_ : Bool)
  | int32 (i32_ : Int32)
  | int64 (i64_ : Int64)
  | double (d_ : Double)
  | string (s_ : Nat)
  | array (a_ : Nat)
  | object (o_ : Nat)
  deriving DecidableEq

/-- The cell it points to. -/
def Slot.refs : Slot → List Nat
  | .string a | .array a | .object a => [a]
  | .null | .bool _ | .int32 _ | .int64 _ | .double _ => []

/-- The `data` of an `AddRefCount`. -/
inductive Data where
  | string (data : Bytes)
  | array (data : List Slot)
  | object (data : List (Slot × Slot))
  deriving DecidableEq

namespace Data

/-- The values in it, in the order of their destruction. -/
def slots : Data → List Slot
  | .string _ => []
  | .array values => values
  | .object members => members.flatMap fun m => [m.2, m.1]

def refs (d : Data) : List Nat := d.slots.flatMap Slot.refs

/-- `a_->data[i]`, `o_->data[i].value` -/
def get : Data → Nat → Option Slot
  | .string _, _ => none
  | .array values, i => values[i]?
  | .object members, i => members[i]?.map Prod.snd

def set : Data → Nat → Slot → Data
  | .string s, _, _ => .string s
  | .array values, i, v => .array (values.set i v)
  | .object members, i, v => .object (members.modify i fun m => (m.1, v))

end Data

/-- Where a value lies: it is a variable, an element of an array, or a member's value. -/
inductive Place where
  | var (x : Nat)
  | inside (a i : Nat)
  deriving DecidableEq

/-- The heap, and the variables in the order of their construction; `none` where the
destructor has run. -/
structure Memory where
  heap : Heap Data
  vars : List (Option Slot)

/-- What a `Value` is constructed from. The characters of a string lie outside of the
values. -/
inductive Init where
  | null
  | bool (b : Bool)
  | int32 (i32 : Int32)
  | int64 (i64 : Int64)
  | double (d : Double)
  | string (s : Bytes)
  | array
  | object

namespace Memory

def start : Memory := ⟨[], []⟩

def load (m : Memory) : Place → Option Slot
  | .var x => m.vars[x]?.join
  | .inside a i => (cell m.heap a).bind fun c => c.data.get i

/-- The memory with `v` at a place. -/
def assign (m : Memory) (p : Place) (v : Slot) : Memory :=
  match p with
  | .var x => { m with vars := m.vars.set x (some v) }
  | .inside a i =>
      match cell m.heap a with
      | none => m
      | some c => { m with heap := withData m.heap a (c.data.set i v) }

/-- Writing to a place, where there has to be a value. -/
def store (m : Memory) (p : Place) (v : Slot) : Option Memory :=
  (m.load p).map fun _ => m.assign p v

/-- A new variable. -/
def declare (m : Memory) (v : Slot) : Memory := { m with vars := m.vars ++ [some v] }

/-- The constructors that make a value. -/
def construct (h : Heap Data) : Init → Heap Data × Slot
  | .null => (h, .null)
  | .bool b => (h, .bool b)
  | .int32 i32 => (h, .int32 i32)
  | .int64 i64 => (h, .int64 i64)
  | .double d => (h, .double d)
  | .string s => (h ++ [some ⟨1, .string s⟩], .string h.length)
  | .array => (h ++ [some ⟨1, .array []⟩], .array h.length)
  | .object => (h ++ [some ⟨1, .object []⟩], .object h.length)

/-- What a copy does to the cell: `incrAndGet`. -/
def incr (h : Heap Data) (v : Slot) : Option (Heap Data) :=
  match v.refs with
  | [] => some h
  | a :: _ => retain h a

/-- `~Value`: `decrAndGet`, and `delete` of a cell that nothing points to. -/
def destroy (h : Heap Data) (v : Slot) : Option (Heap Data) := release Data.refs h v.refs

/-- `Value(const Value&)` -/
def copyConstruct (m : Memory) (rhs : Place) : Option Memory := do
  let v ← m.load rhs
  let heap ← incr m.heap v
  return { m with heap := heap }.declare v

/-- `Value(Value&&)` -/
def moveConstruct (m : Memory) (rhs : Place) : Option Memory := do
  let v ← m.load rhs
  let m ← m.store rhs .null
  return m.declare v

/-- The end of a variable. -/
def destruct (m : Memory) (x : Nat) : Option Memory := do
  let v ← m.load (.var x)
  let heap ← destroy m.heap v
  return { heap := heap, vars := m.vars.set x none }

/-- `operator=(const Value&)` -/
def copyAssign (m : Memory) (this rhs : Place) : Option Memory :=
  if this = rhs then none
  else do
    let old ← m.load this
    let heap ← destroy m.heap old
    let v ← { m with heap := heap }.load rhs
    let heap ← incr heap v
    { m with heap := heap }.store this v

/-- `operator=(Value&&)` -/
def moveAssign (m : Memory) (this rhs : Place) : Option Memory :=
  if this = rhs then none
  else do
    let old ← m.load this
    let heap ← destroy m.heap old
    let v ← { m with heap := heap }.load rhs
    let m ← { m with heap := heap }.store this v
    m.store rhs .null

/-- `getStringView` -/
def getStringView (h : Heap Data) : Slot → Option Bytes
  | .string s =>
      match cell h s with
      | some ⟨_, .string data⟩ => some data
      | _ => none
  | _ => none

/-- `setNull` to `setObject` -/
def setTo (m : Memory) (this : Place) (init : Init) : Option Memory := do
  let old ← m.load this
  let heap ← destroy m.heap old
  let (heap, v) := construct heap init
  { m with heap := heap }.store this v

/-- `setString`, of what a value's `getStringView` has given. The view is read when the
destructor has run; a view of nothing is not read. -/
def setView (m : Memory) (this value : Place) : Option Memory := do
  let view ← m.load value
  let s ← getStringView m.heap view
  let old ← m.load this
  let heap ← destroy m.heap old
  let s ← (if s = [] then some s else getStringView heap view)
  let (heap, v) := construct heap (.string s)
  { m with heap := heap }.store this v

/-! ## Arrays and objects -/

/-- `a_`, where the type is TYPE_ARRAY. -/
def arrayAt (m : Memory) (this : Place) : Option Nat :=
  match m.load this with
  | some (.array a) => some a
  | _ => none

/-- `o_`, where the type is TYPE_OBJECT. -/
def objectAt (m : Memory) (this : Place) : Option Nat :=
  match m.load this with
  | some (.object o) => some o
  | _ => none

def elements (h : Heap Data) (a : Nat) : Option (List Slot) :=
  match cell h a with
  | some ⟨_, .array data⟩ => some data
  | _ => none

def members (h : Heap Data) (o : Nat) : Option (List (Slot × Slot)) :=
  match cell h o with
  | some ⟨_, .object data⟩ => some data
  | _ => none

/-- `a_->data.emplace_back(v); return a_->data.back();` — the second `a_` is read again. -/
def emplaceBack (m : Memory) (this : Place) (a : Nat) (v : Slot) : Option Memory := do
  let values ← elements m.heap a
  let m := { m with heap := withData m.heap a (.array (values ++ [v])) }
  let _ ← m.arrayAt this
  return m

/-- `addValue`, from what a value is constructed from. -/
def addValue (m : Memory) (this : Place) (init : Init) : Option Memory := do
  let a ← m.arrayAt this
  let (heap, v) := construct m.heap init
  { m with heap := heap }.emplaceBack this a v

/-- `addValue(const Value&)` -/
def addValueCopy (m : Memory) (this value : Place) : Option Memory := do
  let a ← m.arrayAt this
  let v ← m.load value
  let heap ← incr m.heap v
  { m with heap := heap }.emplaceBack this a v

/-- `addValue(Value&&)` -/
def addValueMove (m : Memory) (this value : Place) : Option Memory := do
  let a ← m.arrayAt this
  let v ← m.load value
  let m ← m.store value .null
  m.emplaceBack this a v

/-- `findMember`: the place of the first member with that name, or the end. -/
def findMember (h : Heap Data) (key : Bytes) : List (Slot × Slot) → Option Nat
  | [] => some 0
  | m :: rest => do
      let name ← getStringView h m.1
      if name = key then return 0
      else (findMember h key rest).map (· + 1)

/-- `addMember(Value&&, Value&&)` -/
def addMember (m : Memory) (this key value : Place) : Option Memory := do
  let o ← m.objectAt this
  let k ← m.load key
  let name ← getStringView m.heap k
  let before ← members m.heap o
  let it ← findMember m.heap name before
  if it ≠ before.length then none
  else do
    let m ← m.store key .null
    let v ← m.load value
    let m ← m.store value .null
    let before ← members m.heap o
    let m := { m with heap := withData m.heap o (.object (before ++ [(k, v)])) }
    let _ ← m.objectAt this
    return m

/-- What a program does to its values. -/
inductive Op where
  | construct (init : Init)
  | copyConstruct (rhs : Place)
  | moveConstruct (rhs : Place)
  | destruct (x : Nat)
  | copyAssign (this rhs : Place)
  | moveAssign (this rhs : Place)
  | setTo (this : Place) (init : Init)
  | setView (this value : Place)
  | addValue (this : Place) (init : Init)
  | addValueCopy (this value : Place)
  | addValueMove (this value : Place)
  | addMember (this key value : Place)

def perform (m : Memory) : Op → Option Memory
  | .construct init =>
      let made := Memory.construct m.heap init
      some ({ m with heap := made.1 }.declare made.2)
  | .copyConstruct rhs => m.copyConstruct rhs
  | .moveConstruct rhs => m.moveConstruct rhs
  | .destruct x => m.destruct x
  | .copyAssign this rhs => m.copyAssign this rhs
  | .moveAssign this rhs => m.moveAssign this rhs
  | .setTo this init => m.setTo this init
  | .setView this value => m.setView this value
  | .addValue this init => m.addValue this init
  | .addValueCopy this value => m.addValueCopy this value
  | .addValueMove this value => m.addValueMove this value
  | .addMember this key value => m.addMember this key value

def Step (m : Memory) (op : Op) (m' : Memory) : Prop := m.perform op = some m'

end Memory

end LaliRpc.Jackson
