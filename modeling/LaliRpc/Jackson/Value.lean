/-
# Jackson.Value — JSON values

`Value` is what a `json::Value` holds: the tree that its cells spell out. The cells and
their reference counts are in `ValueMemory`. A double is its binary64 bits.
An accessor used on a value of the wrong type fails the assertion it starts
with, so accessors end in `Except Thrown`.
-/
import LaliRpc.Base.Bytes
import LaliRpc.Theory.Assoc

namespace LaliRpc.Jackson

set_option autoImplicit false

/-- `enum ValueType`. -/
inductive ValueType where
  | null | bool | int32 | int64 | double | string | array | object
  deriving DecidableEq, Repr

/-- An IEEE 754 binary64 value, as its bits. -/
abbrev Double := UInt64

inductive Value where
  | null
  | bool (b : Bool)
  | int32 (i : Int32)
  | int64 (i : Int64)
  | double (d : Double)
  | string (s : Bytes)
  | array (values : List Value)
  | object (members : List (Bytes × Value))
  deriving Repr

namespace Value

def getType : Value → ValueType
  | .null => .null
  | .bool _ => .bool
  | .int32 _ => .int32
  | .int64 _ => .int64
  | .double _ => .double
  | .string _ => .string
  | .array _ => .array
  | .object _ => .object

def getSize : Value → Nat
  | .array values => values.length
  | .object members => members.length
  | _ => 1

def isNull (v : Value) : Bool := v.getType = .null

def isObject (v : Value) : Bool := v.getType = .object

def isArray (v : Value) : Bool := v.getType = .array

def isString (v : Value) : Bool := v.getType = .string

def getBool : Value → Except Thrown Bool
  | .bool b => .ok b
  | _ => .error .assertion

def getInt32 : Value → Except Thrown Int32
  | .int32 i => .ok i
  | _ => .error .assertion

/-- Unlike `getInt32`, this getter takes either width. -/
def getInt64 : Value → Except Thrown Int64
  | .int64 i => .ok i
  | .int32 i => .ok i.toInt64
  | _ => .error .assertion

def getDouble : Value → Except Thrown Double
  | .double d => .ok d
  | _ => .error .assertion

def getStringView : Value → Except Thrown Bytes
  | .string s => .ok s
  | _ => .error .assertion

def getObject : Value → Except Thrown (List (Bytes × Value))
  | .object members => .ok members
  | _ => .error .assertion

/-- The member found under `key`, `none` for `memberEnd()`. -/
def findMember (v : Value) (key : Bytes) : Except Thrown (Option Value) :=
  match v with
  | .object members => .ok (members.lookup key)
  | _ => .error .assertion

/-- `operator[](key)`: a missing key fails an assertion. -/
def member (v : Value) (key : Bytes) : Except Thrown Value :=
  match v with
  | .object members =>
      match members.lookup key with
      | some value => .ok value
      | none => .error .assertion
  | _ => .error .assertion

/-- `operator[](i)`. An index out of bounds is undefined behaviour, for which
`assertion` stands too. -/
def element (v : Value) (i : Nat) : Except Thrown Value :=
  match v with
  | .array values =>
      match values[i]? with
      | some value => .ok value
      | none => .error .assertion
  | _ => .error .assertion

/-- `addMember`, which asserts that the key is new. -/
def addMember (v : Value) (key : Bytes) (value : Value) : Except Thrown Value :=
  match v with
  | .object members =>
      match members.lookup key with
      | none => .ok (.object (members ++ [(key, value)]))
      | some _ => .error .assertion
  | _ => .error .assertion

@[simp] theorem findMember_object (members : List (Bytes × Value)) (key : Bytes) :
    (object members).findMember key = .ok (members.lookup key) := rfl

theorem getInt32_ok_iff {v : Value} {i : Int32} : v.getInt32 = .ok i ↔ v = .int32 i := by
  cases v <;> simp [getInt32]

/-- A string value is what `getStringView` views. -/
theorem getStringView_ok_iff {v : Value} {s : Bytes} : v.getStringView = .ok s ↔ v = .string s := by
  cases v <;> simp [getStringView]

theorem getType_eq_int32_iff {v : Value} : v.getType = .int32 ↔ ∃ i, v = .int32 i := by
  cases v <;> simp [getType]

theorem getType_eq_string_iff {v : Value} : v.getType = .string ↔ ∃ s, v = .string s := by
  cases v <;> simp [getType]

theorem getType_eq_object_iff {v : Value} :
    v.getType = .object ↔ ∃ members, v = .object members := by
  cases v <;> simp [getType]

/-- No object inside the value has two members of one name. -/
inductive WellKeyed : Value → Prop where
  | null : WellKeyed .null
  | bool (b : Bool) : WellKeyed (.bool b)
  | int32 (i : Int32) : WellKeyed (.int32 i)
  | int64 (i : Int64) : WellKeyed (.int64 i)
  | double (d : Double) : WellKeyed (.double d)
  | string (s : Bytes) : WellKeyed (.string s)
  | array {values : List Value} (all : ∀ v ∈ values, WellKeyed v) : WellKeyed (.array values)
  | object {members : List (Bytes × Value)} (distinct : (members.map Prod.fst).Nodup)
      (all : ∀ m ∈ members, WellKeyed m.2) : WellKeyed (.object members)

theorem WellKeyed.distinct {members : List (Bytes × Value)} (h : WellKeyed (.object members)) :
    (members.map Prod.fst).Nodup := by
  cases h with
  | object distinct _ => exact distinct

theorem WellKeyed.elements {values : List Value} (h : WellKeyed (.array values)) :
    ∀ v ∈ values, WellKeyed v := by
  cases h with
  | array all => exact all

/-! ## Equality is decidable -/

mutual

def beq : Value → Value → Bool
  | .null, .null => true
  | .bool b, .bool c => b == c
  | .int32 i, .int32 j => i == j
  | .int64 i, .int64 j => i == j
  | .double d, .double e => d == e
  | .string s, .string t => s == t
  | .array vs, .array ws => beqValues vs ws
  | .object ms, .object ns => beqMembers ms ns
  | _, _ => false

def beqValues : List Value → List Value → Bool
  | [], [] => true
  | v :: vs, w :: ws => beq v w && beqValues vs ws
  | _, _ => false

def beqMembers : List (Bytes × Value) → List (Bytes × Value) → Bool
  | [], [] => true
  | (k, v) :: ms, (l, w) :: ns => k == l && beq v w && beqMembers ms ns
  | _, _ => false

end

mutual

theorem beq_iff : ∀ v w : Value, beq v w = true ↔ v = w
  | .null, w => by cases w <;> simp [beq]
  | .bool b, w => by cases w <;> simp [beq]
  | .int32 i, w => by cases w <;> simp [beq]
  | .int64 i, w => by cases w <;> simp [beq]
  | .double d, w => by cases w <;> simp [beq]
  | .string s, w => by cases w <;> simp [beq]
  | .array vs, w => by cases w <;> simp [beq, beqValues_iff vs]
  | .object ms, w => by cases w <;> simp [beq, beqMembers_iff ms]

theorem beqValues_iff : ∀ vs ws : List Value, beqValues vs ws = true ↔ vs = ws
  | [], ws => by cases ws <;> simp [beqValues]
  | v :: vs, ws => by cases ws <;> simp [beqValues, beq_iff v, beqValues_iff vs]

theorem beqMembers_iff : ∀ ms ns : List (Bytes × Value), beqMembers ms ns = true ↔ ms = ns
  | [], ns => by cases ns <;> simp [beqMembers]
  | (k, v) :: ms, [] => by simp [beqMembers]
  | (k, v) :: ms, (l, w) :: ns => by simp [beqMembers, beq_iff v, beqMembers_iff ms]

end

instance : DecidableEq Value := fun v w => decidable_of_iff (beq v w = true) (beq_iff v w)

end Value

end LaliRpc.Jackson
