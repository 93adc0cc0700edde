/-
# Jackson.Writer — values as text

`Writer` over a `StringWriteStream`, driven by `Value::writeTo`. The text of a
double is what `sprintf("%.17g")` makes of it, a function of the C library that is
left as a parameter. Member names are written as they are; only strings are
escaped.
-/
import LaliRpc.Jackson.Reader

namespace LaliRpc.Jackson.Writer

set_option autoImplicit false

/-- `itoa`, which writes canonical decimal text. -/
def itoa (i : Int) : Bytes :=
  if i < 0 then chr '-' :: toDecimal i.natAbs else toDecimal i.natAbs

/-- An upper-case hexadecimal digit. -/
def hexDigit (n : Nat) : UInt8 := UInt8.ofNat (if n < 10 then 48 + n else 55 + n)

/-- One character of a string. -/
def escape (c : UInt8) : Bytes :=
  if c = chr '"' then ascii "\\\""
  else if c = 8 then ascii "\\b"
  else if c = 12 then ascii "\\f"
  else if c = chr '\n' then ascii "\\n"
  else if c = chr '\r' then ascii "\\r"
  else if c = chr '\t' then ascii "\\t"
  else if c = chr '\\' then ascii "\\\\"
  else if c < 0x20 then ascii "\\u00" ++ [hexDigit (c.toNat / 16), hexDigit (c.toNat % 16)]
  else [c]

/-- `String`. -/
def quoted (s : Bytes) : Bytes := chr '"' :: (s.flatMap escape ++ [chr '"'])

/-- `Key`. -/
def key (s : Bytes) : Bytes := chr '"' :: (s ++ [chr '"'])

section Write

variable (sprintf : Double → Bytes)

/-- `Double`. The sign of an infinity is lost, and `.0` is added to a text of
digits alone. -/
def double (d : Double) : Bytes :=
  let magnitude := d &&& 0x7FFFFFFFFFFFFFFF
  if magnitude = Reader.infinity then ascii "Infinity"
  else if Reader.infinity < magnitude then ascii "NaN"
  else if (sprintf d).all isDigit then sprintf d ++ ascii ".0"
  else sprintf d

/-- The comma `prefix` puts before every value of a level but the first. -/
def comma (valueCount : Nat) : Bytes := if 0 < valueCount then [chr ','] else []

mutual

/-- `writeTo`. -/
def write : Value → Bytes
  | .null => ascii "null"
  | .bool b => ascii (if b then "true" else "false")
  | .int32 i => itoa i.toInt
  | .int64 i => itoa i.toInt
  | .double d => double sprintf d
  | .string s => quoted s
  | .array values => chr '[' :: (writeValues 0 values ++ [chr ']'])
  | .object members => 0x7B :: (writeMembers 0 members ++ [0x7D])

def writeValues (valueCount : Nat) : List Value → Bytes
  | [] => []
  | v :: values => comma valueCount ++ write v ++ writeValues (valueCount + 1) values

def writeMembers (valueCount : Nat) : List (Bytes × Value) → Bytes
  | [] => []
  | m :: members =>
      comma valueCount ++ key m.1 ++ chr ':' :: write m.2 ++ writeMembers (valueCount + 2) members

end

end Write

/-- A `sprintf` for values without doubles. -/
def noDoubles : Double → Bytes := fun _ => []

theorem escape_ne_nil (c : UInt8) : escape c ≠ [] := by
  unfold escape
  repeat' split
  all_goals simp [ascii]

/-- A string is at least as long as text as it is. -/
theorem length_le_quoted (s : Bytes) : s.length + 2 ≤ (quoted s).length := by
  have escaped : s.length ≤ (s.flatMap escape).length := by
    induction s with
    | nil => exact Nat.le_refl 0
    | cons c s ih =>
        have := List.length_pos_iff.mpr (escape_ne_nil c)
        rw [List.flatMap_cons, List.length_append, List.length_cons]
        omega
  simp only [quoted, List.length_cons, List.length_append, List.length_nil]
  omega

/-- So is an object with a string member. -/
theorem length_le_write (sprintf : Double → Bytes) {members : List (Bytes × Value)} {k s : Bytes}
    (mem : (k, .string s) ∈ members) : s.length ≤ (write sprintf (.object members)).length := by
  have inside : ∀ n, s.length ≤ (writeMembers sprintf n members).length := by
    induction members with
    | nil => cases mem
    | cons m members ih =>
        intro n
        simp only [writeMembers, List.length_append, List.length_cons]
        rcases List.mem_cons.mp mem with rfl | later
        · have := length_le_quoted s
          simp only [write]
          omega
        · have := ih later (n + 2)
          omega
  have := inside 0
  simp only [write, List.length_cons, List.length_append, List.length_nil]
  omega

end LaliRpc.Jackson.Writer
