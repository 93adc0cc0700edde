/-
# Jackson.Reparse — values that are written as text and parsed again

The writer puts an integer down as its digits, whatever its width, and the
reader gives a literal the narrower width if it fits (`Reader.convertNumber`).
So a value comes back as it was, except that a 64-bit integer that fits 32 bits
comes back as a 32-bit one.
-/
import LaliRpc.Jackson.Value

namespace LaliRpc.Jackson

set_option autoImplicit false

/-- The integer fits 32 bits. -/
def Fits32 (i : Int64) : Prop := -2 ^ 31 ≤ i.toInt ∧ i.toInt < 2 ^ 31

instance : DecidablePred Fits32 := fun i =>
  inferInstanceAs (Decidable (-2 ^ 31 ≤ i.toInt ∧ i.toInt < 2 ^ 31))

namespace Value

mutual

/-- The value that comes back. -/
def reparse : Value → Value
  | .int64 i => if Fits32 i then .int32 i.toInt32 else .int64 i
  | .array values => .array (reparseValues values)
  | .object members => .object (reparseMembers members)
  | v => v

def reparseValues : List Value → List Value
  | [] => []
  | v :: values => reparse v :: reparseValues values

def reparseMembers : List (Bytes × Value) → List (Bytes × Value)
  | [] => []
  | m :: members => (m.1, reparse m.2) :: reparseMembers members

end

theorem reparseMembers_eq (members : List (Bytes × Value)) :
    reparseMembers members = members.map fun m => (m.1, m.2.reparse) := by
  induction members with
  | nil => rw [reparseMembers, List.map_nil]
  | cons m members ih => rw [reparseMembers, ih, List.map_cons]

@[simp] theorem reparse_object (members : List (Bytes × Value)) :
    (object members).reparse = .object (members.map fun m => (m.1, m.2.reparse)) := by
  rw [reparse, reparseMembers_eq]

@[simp] theorem reparse_string (s : Bytes) : (string s).reparse = .string s := by
  rw [reparse] <;> intros <;> contradiction

theorem reparse_narrow {i : Int64} (fits : Fits32 i) : (int64 i).reparse = .int32 i.toInt32 := by
  rw [reparse, if_pos fits]

theorem reparse_wide {i : Int64} (wide : ¬ Fits32 i) : (int64 i).reparse = .int64 i := by
  rw [reparse, if_neg wide]

/-- Writing and parsing again changes nothing more. -/
theorem reparse_reparse_int64 (i : Int64) : (int64 i).reparse.reparse = (int64 i).reparse := by
  by_cases fits : Fits32 i
  · rw [reparse_narrow fits, reparse] <;> intros <;> contradiction
  · rw [reparse_wide fits, reparse_wide fits]

end Value

end LaliRpc.Jackson
