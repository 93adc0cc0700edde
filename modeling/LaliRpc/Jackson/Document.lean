/-
# Jackson.Document — the handler that builds a value

`Document` is a value, and a handler that makes the value out of the calls: the open
containers are a stack of pointers into the value under construction, innermost first,
each with the number of values it was given. A pointer is the positions on its way out to
the root; it was taken to the last element of a vector, and dangles once the vector has
grown.

`Draft` is what the handler is about: the containers that are open, and whether a value
or a name comes next. The handler does what a draft does, whatever the calls are, and so
never follows a dangling pointer (`call_run`).
-/
import LaliRpc.Jackson.Sax

namespace LaliRpc.Jackson

open Reader Theory Theory.Fueled Grammar

set_option autoImplicit false

namespace Value

/-- The elements of the vector the value holds. -/
def children : Value → List Value
  | .array values => values
  | .object members => members.map Prod.snd
  | _ => []

def setChild : Value → Nat → Value → Value
  | .array values, i, w => .array (values.set i w)
  | .object members, i, w => .object (members.modify i fun m => (m.1, w))
  | v, _, _ => v

/-- The value at a place, by the positions from the place out to the root. -/
def find (root : Value) : List Nat → Option Value
  | [] => some root
  | i :: place => (find root place).bind fun v => v.children[i]?

/-- What a pointer to the place finds: a vector that has grown since may have moved its
elements. -/
def deref (root : Value) : List Nat → Option Value
  | [] => some root
  | i :: place =>
      (find root place).bind fun v => if i + 1 = v.children.length then v.children[i]? else none

def store (root : Value) : List Nat → Value → Value
  | [], w => w
  | i :: place, w =>
      match find root place with
      | some v => store root place (v.setChild i w)
      | none => root

end Value

/-- A `Value*` the handler holds. -/
inductive Pointer where
  | key
  | place (place : List Nat)

/-- `Document::Level`. -/
structure Level where
  value : Pointer
  valueCount : Nat

structure Document where
  /-- The value the document is. -/
  root : Value
  key : Value
  seeValue : Bool
  stack : List Level

namespace Document

inductive Fault where
  | assertion
  | dangling
  deriving DecidableEq

def fresh : Document := ⟨.null, .null, false, []⟩

def deref (d : Document) : Pointer → Option Value
  | .key => some d.key
  | .place place => d.root.deref place

def write (d : Document) (v : Value) : Pointer → Document
  | .key => { d with key := v }
  | .place place => { d with root := d.root.store place v }

/-- `Level::lastValue`, of a container of `size` elements. -/
def lastValue (level : Level) (size : Nat) : Pointer :=
  match level.value with
  | .key => .key
  | .place place => .place ((size - 1) :: place)

/-- `addValue`, and the pointer it returns. -/
def addValue (d : Document) (value : Value) : Except Fault (Document × Pointer) :=
  if d.seeValue = false then
    if d.root.isNull then .ok ({ d with root := value, seeValue := true }, .place [])
    else .error .assertion
  else
    match d.stack with
    | [] => .error .assertion
    | top :: stack =>
        let counted : Document := { d with stack := ⟨top.value, top.valueCount + 1⟩ :: stack }
        match d.deref top.value with
        | none => .error .dangling
        | some (.array values) =>
            .ok (counted.write (.array (values ++ [value])) top.value,
              lastValue top (values.length + 1))
        | some (.object members) =>
            if top.valueCount % 2 = 0 then
              if value.isString then .ok ({ counted with key := value }, .key)
              else .error .assertion
            else
              match d.key with
              | .string key =>
                  match (Value.object members).addMember key value with
                  | .ok object =>
                      .ok ({ counted with key := .null }.write object top.value,
                        lastValue top (members.length + 1))
                  | .error _ => .error .assertion
              | _ => .error .assertion
        | some _ => .error .assertion

/-- `StartObject` and `StartArray`, of an empty container. -/
def start (d : Document) (container : Value) : Except Fault Document :=
  (d.addValue container).map fun p => { p.1 with stack := ⟨p.2, 0⟩ :: p.1.stack }

/-- `EndObject` and `EndArray`. -/
def finish (d : Document) (type : ValueType) : Except Fault Document :=
  match d.stack with
  | [] => .error .assertion
  | top :: stack =>
      match d.deref top.value with
      | none => .error .dangling
      | some v => if v.getType = type then .ok { d with stack := stack } else .error .assertion

/-- The handler. -/
def call (d : Document) : Event → Except Fault Document
  | .null => (d.addValue .null).map Prod.fst
  | .bool b => (d.addValue (.bool b)).map Prod.fst
  | .int32 i => (d.addValue (.int32 i)).map Prod.fst
  | .int64 i => (d.addValue (.int64 i)).map Prod.fst
  | .double x => (d.addValue (.double x)).map Prod.fst
  | .string s => (d.addValue (.string s)).map Prod.fst
  | .startObject => d.start (.object [])
  | .key s => (d.addValue (.string s)).map Prod.fst
  | .endObject => d.finish .object
  | .startArray => d.start (.array [])
  | .endArray => d.finish .array

end Document

/-! ## Drafts -/

/-- An open container that waits for a value: the next element, or the value of a name. -/
inductive Gap where
  | element (values : List Value)
  | member (members : List (Bytes × Value)) (key : Bytes)

namespace Gap

def fill : Gap → Value → Value
  | element values, v => .array (values ++ [v])
  | member members key, v => .object (members ++ [(key, v)])

/-- Where the value goes. -/
def position : Gap → Nat
  | element values => values.length
  | member members _ => members.length

/-- The values the container was given, names included. -/
def count : Gap → Nat
  | element values => values.length
  | member members _ => 2 * members.length + 1

end Gap

/-- No member has the name already. -/
def free : List Gap → Bool
  | .member members key :: _ => (members.lookup key).isNone
  | _ => true

/-- A value under construction; open containers are listed from the innermost out. -/
inductive Draft where
  | value (gaps : List Gap)
  | name (members : List (Bytes × Value)) (gaps : List Gap)
  | whole (v : Value)

namespace Draft

/-- The value is complete where one was expected. -/
def put (v : Value) : List Gap → Draft
  | [] => .whole v
  | .element values :: gaps => .value (.element (values ++ [v]) :: gaps)
  | .member members key :: gaps => .name (members ++ [(key, v)]) gaps

def add (v : Value) : Draft → Option Draft
  | .value gaps => if free gaps then some (put v gaps) else none
  | .name members gaps =>
      match v with
      | .string s => some (.value (.member members s :: gaps))
      | _ => none
  | .whole _ => none

/-- A container is opened. -/
def start (opened : List Gap → Draft) : Draft → Option Draft
  | .value gaps => if free gaps then some (opened gaps) else none
  | _ => none

/-- What a call makes of a draft; where it makes nothing, an assertion fails. A name may be
given as a string, and a name without a value is dropped at the end of its object. -/
def call (draft : Draft) : Event → Option Draft
  | .null => draft.add .null
  | .bool b => draft.add (.bool b)
  | .int32 i => draft.add (.int32 i)
  | .int64 i => draft.add (.int64 i)
  | .double x => draft.add (.double x)
  | .string s => draft.add (.string s)
  | .key s => draft.add (.string s)
  | .startObject => draft.start (.name [])
  | .startArray => draft.start fun gaps => .value (.element [] :: gaps)
  | .endObject =>
      match draft with
      | .name members gaps => some (put (.object members) gaps)
      | .value (.member members _ :: gaps) => some (put (.object members) gaps)
      | _ => none
  | .endArray =>
      match draft with
      | .value (.element values :: gaps) => some (put (.array values) gaps)
      | _ => none

end Draft

namespace Document

/-- The root, with `v` in the innermost gap. -/
def assemble (v : Value) : List Gap → Value
  | [] => v
  | gap :: gaps => assemble (gap.fill v) gaps

/-- Where the innermost gap is. -/
def placeOf (gaps : List Gap) : List Nat := gaps.map Gap.position

/-- The stack over gaps that are filled. -/
def levels : List Gap → List Level
  | [] => []
  | gap :: gaps => ⟨.place (placeOf gaps), gap.count + 1⟩ :: levels gaps

/-- The members of the handler while it makes the draft. -/
inductive Represents : Document → Draft → Prop where
  | fresh (key : Value) : Represents ⟨.null, key, false, []⟩ (.value [])
  | element (values : List Value) (gaps : List Gap) (key : Value) :
      Represents ⟨assemble (.array values) gaps, key, true,
        ⟨.place (placeOf gaps), values.length⟩ :: levels gaps⟩
        (.value (.element values :: gaps))
  | member (members : List (Bytes × Value)) (key : Bytes) (gaps : List Gap) :
      Represents ⟨assemble (.object members) gaps, .string key, true,
        ⟨.place (placeOf gaps), 2 * members.length + 1⟩ :: levels gaps⟩
        (.value (.member members key :: gaps))
  | name (members : List (Bytes × Value)) (gaps : List Gap) (key : Value) :
      Represents ⟨assemble (.object members) gaps, key, true,
        ⟨.place (placeOf gaps), 2 * members.length⟩ :: levels gaps⟩ (.name members gaps)
  | whole (v key : Value) : Represents ⟨v, key, true, []⟩ (.whole v)

/-- A value is in the innermost gap. -/
structure Filled (d : Document) (v : Value) (gaps : List Gap) : Prop where
  root : d.root = assemble v gaps
  seen : d.seeValue = true
  stack : d.stack = levels gaps

section Simulation

variable {d : Document} {v : Value} {gaps : List Gap} {draft : Draft}

theorem child_fill (gap : Gap) (v : Value) :
    (gap.fill v).children[gap.position]? = some v ∧
      gap.position + 1 = (gap.fill v).children.length := by
  cases gap with
  | element values => simp [Gap.fill, Gap.position, Value.children]
  | member members key => simp [Gap.fill, Gap.position, Value.children]

theorem setChild_fill (gap : Gap) (v w : Value) :
    (gap.fill v).setChild gap.position w = gap.fill w := by
  cases gap with
  | element values => simp [Gap.fill, Gap.position, Value.setChild]
  | member members key =>
      have last : members.length < (members ++ [(key, v)]).length := by simp
      simp only [Gap.fill, Gap.position, Value.setChild, List.modify_eq_take_cons_drop last]
      simp

theorem find_assemble (v : Value) (gaps : List Gap) :
    (assemble v gaps).find (placeOf gaps) = some v := by
  induction gaps generalizing v with
  | nil => rfl
  | cons gap gaps ih =>
      show ((assemble (gap.fill v) gaps).find (placeOf gaps)).bind _ = _
      rw [ih]
      exact (child_fill gap v).1

/-- The pointer to the innermost container does not dangle. -/
theorem deref_assemble (v : Value) (gaps : List Gap) :
    (assemble v gaps).deref (placeOf gaps) = some v := by
  cases gaps with
  | nil => rfl
  | cons gap gaps =>
      show ((assemble (gap.fill v) gaps).find (placeOf gaps)).bind _ = _
      rw [find_assemble]
      exact (if_pos (child_fill gap v).2).trans (child_fill gap v).1

theorem store_assemble (v w : Value) (gaps : List Gap) :
    (assemble v gaps).store (placeOf gaps) w = assemble w gaps := by
  induction gaps generalizing v w with
  | nil => rfl
  | cons gap gaps ih =>
      show (match (assemble (gap.fill v) gaps).find (placeOf gaps) with
        | some u => (assemble (gap.fill v) gaps).store (placeOf gaps) (u.setChild gap.position w)
        | none => assemble (gap.fill v) gaps) = _
      rw [find_assemble]
      exact (ih _ _).trans (congrArg (assemble · gaps) (setChild_fill gap v w))

theorem Filled.represents (filled : Filled d v gaps) : Represents d (Draft.put v gaps) := by
  obtain ⟨root, key, seen, stack⟩ := d
  obtain ⟨rfl, rfl, rfl⟩ := filled
  cases gaps with
  | nil => exact .whole v key
  | cons gap gaps =>
      cases gap with
      | element values =>
          have count : (Gap.element values).count + 1 = (values ++ [v]).length := by
            simp [Gap.count]
          rw [levels, count]
          exact .element (values ++ [v]) gaps key
      | member members name =>
          have count : (Gap.member members name).count + 1 = 2 * (members ++ [(name, v)]).length := by
            simp only [Gap.count, List.length_append, List.length_singleton]
            omega
          rw [levels, count]
          exact .name (members ++ [(name, v)]) gaps key

/-- A value where one is expected: it goes into the gap, and the pointer is to its place. -/
theorem addValue_free (rep : Represents d (.value gaps)) (isFree : free gaps = true) (v : Value) :
    ∃ d', d.addValue v = .ok (d', .place (placeOf gaps)) ∧ Filled d' v gaps := by
  cases rep with
  | fresh key => exact ⟨_, rfl, rfl, rfl, rfl⟩
  | element values gaps key =>
      simp only [addValue, deref, deref_assemble, Bool.true_eq_false, if_false, lastValue, write]
      exact ⟨_, rfl, store_assemble _ _ _, rfl, rfl⟩
  | member members name gaps =>
      have odd : ¬ (2 * members.length + 1) % 2 = 0 := by omega
      have new : members.lookup name = none := Option.isNone_iff_eq_none.mp isFree
      simp only [addValue, deref, deref_assemble, Bool.true_eq_false, if_false, if_neg odd,
        Value.addMember, new, lastValue, write]
      exact ⟨_, rfl, store_assemble _ _ _, rfl, rfl⟩

theorem addValue_taken (rep : Represents d (.value gaps)) (taken : free gaps = false) (v : Value) :
    d.addValue v = .error .assertion := by
  cases rep with
  | fresh key => cases taken
  | element values gaps key => cases taken
  | member members name gaps =>
      have odd : ¬ (2 * members.length + 1) % 2 = 0 := by omega
      obtain ⟨old, known⟩ := Option.isSome_iff_exists.mp (Option.isNone_eq_false_iff.mp taken)
      simp only [addValue, deref, deref_assemble, Bool.true_eq_false, if_false, if_neg odd,
        Value.addMember, known]

theorem addValue_name {members : List (Bytes × Value)} (rep : Represents d (.name members gaps))
    (v : Value) : (∃ s d', v = .string s ∧ d.addValue v = .ok (d', .key) ∧
        Represents d' (.value (.member members s :: gaps))) ∨
      v.isString = false ∧ d.addValue v = .error .assertion := by
  cases rep with
  | name members gaps key =>
      have even : 2 * members.length % 2 = 0 := by omega
      simp only [addValue, deref, deref_assemble, Bool.true_eq_false, if_false, if_pos even]
      cases v with
      | string s => exact .inl ⟨s, _, rfl, rfl, .member members s gaps⟩
      | _ => exact .inr ⟨rfl, rfl⟩

/-- The handler follows a draft: it fails where the draft does, with an assertion. -/
def Follows (x : Except Fault Document) : Option Draft → Prop
  | some draft => ∃ d, x = .ok d ∧ Represents d draft
  | none => x = .error .assertion

theorem addValue_follows (rep : Represents d draft) (v : Value) :
    Follows ((d.addValue v).map Prod.fst) (draft.add v) := by
  cases draft with
  | value gaps =>
      rw [Draft.add]
      split
      · rename_i isFree
        obtain ⟨d', added, filled⟩ := addValue_free rep isFree v
        rw [added]
        exact ⟨d', rfl, filled.represents⟩
      · rename_i taken
        rw [addValue_taken rep (Bool.eq_false_of_not_eq_true taken)]
        exact rfl
  | name members gaps =>
      rcases addValue_name rep v with ⟨s, d', rfl, added, rep'⟩ | ⟨other, failed⟩
      · rw [added]
        exact ⟨d', rfl, rep'⟩
      · rw [failed]
        cases v with
        | string s => cases other
        | _ => exact rfl
  | whole w =>
      cases rep
      exact rfl

/-- An empty container is a value, and its level is pushed. -/
theorem start_follows (container : Value) (opened : List Gap → Draft) (rep : Represents d draft)
    (other : container.isString = false)
    (within : ∀ d' gaps, Filled d' container gaps →
      Represents { d' with stack := ⟨.place (placeOf gaps), 0⟩ :: d'.stack } (opened gaps)) :
    Follows (d.start container) (draft.start opened) := by
  cases draft with
  | value gaps =>
      rw [Draft.start]
      split
      · rename_i isFree
        obtain ⟨d', added, filled⟩ := addValue_free rep isFree container
        rw [Document.start, added]
        exact ⟨_, rfl, within d' gaps filled⟩
      · rename_i taken
        rw [Document.start, addValue_taken rep (Bool.eq_false_of_not_eq_true taken)]
        exact rfl
  | name members gaps =>
      rcases addValue_name rep container with ⟨s, d', rfl, -, -⟩ | ⟨-, failed⟩
      · cases other
      · rw [Document.start, failed]
        exact rfl
  | whole w =>
      cases rep
      exact rfl

theorem finish_open (v key : Value) (gaps : List Gap) (count : Nat) (type : ValueType) :
    finish ⟨assemble v gaps, key, true, ⟨.place (placeOf gaps), count⟩ :: levels gaps⟩ type =
      if v.getType = type then .ok ⟨assemble v gaps, key, true, levels gaps⟩
      else .error .assertion := by
  simp only [finish, deref, deref_assemble]

/-- The level of a container is popped, and the container is a value in its gap. -/
theorem finish_follows {key : Value} {count : Nat} (type : ValueType) (same : v.getType = type) :
    Follows (finish ⟨assemble v gaps, key, true, ⟨.place (placeOf gaps), count⟩ :: levels gaps⟩ type)
      (some (Draft.put v gaps)) := by
  rw [finish_open, if_pos same]
  exact ⟨_, rfl, Filled.represents ⟨rfl, rfl, rfl⟩⟩

/-- One call. -/
theorem call_follows (rep : Represents d draft) (e : Event) : Follows (d.call e) (draft.call e) := by
  cases e with
  | null | bool | int32 | int64 | double | string | key => exact addValue_follows rep _
  | startObject =>
      refine start_follows (.object []) (.name []) rep rfl fun d' gaps filled => ?_
      obtain ⟨root, key, seen, stack⟩ := d'
      obtain ⟨rfl, rfl, rfl⟩ := filled
      exact .name [] gaps key
  | startArray =>
      refine start_follows (.array []) (fun gaps => .value (.element [] :: gaps)) rep rfl
        fun d' gaps filled => ?_
      obtain ⟨root, key, seen, stack⟩ := d'
      obtain ⟨rfl, rfl, rfl⟩ := filled
      exact .element [] gaps key
  | endObject =>
      cases rep with
      | fresh | whole => exact rfl
      | element => exact (finish_open _ _ _ _ _).trans (if_neg nofun)
      | member | name => exact finish_follows _ rfl
  | endArray =>
      cases rep with
      | fresh | whole => exact rfl
      | element => exact finish_follows _ rfl
      | member | name => exact (finish_open _ _ _ _ _).trans (if_neg nofun)

/-- **Any calls.** The handler fails where a draft of the value does, by an assertion and
never by a dangling pointer; otherwise it is at the draft they make. -/
theorem call_run (calls : List Event) (rep : Represents d draft) :
    Follows (calls.foldlM call d) (calls.foldlM Draft.call draft) := by
  induction calls generalizing d draft with
  | nil => exact ⟨d, rfl, rep⟩
  | cons e calls ih =>
      have first := call_follows rep e
      rw [List.foldlM_cons, List.foldlM_cons]
      cases step : draft.call e with
      | none =>
          rw [step] at first
          rw [show d.call e = .error .assertion from first]
          exact rfl
      | some draft' =>
          rw [step] at first
          obtain ⟨d', called, rep'⟩ := first
          rw [called]
          exact ih rep'

end Simulation

end Document

/-! ## A draft of a value -/

namespace Draft

mutual

/-- The calls of `writeTo` make the value where one is expected. -/
theorem call_writeTo : ∀ (v : Value) (gaps : List Gap), v.WellKeyed → free gaps = true →
    v.writeTo.foldlM call (.value gaps) = some (put v gaps)
  | .null, gaps, _, isFree | .bool _, gaps, _, isFree | .int32 _, gaps, _, isFree
  | .int64 _, gaps, _, isFree | .double _, gaps, _, isFree | .string _, gaps, _, isFree => by
      simp only [Value.writeTo, List.foldlM_cons, List.foldlM_nil, call, add, if_pos isFree,
        Option.bind_eq_bind, Option.bind_some]
      rfl
  | .array values, gaps, keyed, isFree => by
      simp only [Value.writeTo, List.foldlM_cons, List.foldlM_append, List.foldlM_nil, call, start,
        if_pos isFree, Option.bind_eq_bind, Option.bind_some,
        call_writeToValues values [] gaps keyed.elements, List.nil_append]
      rfl
  | .object members, gaps, keyed, isFree => by
      have all : ∀ m ∈ members, m.2.WellKeyed := by
        cases keyed with
        | object _ all => exact all
      simp only [Value.writeTo, List.foldlM_cons, List.foldlM_append, List.foldlM_nil, call, start,
        if_pos isFree, Option.bind_eq_bind, Option.bind_some,
        call_writeToMembers members [] gaps keyed.distinct all, List.nil_append]
      rfl

theorem call_writeToValues : ∀ (values before : List Value) (gaps : List Gap),
    (∀ v ∈ values, v.WellKeyed) →
      (Value.writeToValues values).foldlM call (.value (.element before :: gaps)) =
        some (.value (.element (before ++ values) :: gaps))
  | [], before, gaps, _ => by
      rw [List.append_nil]
      rfl
  | v :: values, before, gaps, keyed => by
      obtain ⟨first, others⟩ := List.forall_mem_cons.mp keyed
      rw [Value.writeToValues, List.foldlM_append, call_writeTo v _ first rfl]
      refine (call_writeToValues values (before ++ [v]) gaps others).trans ?_
      rw [List.append_assoc, List.singleton_append]

theorem call_writeToMembers : ∀ (members before : List (Bytes × Value)) (gaps : List Gap),
    ((before ++ members).map Prod.fst).Nodup → (∀ m ∈ members, m.2.WellKeyed) →
      (Value.writeToMembers members).foldlM call (.name before gaps) =
        some (.name (before ++ members) gaps)
  | [], before, gaps, _, _ => by
      rw [List.append_nil]
      rfl
  | m :: members, before, gaps, distinct, keyed => by
      obtain ⟨first, others⟩ := List.forall_mem_cons.mp keyed
      have new : before.lookup m.1 = none := by
        refine lookup_eq_none_iff.mpr fun old => ?_
        rw [List.map_append, List.nodup_append] at distinct
        exact distinct.2.2 _ old _ List.mem_cons_self rfl
      have isFree : free (.member before m.1 :: gaps) = true := by rw [free, new]; rfl
      have split : before ++ m :: members = before ++ [m] ++ members := by simp
      rw [split] at distinct ⊢
      rw [Value.writeToMembers, List.foldlM_cons]
      show ((m.2.writeTo ++ _).foldlM call (.value (.member before m.1 :: gaps))) = _
      rw [List.foldlM_append, call_writeTo m.2 _ first isFree]
      exact call_writeToMembers members (before ++ [m]) gaps distinct others

end

/-- The first call of `writeTo` asserts a new name. -/
theorem call_writeTo_taken (v : Value) {gaps : List Gap} (taken : free gaps = false) :
    v.writeTo.foldlM call (.value gaps) = none := by
  cases v <;> simp [Value.writeTo, call, add, start, taken]

mutual

/-- Nothing else than a value without repeated names is made that way. -/
theorem wellKeyed_of_call : ∀ (v : Value) (gaps : List Gap) (draft : Draft),
    v.writeTo.foldlM call (.value gaps) = some draft → v.WellKeyed
  | .null, _, _, _ => .null
  | .bool b, _, _, _ => .bool b
  | .int32 i, _, _, _ => .int32 i
  | .int64 i, _, _, _ => .int64 i
  | .double d, _, _, _ => .double d
  | .string s, _, _, _ => .string s
  | .array values, gaps, draft, made => by
      rw [Value.writeTo, List.foldlM_cons] at made
      obtain ⟨opened, start, made⟩ := Option.bind_eq_some_iff.mp made
      rw [List.foldlM_append] at made
      obtain ⟨filled, made, -⟩ := Option.bind_eq_some_iff.mp made
      simp only [call, Draft.start] at start
      split at start
      · cases start
        exact .array (wellKeyed_of_values values [] gaps filled made)
      · cases start
  | .object members, gaps, draft, made => by
      rw [Value.writeTo, List.foldlM_cons] at made
      obtain ⟨opened, start, made⟩ := Option.bind_eq_some_iff.mp made
      rw [List.foldlM_append] at made
      obtain ⟨filled, made, -⟩ := Option.bind_eq_some_iff.mp made
      simp only [call, Draft.start] at start
      split at start
      · cases start
        obtain ⟨distinct, all⟩ := wellKeyed_of_members members [] gaps filled (by simp) made
        exact .object distinct all
      · cases start

theorem wellKeyed_of_values : ∀ (values before : List Value) (gaps : List Gap) (draft : Draft),
    (Value.writeToValues values).foldlM call (.value (.element before :: gaps)) = some draft →
      ∀ v ∈ values, v.WellKeyed
  | [], _, _, _, _ => by simp
  | v :: values, before, gaps, draft, made => by
      rw [Value.writeToValues, List.foldlM_append] at made
      obtain ⟨next, first, made⟩ := Option.bind_eq_some_iff.mp made
      have keyed := wellKeyed_of_call v _ next first
      rw [call_writeTo v _ keyed rfl] at first
      cases first
      exact List.forall_mem_cons.mpr ⟨keyed, wellKeyed_of_values values _ gaps draft made⟩

theorem wellKeyed_of_members : ∀ (members before : List (Bytes × Value)) (gaps : List Gap)
    (draft : Draft), (before.map Prod.fst).Nodup →
    (Value.writeToMembers members).foldlM call (.name before gaps) = some draft →
      ((before ++ members).map Prod.fst).Nodup ∧ ∀ m ∈ members, m.2.WellKeyed
  | [], before, _, _, distinct, _ => by simpa using distinct
  | m :: members, before, gaps, draft, distinct, made => by
      rw [Value.writeToMembers, List.foldlM_cons] at made
      obtain ⟨named, name, made⟩ := Option.bind_eq_some_iff.mp made
      cases name
      rw [List.foldlM_append] at made
      obtain ⟨next, first, made⟩ := Option.bind_eq_some_iff.mp made
      have keyed := wellKeyed_of_call m.2 _ next first
      cases isFree : free (.member before m.1 :: gaps) with
      | false =>
          rw [call_writeTo_taken m.2 isFree] at first
          cases first
      | true =>
          rw [call_writeTo m.2 _ keyed isFree] at first
          cases first
          have new : m.1 ∉ before.map Prod.fst :=
            lookup_eq_none_iff.mp (Option.isNone_iff_eq_none.mp isFree)
          have distinct' : ((before ++ [(m.1, m.2)]).map Prod.fst).Nodup := by
            rw [List.map_append, List.nodup_append]
            refine ⟨distinct, by simp, ?_⟩
            rintro a old b last rfl
            obtain rfl : a = m.1 := by simpa using last
            exact new old
          obtain ⟨names, others⟩ := wellKeyed_of_members members _ gaps draft distinct' made
          rw [List.append_assoc, List.singleton_append] at names
          exact ⟨names, List.forall_mem_cons.mpr ⟨keyed, others⟩⟩

end

/-! ### No name is repeated -/

/-- An open container that repeats no member name. -/
def GapKeyed : Gap → Prop
  | .element values => ∀ v ∈ values, v.WellKeyed
  | .member members _ => MembersOk members

/-- Every container around the innermost one waits for a value it can take. -/
def Outer (gaps : List Gap) : Prop := ∀ gap ∈ gaps, GapKeyed gap ∧ free [gap] = true

def Keyed : Draft → Prop
  | .value [] => True
  | .value (gap :: gaps) => GapKeyed gap ∧ Outer gaps
  | .name members gaps => MembersOk members ∧ Outer gaps
  | .whole v => v.WellKeyed

variable {v : Value} {gaps : List Gap} {draft draft' : Draft}

theorem Outer.put (outer : Outer gaps) (keyed : v.WellKeyed) : Keyed (put v gaps) := by
  cases gaps with
  | nil => exact keyed
  | cons gap gaps =>
      obtain ⟨⟨inside, isFree⟩, others⟩ := List.forall_mem_cons.mp outer
      cases gap with
      | element values =>
          exact ⟨List.forall_mem_append.mpr ⟨inside, List.forall_mem_singleton.mpr keyed⟩, others⟩
      | member members key =>
          have new : members.lookup key = none := Option.isNone_iff_eq_none.mp isFree
          exact ⟨inside.snoc (by rw [new]; rfl) keyed, others⟩

theorem Keyed.outer (keyed : Keyed (.value gaps)) (isFree : free gaps = true) : Outer gaps := by
  cases gaps with
  | nil => exact fun gap h => absurd h List.not_mem_nil
  | cons gap gaps =>
      refine List.forall_mem_cons.mpr ⟨⟨keyed.1, ?_⟩, keyed.2⟩
      cases gap <;> exact isFree

theorem add_keyed (keyed : draft.Keyed) (inside : v.WellKeyed) (added : draft.add v = some draft') :
    draft'.Keyed := by
  cases draft with
  | value gaps =>
      rw [add] at added
      split at added
      · rename_i isFree
        cases added
        exact (keyed.outer isFree).put inside
      · cases added
  | name members gaps =>
      cases v with
      | string s =>
          cases added
          exact keyed
      | _ => cases added
  | whole w => cases added

theorem start_keyed (opened : List Gap → Draft) (keyed : draft.Keyed)
    (within : ∀ gaps, Outer gaps → (opened gaps).Keyed) (started : draft.start opened = some draft') :
    draft'.Keyed := by
  cases draft with
  | value gaps =>
      rw [start] at started
      split at started
      · rename_i isFree
        cases started
        exact within gaps (keyed.outer isFree)
      · cases started
  | name members gaps => cases started
  | whole w => cases started

/-- One call. -/
theorem call_keyed {e : Event} (keyed : draft.Keyed) (called : draft.call e = some draft') :
    draft'.Keyed := by
  cases e with
  | null => exact add_keyed keyed .null called
  | bool b => exact add_keyed keyed (.bool b) called
  | int32 i => exact add_keyed keyed (.int32 i) called
  | int64 i => exact add_keyed keyed (.int64 i) called
  | double d => exact add_keyed keyed (.double d) called
  | string s => exact add_keyed keyed (.string s) called
  | key s => exact add_keyed keyed (.string s) called
  | startObject =>
      exact start_keyed (.name []) keyed (fun gaps outer => ⟨⟨by simp, by simp⟩, outer⟩) called
  | startArray =>
      exact start_keyed (fun gaps => .value (.element [] :: gaps)) keyed
        (fun gaps outer => ⟨by simp [GapKeyed], outer⟩) called
  | endObject =>
      match draft, keyed, called with
      | .name members gaps, ⟨inside, outer⟩, called =>
          cases called
          exact outer.put (.object inside.distinct inside.all)
      | .value (.member members key :: gaps), ⟨inside, outer⟩, called =>
          cases called
          exact outer.put (.object inside.distinct inside.all)
  | endArray =>
      match draft, keyed, called with
      | .value (.element values :: gaps), ⟨inside, outer⟩, called =>
          cases called
          exact outer.put (.array inside)

theorem call_run_keyed {calls : List Event} (keyed : draft.Keyed)
    (run : calls.foldlM call draft = some draft') : draft'.Keyed := by
  induction calls generalizing draft with
  | nil =>
      cases run
      exact keyed
  | cons e calls ih =>
      rw [List.foldlM_cons] at run
      obtain ⟨next, called, rest⟩ := Option.bind_eq_some_iff.mp run
      exact ih (call_keyed keyed called) rest

end Draft

/-- **Whatever is told a document.** It never follows a dangling pointer: it stops by an
assertion or not at all; and when no container is open, it is a value without repeated
member names. -/
theorem Document.call_sequence (calls : List Event) :
    match calls.foldlM Document.call Document.fresh with
    | .ok d => d.stack = [] → d.root.WellKeyed
    | .error f => f = .assertion := by
  have follows := Document.call_run calls (.fresh .null)
  have keyed : ∀ draft, calls.foldlM Draft.call (.value []) = some draft → draft.Keyed :=
    fun draft run => Draft.call_run_keyed (show (Draft.value []).Keyed from trivial) run
  rw [Document.fresh]
  generalize calls.foldlM Draft.call (.value []) = made at follows keyed
  cases made with
  | none => rw [show calls.foldlM Document.call _ = _ from follows]
  | some draft =>
      obtain ⟨d, called, rep⟩ := follows
      rw [called]
      intro closed
      cases rep with
      | fresh => exact .null
      | whole v => exact keyed _ rfl
      | element | member | name => cases closed

end LaliRpc.Jackson
