/-
# Jackson.ValueMeaning — the trees that values in memory stand for

A value in memory means a tree (`Means`): the one its cells spell out. While no value is put
into itself every value means exactly one tree, and what a step does to memory is what it
does to trees: the place it is about reads as the new tree (`reads_result`), and every other
value that does not lead to a cell that was written reads as before (`reads_kept`).
-/
import LaliRpc.Jackson.ValueSharing

namespace LaliRpc.Jackson.Memory

set_option autoImplicit false

open Theory (Run)
open Theory.RefCount
open Relation (ReflTransGen TransGen)

/-- The value `v` is the tree `x`. -/
inductive Means (h : Heap Data) : Slot → Value → Prop where
  | null : Means h .null .null
  | bool (b : Bool) : Means h (.bool b) (.bool b)
  | int32 (i : Int32) : Means h (.int32 i) (.int32 i)
  | int64 (i : Int64) : Means h (.int64 i) (.int64 i)
  | double (d : Double) : Means h (.double d) (.double d)
  | string {a : Nat} {s : Bytes} (view : getStringView h (.string a) = some s) :
      Means h (.string a) (.string s)
  | array {a : Nat} {slots : List Slot} {values : List Value}
      (found : elements h a = some slots) (length : slots.length = values.length)
      (each : ∀ (i : Nat) (v : Slot) (x : Value), slots[i]? = some v → values[i]? = some x →
        Means h v x) :
      Means h (.array a) (.array values)
  | object {o : Nat} {data : List (Slot × Slot)} {entries : List (Bytes × Value)}
      (found : members h o = some data) (length : data.length = entries.length)
      (keys : ∀ (i : Nat) (e : Slot × Slot) (n : Bytes × Value), data[i]? = some e →
        entries[i]? = some n → getStringView h e.1 = some n.1)
      (each : ∀ (i : Nat) (e : Slot × Slot) (n : Bytes × Value), data[i]? = some e →
        entries[i]? = some n → Means h e.2 n.2) :
      Means h (.object o) (.object entries)

/-- The value at the place is the tree `x`. -/
def Reads (m : Memory) (p : Place) (x : Value) : Prop := ∃ v, m.load p = some v ∧ Means m.heap v x

variable {m m' : Memory} {h h' : Heap Data} {u v : Slot} {p q : Place} {op : Op} {x y : Value}
  {a : Nat}

/-! ## One value, one tree -/

/-- Lists that are as long, and agree wherever both have an element. -/
theorem eq_of_pointwise {α β : Type} {as : List α} {bs cs : List β}
    (length : as.length = bs.length) (length' : as.length = cs.length)
    (same : ∀ (i : Nat) (a : α) (b c : β), as[i]? = some a → bs[i]? = some b →
      cs[i]? = some c → b = c) : bs = cs := by
  refine List.ext_getElem (length.symm.trans length') fun i left right => ?_
  have inside : i < as.length := length ▸ left
  exact same i as[i] _ _ (List.getElem?_eq_getElem inside) (List.getElem?_eq_getElem left)
    (List.getElem?_eq_getElem right)

theorem Means.unique (means : Means h v x) (means' : Means h v y) : x = y := by
  induction means generalizing y with
  | null | bool | int32 | int64 | double =>
      cases means'
      rfl
  | string view =>
      cases means' with
      | string view' => exact congrArg Value.string (Option.some.inj (view.symm.trans view'))
  | array found length each ih =>
      cases means' with
      | array found' length' each' =>
          obtain rfl := Option.some.inj (found.symm.trans found')
          refine congrArg Value.array
            (eq_of_pointwise length length' fun i v x y at_ left right => ?_)
          exact ih i v x at_ left (each' i v y at_ right)
  | object found length keys each ih =>
      cases means' with
      | object found' length' keys' each' =>
          obtain rfl := Option.some.inj (found.symm.trans found')
          refine congrArg Value.object
            (eq_of_pointwise length length' fun i e n n' at_ left right => ?_)
          have key := (keys i e n at_ left).symm.trans (keys' i e n' at_ right)
          exact Prod.ext (Option.some.inj key) (ih i e n at_ left (each' i e n' at_ right))

/-- A list of what stands for each element. -/
theorem exists_pointwise {α β : Type} {R : α → β → Prop} {as : List α}
    (each : ∀ a ∈ as, ∃ b, R a b) :
    ∃ bs : List β, as.length = bs.length ∧
      ∀ (i : Nat) (a : α) (b : β), as[i]? = some a → bs[i]? = some b → R a b := by
  induction as with
  | nil => exact ⟨[], rfl, fun i a b found => by cases found⟩
  | cons a as ih =>
      obtain ⟨⟨b, here⟩, later⟩ := List.forall_mem_cons.mp each
      obtain ⟨bs, length, rest⟩ := ih later
      refine ⟨b :: bs, congrArg Nat.succ length, fun i a' b' left right => ?_⟩
      cases i with
      | zero =>
          obtain rfl := Option.some.inj left
          obtain rfl := Option.some.inj right
          exact here
      | succ i => exact rest i a' b' left right

theorem pointwise_append {α β : Type} {R : α → β → Prop} {as : List α} {bs : List β} {a : α} {b : β}
    (length : as.length = bs.length)
    (each : ∀ (i : Nat) (a : α) (b : β), as[i]? = some a → bs[i]? = some b → R a b)
    (last : R a b) (i : Nat) (a' : α) (b' : β) (left : (as ++ [a])[i]? = some a')
    (right : (bs ++ [b])[i]? = some b') : R a' b' := by
  by_cases old : i < as.length
  · rw [List.getElem?_append_left old] at left
    rw [List.getElem?_append_left (length ▸ old)] at right
    exact each i a' b' left right
  · rw [List.getElem?_append_right (Nat.not_lt.mp old)] at left
    rw [List.getElem?_append_right (length ▸ Nat.not_lt.mp old), ← length] at right
    obtain ⟨zero, -⟩ := List.getElem?_eq_some_iff.mp left
    have first : i - as.length = 0 := Nat.lt_one_iff.mp zero
    rw [first] at left right
    obtain rfl := Option.some.inj left
    obtain rfl := Option.some.inj right
    exact last

/-- **Without cycles every value is a tree.** -/
theorem means_of_acyclic (held : Held m []) (acyclic : Acyclic Data.refs m.heap)
    (holds : m.Holds v) : ∃ x, Means m.heap v x := by
  have cells : ∀ a v, m.Holds v → v.refs = [a] → ∃ x, Means m.heap v x := by
    intro a
    induction a using acyclic.induction with
    | _ a ih =>
        intro v holds own
        have slots (c : Cell Data) (live : cell m.heap a = some c) (w : Slot)
            (inside : w ∈ c.data.slots) : ∃ x, Means m.heap w x := by
          have holds' : m.Holds w := .inr ⟨a, c, live, inside⟩
          have deeper (b : Nat) (mem : b ∈ w.refs) (only : w.refs = [b]) :
              ∃ x, Means m.heap w x :=
            ih b ⟨c, live, List.mem_flatMap.mpr ⟨w, inside, mem⟩⟩ w holds' only
          cases w with
          | null => exact ⟨_, .null⟩
          | bool b => exact ⟨_, .bool b⟩
          | int32 i => exact ⟨_, .int32 i⟩
          | int64 i => exact ⟨_, .int64 i⟩
          | double d => exact ⟨_, .double d⟩
          | string b | array b | object b => exact deeper b List.mem_cons_self rfl
        have fits := held.fits v (.inr holds)
        cases v with
        | null | bool | int32 | int64 | double => cases own
        | string b =>
            obtain ⟨name, view⟩ := getStringView_of_fits fits
            exact ⟨_, .string view⟩
        | array b =>
            obtain rfl : b = a := (List.cons.inj own).1
            obtain ⟨values, found⟩ := elements_of_fits fits
            obtain ⟨c, live, array⟩ := elements_eq found
            obtain ⟨xs, length, each⟩ := exists_pointwise (R := Means m.heap) fun w inside =>
              slots c live w (array ▸ inside)
            exact ⟨_, .array found length each⟩
        | object b =>
            obtain rfl : b = a := (List.cons.inj own).1
            obtain ⟨data, found⟩ := members_of_fits fits
            obtain ⟨c, live, object⟩ := members_eq found
            have parts (e : Slot × Slot) (mem : e ∈ data) :
                ∃ n : Bytes × Value, getStringView m.heap e.1 = some n.1 ∧
                  Means m.heap e.2 n.2 := by
              have value : e.2 ∈ c.data.slots := by
                rw [object]
                exact List.mem_flatMap.mpr ⟨e, mem, List.mem_cons_self⟩
              obtain ⟨key, view⟩ := keys_viewed held found e mem
              obtain ⟨x, means⟩ := slots c live e.2 value
              exact ⟨(key, x), view, means⟩
            obtain ⟨entries, length, each⟩ := exists_pointwise parts
            exact ⟨_, .object found length (fun i e n left right => (each i e n left right).1)
              fun i e n left right => (each i e n left right).2⟩
  cases v with
  | null => exact ⟨_, .null⟩
  | bool b => exact ⟨_, .bool b⟩
  | int32 i => exact ⟨_, .int32 i⟩
  | int64 i => exact ⟨_, .int64 i⟩
  | double d => exact ⟨_, .double d⟩
  | string b | array b | object b => exact cells b _ holds rfl

/-! ## What is not written keeps its meaning -/

theorem elements_of_cell {c : Cell Data} {values : List Slot} (live : cell h a = some c)
    (array : c.data = .array values) : elements h a = some values := by
  obtain ⟨n, d⟩ := c
  obtain rfl : d = .array values := array
  rw [elements, live]

theorem members_of_cell {c : Cell Data} {data : List (Slot × Slot)} (live : cell h a = some c)
    (object : c.data = .object data) : members h a = some data := by
  obtain ⟨n, d⟩ := c
  obtain rfl : d = .object data := object
  rw [members, live]

theorem mem_array {d : Data} {values : List Slot} (array : d = .array values) (mem : v ∈ values) :
    v ∈ d.slots := by
  rw [array]
  exact mem

theorem mem_object {d : Data} {data : List (Slot × Slot)} {e : Slot × Slot}
    (object : d = .object data) (mem : e ∈ data) (part : v ∈ [e.2, e.1]) : v ∈ d.slots := by
  rw [object]
  exact List.mem_flatMap.mpr ⟨e, mem, part⟩

/-- The value leads to the cell. -/
def LeadsTo (h : Heap Data) (v : Slot) (a : Nat) : Prop :=
  ∃ b ∈ v.refs, ReflTransGen (Refers Data.refs h) b a

theorem leadsTo_of_element {c : Cell Data} {b : Nat} (own : a ∈ v.refs) (live : cell h a = some c)
    (inside : u ∈ c.data.slots) (leads : LeadsTo h u b) : LeadsTo h v b := by
  obtain ⟨d, mem, path⟩ := leads
  exact ⟨a, own, .head ⟨c, live, List.mem_flatMap.mpr ⟨u, inside, mem⟩⟩ path⟩

/-- A value whose cell is live means what it meant, where the cells it leads to have the
same data: what they refer to is live with them. -/
theorem Means.kept {ext : List Nat} (means : Means h v x) (counts : Counted Data.refs h' ext)
    (live : ∀ b ∈ v.refs, ∃ c, cell h' b = some c)
    (same : ∀ a, LeadsTo h v a → ∀ c c', cell h a = some c → cell h' a = some c' →
      c'.data = c.data) : Means h' v x := by
  induction means with
  | null => exact .null
  | bool b => exact .bool b
  | int32 i => exact .int32 i
  | int64 i => exact .int64 i
  | double d => exact .double d
  | string view =>
      obtain ⟨a, c, there, before, string⟩ := getStringView_eq view
      obtain rfl := Slot.string.inj there
      obtain ⟨c', after⟩ := live _ List.mem_cons_self
      have data := same _ ⟨_, List.mem_cons_self, .refl⟩ c c' before after
      exact .string (getStringView_of_cell after (data.trans string))
  | array found length each ih =>
      obtain ⟨c, before, array⟩ := elements_eq found
      obtain ⟨c', after⟩ := live _ List.mem_cons_self
      have data := (same _ ⟨_, List.mem_cons_self, .refl⟩ c c' before after).trans array
      refine .array (elements_of_cell after data) length fun i w x left right => ?_
      have mem := List.mem_of_getElem? left
      refine ih i w x left right (fun b own => ?_) fun b leads => ?_
      · exact counts.live
          (.inr (mem_held after (List.mem_flatMap.mpr ⟨w, mem_array data mem, own⟩)))
      · exact same b (leadsTo_of_element List.mem_cons_self before (mem_array array mem) leads)
  | object found length keys each ih =>
      obtain ⟨c, before, object⟩ := members_eq found
      obtain ⟨c', after⟩ := live _ List.mem_cons_self
      have data := (same _ ⟨_, List.mem_cons_self, .refl⟩ c c' before after).trans object
      refine .object (members_of_cell after data) length (fun i e n left right => ?_)
        fun i e n left right => ?_
      · have mem := List.mem_of_getElem? left
        have part : e.1 ∈ [e.2, e.1] := List.mem_cons_of_mem _ List.mem_cons_self
        obtain ⟨s, k, key, there, string⟩ := getStringView_eq (keys i e n left right)
        have own : s ∈ e.1.refs := by
          rw [key]
          exact List.mem_cons_self
        obtain ⟨k', there'⟩ := counts.live
          (.inr (mem_held after (List.mem_flatMap.mpr ⟨e.1, mem_object data mem part, own⟩)))
        have leads := leadsTo_of_element (v := .object _) List.mem_cons_self before
          (mem_object object mem part) ⟨s, own, .refl⟩
        rw [key]
        exact getStringView_of_cell there' ((same s leads k k' there there').trans string)
      · have mem := List.mem_of_getElem? left
        have part : e.2 ∈ [e.2, e.1] := List.mem_cons_self
        refine ih i e n left right (fun b own => ?_) fun b leads => ?_
        · exact counts.live
            (.inr (mem_held after (List.mem_flatMap.mpr ⟨e.2, mem_object data mem part, own⟩)))
        · exact same b
            (leadsTo_of_element List.mem_cons_self before (mem_object object mem part) leads)

/-! ## What a step writes -/

/-- The places it writes to. -/
def written : Op → List Place
  | .construct _ | .copyConstruct _ | .destruct _ | .addValue _ _ | .addValueCopy _ _ => []
  | .moveConstruct rhs => [rhs]
  | .copyAssign this _ | .setTo this _ | .setView this _ => [this]
  | .moveAssign this rhs => [this, rhs]
  | .addValueMove _ value => [value]
  | .addMember _ key value => [key, value]

/-- The container that gets another value. -/
def grown (m : Memory) : Op → Option Nat
  | .addValue this _ | .addValueCopy this _ | .addValueMove this _ => m.arrayAt this
  | .addMember this _ _ => m.objectAt this
  | .construct _ | .copyConstruct _ | .moveConstruct _ | .destruct _ | .copyAssign _ _
  | .moveAssign _ _ | .setTo _ _ | .setView _ _ => none

/-- The cell's data may change. -/
def Changes (m : Memory) (op : Op) (a : Nat) : Prop :=
  (∃ i, .inside a i ∈ written op) ∨ m.grown op = some a

/-- What is live in the later heap and not new was live before, with the same data but for
the cells in `D`. -/
structure Later (D : Nat → Prop) (h h' : Heap Data) : Prop where
  longer : h.length ≤ h'.length
  before : ∀ a c', a < h.length → cell h' a = some c' →
    ∃ c, cell h a = some c ∧ (D a ∨ c'.data = c.data)

section Later

variable {D : Nat → Prop} {h'' : Heap Data}

theorem Later.refl (h : Heap Data) : Later D h h :=
  ⟨Nat.le_refl _, fun _ c' _ live => ⟨c', live, .inr rfl⟩⟩

theorem Later.trans (first : Later D h h') (second : Later D h' h'') : Later D h h'' := by
  refine ⟨Nat.le_trans first.longer second.longer, fun a c'' inside live'' => ?_⟩
  obtain ⟨c', live', here⟩ := second.before a c'' (Nat.lt_of_lt_of_le inside first.longer) live''
  obtain ⟨c, live, there⟩ := first.before a c' inside live'
  refine ⟨c, live, ?_⟩
  rcases here with changes | same
  · exact .inl changes
  · exact there.imp_right same.trans

theorem later_of_shrinks (shrinks : Shrinks h h') (length : h'.length = h.length) :
    Later D h h' := by
  refine ⟨Nat.le_of_eq length.symm, fun a c' _ live => ?_⟩
  obtain ⟨c, before, same⟩ := shrinks a c' live
  exact ⟨c, before, .inr same.symm⟩

theorem later_destroy (done : destroy h v = some h') : Later D h h' :=
  later_of_shrinks (release_shrinks done).1 (release_shrinks done).2

theorem incr_length (done : incr h v = some h') : h'.length = h.length := by
  rw [incr] at done
  split at done
  · rw [Option.some.inj done]
  · rw [retain] at done
    split at done
    · cases done
    · split at done
      · cases done
      · obtain rfl := Option.some.inj done
        exact List.length_set

theorem later_incr (done : incr h v = some h') : Later D h h' :=
  later_of_shrinks (incr_shrinks done).1 (incr_length done)

theorem later_construct (h : Heap Data) (init : Init) :
    Later D h (Memory.construct h init).1 := by
  rcases construct_cases h init with same | ⟨d, -, more⟩
  · rw [same]
    exact .refl h
  · rw [more]
    refine ⟨by rw [List.length_append]; exact Nat.le_add_right _ _, fun a c' inside live => ?_⟩
    rw [cell_append_one, if_neg (Nat.ne_of_lt inside)] at live
    exact ⟨c', live, .inr rfl⟩

theorem later_withData (changes : D a) (d : Data) : Later D h (withData h a d) := by
  refine ⟨Nat.le_of_eq List.length_set.symm, fun b c' inside live => ?_⟩
  by_cases here : a = b
  · subst here
    cases before : cell h a with
    | none =>
        rw [withData, before, Option.map_none, cell_set_self inside] at live
        cases live
    | some c => exact ⟨c, rfl, .inl changes⟩
  · rw [cell_withData_of_ne d here] at live
    exact ⟨c', live, .inr rfl⟩

theorem later_assign (changes : ∀ a i, p = .inside a i → D a) (v : Slot) :
    Later D m.heap (m.assign p v).heap := by
  cases p with
  | var x => exact .refl _
  | inside a i =>
      cases live : cell m.heap a with
      | none =>
          rw [assign, live]
          exact .refl _
      | some c =>
          rw [assign_inside live]
          exact later_withData (changes a i rfl) _

theorem later_emplaceBack (done : m.emplaceBack p a v = some m') (changes : D a) :
    Later D m.heap m'.heap := by
  obtain ⟨values, a', found, rfl, -⟩ := emplaceBack_eq done
  exact later_withData changes _

theorem later_setTo {init : Init} (done : m.setTo p init = some m')
    (changes : ∀ a i, p = .inside a i → D a) : Later D m.heap m'.heap := by
  obtain ⟨old, h, u, found, freed, still, rfl⟩ := setTo_eq done
  exact (later_destroy freed).trans ((later_construct h init).trans
    (@later_assign { m with heap := (Memory.construct h init).1 } p _ changes _))

/-- **A step changes the data of no other cell.** -/
theorem later_of_step (step : Step m op m') : Later (m.Changes op) m.heap m'.heap := by
  cases op with
  | construct init =>
      obtain rfl := Option.some.inj step
      exact later_construct _ init
  | copyConstruct rhs =>
      obtain ⟨v, h, found, copied, rfl⟩ := copyConstruct_eq step
      exact later_incr copied
  | moveConstruct rhs =>
      obtain ⟨v, found, rfl⟩ := moveConstruct_eq step
      exact later_assign (fun a i place => .inl ⟨i, place ▸ List.mem_cons_self⟩) _
  | destruct x =>
      obtain ⟨v, h, found, freed, rfl⟩ := destruct_eq step
      exact later_destroy freed
  | copyAssign this rhs =>
      obtain ⟨-, old, h, v, h', u, found, freed, value, copied, -, rfl⟩ := copyAssign_eq step
      refine (later_destroy freed).trans ((later_incr copied).trans ?_)
      exact @later_assign { m with heap := h' } this _
        (fun a i place => .inl ⟨i, place ▸ List.mem_cons_self⟩) v
  | moveAssign this rhs =>
      obtain ⟨-, old, h, v, u, found, freed, value, -, rfl⟩ := moveAssign_eq step
      have stored := @later_assign { m with heap := h } this (m.Changes (.moveAssign this rhs))
        (fun a i place => .inl ⟨i, place ▸ List.mem_cons_self⟩) v
      have moved := @later_assign ({ m with heap := h }.assign this v) rhs
        (m.Changes (.moveAssign this rhs))
        (fun a i place => .inl ⟨i, place ▸ List.mem_cons_of_mem _ List.mem_cons_self⟩) .null
      exact (later_destroy freed).trans (stored.trans moved)
  | setTo this init =>
      exact later_setTo step fun a i place => .inl ⟨i, place ▸ List.mem_cons_self⟩
  | setView this value =>
      obtain ⟨view, s, -, -, -, set⟩ := setView_eq step
      exact later_setTo set fun a i place => .inl ⟨i, place ▸ List.mem_cons_self⟩
  | addValue this init =>
      obtain ⟨a, array, done⟩ := bind_some step
      exact (later_construct _ init).trans (later_emplaceBack done (.inr array))
  | addValueCopy this value =>
      obtain ⟨a, array, done⟩ := bind_some step
      obtain ⟨v, found, done⟩ := bind_some done
      obtain ⟨h, copied, done⟩ := bind_some done
      exact (later_incr copied).trans (later_emplaceBack done (.inr array))
  | addValueMove this value =>
      obtain ⟨a, v, array, found, done⟩ := addValueMove_eq step
      exact (later_assign (fun a i place => .inl ⟨i, place ▸ List.mem_cons_self⟩) _).trans
        (later_emplaceBack done (.inr array))
  | addMember this key value =>
      obtain ⟨o, k, name, before, v, data, o', object, found, string, there, -, found', last,
        rfl, -⟩ := addMember_eq step
      refine (later_assign (fun a i place => .inl ⟨i, place ▸ List.mem_cons_self⟩) .null).trans
        ((later_assign (fun a i place => .inl
          ⟨i, place ▸ List.mem_cons_of_mem _ List.mem_cons_self⟩) .null).trans ?_)
      exact later_withData (.inr object) _

end Later

/-- The value leads to no cell whose data may change. -/
def Clear (m : Memory) (op : Op) (v : Slot) : Prop := ∀ a, LeadsTo m.heap v a → ¬ m.Changes op a

/-- **Frame.** A value that is still there means what it meant, if it leads to no cell that
the step writes. -/
theorem means_kept (held : Held m []) (step : Step m op m') (means : Means m.heap v x)
    (clear : m.Clear op v) (holds : m'.Holds v) : Means m'.heap v x := by
  have held' := held.perform step
  refine means.kept held'.counts (fun b mem => live_of_slot held'.counts (.inr holds) mem) ?_
  intro a leads c c' before after
  obtain ⟨c₀, there, same⟩ := (later_of_step step).before a c' (lt_of_cell before) after
  obtain rfl := Option.some.inj (before.symm.trans there)
  exact same.resolve_left (clear a leads)

section Kept

theorem load_of_declare {w : Slot} (live : m.Live p) (found : (m.declare v).load p = some w) :
    m.load p = some w := by
  cases p with
  | var x =>
      obtain ⟨u, there⟩ := live
      have inside := (List.getElem?_eq_some_iff.mp (var_of_load there)).1
      rw [load, declare, List.getElem?_append_left inside] at found
      exact found
  | inside a i => exact found

theorem load_of_undeclare {x : Nat} {w : Slot}
    (found : load { m with vars := m.vars.set x none } p = some w) : m.load p = some w := by
  cases p with
  | var y =>
      by_cases here : x = y
      · subst here
        have there := var_of_load found
        rw [List.getElem?_set] at there
        split at there
        · split at there <;> cases there
        · exact absurd rfl ‹_›
      · rw [load, List.getElem?_set_ne here] at found
        exact found
  | inside a i => exact found

/-- A container keeps what it has when it gets more. -/
theorem load_grown {c : Cell Data} {d : Data} (live : cell m.heap a = some c)
    (more : ∀ i w, c.data.get i = some w → d.get i = some w) (found : m.load p = some v) :
    load { m with heap := withData m.heap a d } p = some v := by
  cases p with
  | var x => exact found
  | inside b i =>
      by_cases here : a = b
      · subst here
        rw [load_inside live] at found
        exact (@load_inside { m with heap := withData m.heap a d } a _ (cell_withData_self live d)
          i).trans (more i v found)
      · have apart : ∀ i', Place.inside b i ≠ .inside a i' := fun i' same =>
          here (Place.inside.inj same).1.symm
        exact (load_append apart d).trans found

theorem load_emplaceBack (done : m.emplaceBack p a v = some m') (found : m.load q = some u) :
    m'.load q = some u := by
  obtain ⟨values, a', there, rfl, -⟩ := emplaceBack_eq done
  obtain ⟨c, live, array⟩ := elements_eq there
  refine load_grown live (fun i w at_ => ?_) found
  rw [array] at at_
  exact (List.getElem?_append_left (List.getElem?_eq_some_iff.mp at_).1).trans at_

theorem load_of_setTo {init : Init} (done : m.setTo q init = some m') (apart : q ≠ p)
    (found : m'.load p = some v) : m.load p = some v := by
  obtain ⟨old, h, u, -, freed, -, rfl⟩ := setTo_eq done
  rw [load_assign_of_ne _ _ apart] at found
  exact load_of_shrinks (release_shrinks freed).1 (load_of_construct found)

/-- A place that is not written to, and still there, has the value it had. -/
theorem load_kept (step : Step m op m') (found : m.load p = some v) (live : m'.Live p)
    (other : p ∉ written op) : m'.load p = some v := by
  obtain ⟨w, after⟩ := live
  have back (before : m.load p = some w) : m'.load p = some v := by
    rw [after, ← before, found]
  cases op with
  | construct init =>
      obtain rfl := Option.some.inj step
      exact back (load_of_construct (load_of_declare
        ⟨v, load_construct found init⟩ after))
  | copyConstruct rhs =>
      obtain ⟨u, h, -, copied, rfl⟩ := copyConstruct_eq step
      have shrinks := incr_shrinks copied
      exact back (load_of_shrinks shrinks.1 (load_of_declare
        ⟨v, load_of_shrinks shrinks.2 found⟩ after))
  | moveConstruct rhs =>
      obtain ⟨u, -, rfl⟩ := moveConstruct_eq step
      have apart : rhs ≠ p := fun same => other (same ▸ List.mem_cons_self)
      have there := load_assign_of_ne m .null apart
      exact back (there.symm.trans (load_of_declare ⟨v, there.trans found⟩ after))
  | destruct x =>
      obtain ⟨u, h, -, freed, rfl⟩ := destruct_eq step
      exact back (load_of_shrinks (release_shrinks freed).1
        (@load_of_undeclare { m with heap := h } p x w after))
  | copyAssign this rhs =>
      obtain ⟨-, old, h, u, h', -, -, freed, -, copied, -, rfl⟩ := copyAssign_eq step
      have apart : this ≠ p := fun same => other (same ▸ List.mem_cons_self)
      rw [load_assign_of_ne _ _ apart] at after
      exact back (load_of_shrinks (release_shrinks freed).1
        (load_of_shrinks (incr_shrinks copied).1 after))
  | moveAssign this rhs =>
      obtain ⟨-, old, h, u, -, -, freed, -, -, rfl⟩ := moveAssign_eq step
      have apart : this ≠ p := fun same => other (same ▸ List.mem_cons_self)
      have apart' : rhs ≠ p := fun same =>
        other (same ▸ List.mem_cons_of_mem _ List.mem_cons_self)
      rw [load_assign_of_ne _ _ apart', load_assign_of_ne _ _ apart] at after
      exact back (load_of_shrinks (release_shrinks freed).1 after)
  | setTo this init =>
      have apart : this ≠ p := fun same => other (same ▸ List.mem_cons_self)
      exact back (load_of_setTo step apart after)
  | setView this value =>
      obtain ⟨view, s, -, -, -, set⟩ := setView_eq step
      have apart : this ≠ p := fun same => other (same ▸ List.mem_cons_self)
      exact back (load_of_setTo set apart after)
  | addValue this init =>
      obtain ⟨a, -, done⟩ := bind_some step
      exact load_emplaceBack done (load_construct found init)
  | addValueCopy this value =>
      obtain ⟨a, -, done⟩ := bind_some step
      obtain ⟨u, -, done⟩ := bind_some done
      obtain ⟨h, copied, done⟩ := bind_some done
      exact load_emplaceBack done (load_of_shrinks (incr_shrinks copied).2 found)
  | addValueMove this value =>
      obtain ⟨a, u, -, -, done⟩ := addValueMove_eq step
      have apart : value ≠ p := fun same => other (same ▸ List.mem_cons_self)
      exact load_emplaceBack done ((load_assign_of_ne m .null apart).trans found)
  | addMember this key value =>
      obtain ⟨o, k, name, before, u, data, o', -, -, -, -, -, -, last, rfl, -⟩ := addMember_eq step
      obtain ⟨c, live, object⟩ := members_eq last
      have apart : key ≠ p := fun same => other (same ▸ List.mem_cons_self)
      have apart' : value ≠ p := fun same =>
        other (same ▸ List.mem_cons_of_mem _ List.mem_cons_self)
      refine load_grown live (fun i w at_ => ?_) ?_
      · rw [object, Data.get] at at_
        obtain ⟨e, there, rfl⟩ := Option.map_eq_some_iff.mp at_
        rw [Data.get, List.getElem?_append_left (List.getElem?_eq_some_iff.mp there).1, there]
        rfl
      · rw [load_assign_of_ne _ _ apart', load_assign_of_ne _ _ apart, found]

/-- **Every other place reads as before.** -/
theorem reads_kept (held : Held m []) (step : Step m op m') (reads : m.Reads p x)
    (other : p ∉ written op) (clear : ∀ v, m.load p = some v → m.Clear op v) (live : m'.Live p) :
    m'.Reads p x := by
  obtain ⟨v, found, means⟩ := reads
  have after := load_kept step found live other
  exact ⟨v, after, means_kept held step means (clear v found) (holds_of_load after)⟩

end Kept

/-! ## What a step is about -/

/-- The tree that is constructed. -/
def Init.value : Init → Value
  | .null => .null
  | .bool b => .bool b
  | .int32 i => .int32 i
  | .int64 i => .int64 i
  | .double d => .double d
  | .string s => .string s
  | .array => .array []
  | .object => .object []

/-- The place is not inside the value at `this`. -/
def Outside (m : Memory) (this p : Place) : Prop :=
  ∀ a i v, p = .inside a i → m.load this = some v → ¬ LeadsTo m.heap v a

section Result

variable {init : Init} {xs : List Value}

theorem cell_construct (new : a ∈ (Memory.construct h init).2.refs) :
    a = h.length ∧ ∃ c, cell (Memory.construct h init).1 a = some c := by
  cases init with
  | null | bool | int32 | int64 | double => cases new
  | string | array | object =>
      obtain rfl := List.mem_singleton.mp new
      refine ⟨rfl, ?_⟩
      rw [Memory.construct, cell_append_one, if_pos rfl]
      exact ⟨_, rfl⟩

theorem means_construct (h : Heap Data) (init : Init) :
    Means (Memory.construct h init).1 (Memory.construct h init).2 (Init.value init) := by
  have last (d : Data) : cell (h ++ [some ⟨1, d⟩]) h.length = some ⟨1, d⟩ := by
    rw [cell_append_one, if_pos rfl]
  cases init with
  | null => exact .null
  | bool b => exact .bool b
  | int32 i => exact .int32 i
  | int64 i => exact .int64 i
  | double d => exact .double d
  | string s => exact .string (getStringView_of_cell (last (.string s)) rfl)
  | array =>
      exact .array (elements_of_cell (last (.array [])) rfl) rfl fun i v x found => by cases found
  | object =>
      exact .object (members_of_cell (last (.object [])) rfl) rfl
        (fun i e n found => by cases found) fun i e n found => by cases found

/-- A constructed value leads to its own cell only. -/
theorem leadsTo_construct
    (leads : LeadsTo (Memory.construct h init).1 (Memory.construct h init).2 a) :
    a = h.length := by
  obtain ⟨b, own, path⟩ := leads
  obtain ⟨rfl, -⟩ := cell_construct own
  rcases ReflTransGen.cases_head path with same | ⟨n, edge, -⟩
  · exact same.symm
  · obtain ⟨c, live, -⟩ := refers_construct edge
    exact absurd (lt_of_cell live) (Nat.lt_irrefl _)

/-- It means the same wherever it has been put. -/
theorem means_constructed (held : Held m' [])
    (later : Later (· < h.length) (Memory.construct h init).1 m'.heap)
    (holds : m'.Holds (Memory.construct h init).2) :
    Means m'.heap (Memory.construct h init).2 (Init.value init) := by
  refine (means_construct h init).kept held.counts
    (fun b mem => live_of_slot held.counts (.inr holds) mem) ?_
  intro a leads c c' before after
  obtain ⟨c₀, there, same⟩ := later.before a c' (lt_of_cell before) after
  obtain rfl := Option.some.inj (before.symm.trans there)
  exact same.resolve_left fun inside => absurd (leadsTo_construct leads) (Nat.ne_of_lt inside)

theorem load_declare (h : Heap Data) (vars : List (Option Slot)) (v : Slot) :
    (declare ⟨h, vars⟩ v).load (.var vars.length) = some v := by
  rw [declare, load, List.getElem?_concat_length]
  rfl

/-- What lies in a container does not lead back to it. -/
theorem not_back {c : Cell Data} (acyclic : Acyclic Data.refs m.heap)
    (live : cell m.heap a = some c) (inside : v ∈ c.data.slots) : ¬ LeadsTo m.heap v a := by
  rintro ⟨b, own, path⟩
  exact acyclic a (TransGen.head' ⟨c, live, List.mem_flatMap.mpr ⟨v, inside, own⟩⟩ path)

/-- The element an array gets. -/
theorem means_array_append {c : Cell Data} {values : List Slot} (held : Held m [])
    (acyclic : Acyclic Data.refs m.heap) (step : Step m op m')
    (means : Means m.heap (.array a) (.array xs)) (before : elements m.heap a = some values)
    (after : cell m'.heap a = some c) (array : c.data = .array (values ++ [v]))
    (only : ∀ b, m.Changes op b → b = a ∨ ¬ LeadsTo m.heap (.array a) b)
    (new : Means m'.heap v x) : Means m'.heap (.array a) (.array (xs ++ [x])) := by
  cases means with
  | array found length each =>
      obtain rfl := Option.some.inj (before.symm.trans found)
      obtain ⟨c₀, live, array₀⟩ := elements_eq before
      have kept (i : Nat) (w : Slot) (y : Value) (left : values[i]? = some w)
          (right : xs[i]? = some y) : Means m'.heap w y := by
        have mem := List.mem_of_getElem? left
        refine means_kept held step (each i w y left right) (fun b leads changes => ?_)
          (.inr ⟨a, c, after, mem_array array (List.mem_append_left _ mem)⟩)
        rcases only b changes with rfl | away
        · exact not_back acyclic live (mem_array array₀ mem) leads
        · exact away (leadsTo_of_element List.mem_cons_self live (mem_array array₀ mem) leads)
      exact .array (elements_of_cell after array) (by simp [length])
        (pointwise_append length kept new)

theorem means_string_iff {s : Bytes} : Means h v (.string s) ↔ getStringView h v = some s := by
  constructor
  · intro means
    cases means with
    | string view => exact view
  · intro view
    obtain ⟨a, c, rfl, -, -⟩ := getStringView_eq view
    exact .string view

/-- The member an object gets. -/
theorem means_object_append {c : Cell Data} {data : List (Slot × Slot)}
    {entries : List (Bytes × Value)} {k : Slot} {name : Bytes} (held : Held m [])
    (acyclic : Acyclic Data.refs m.heap) (step : Step m op m')
    (means : Means m.heap (.object a) (.object entries)) (before : members m.heap a = some data)
    (after : cell m'.heap a = some c) (object : c.data = .object (data ++ [(k, v)]))
    (only : ∀ b, m.Changes op b → b = a ∨ ¬ LeadsTo m.heap (.object a) b)
    (key : getStringView m'.heap k = some name) (new : Means m'.heap v x) :
    Means m'.heap (.object a) (.object (entries ++ [(name, x)])) := by
  cases means with
  | object found length keys each =>
      obtain rfl := Option.some.inj (before.symm.trans found)
      obtain ⟨c₀, live, object₀⟩ := members_eq before
      have kept {e : Slot × Slot} {w : Slot} {y : Value} (mem : e ∈ data) (part : w ∈ [e.2, e.1])
          (means : Means m.heap w y) : Means m'.heap w y := by
        have inside := mem_object object₀ mem part
        refine means_kept held step means (fun b leads changes => ?_)
          (.inr ⟨a, c, after, mem_object object (List.mem_append_left _ mem) part⟩)
        rcases only b changes with rfl | away
        · exact not_back acyclic live inside leads
        · exact away (leadsTo_of_element List.mem_cons_self live inside leads)
      have each' := pointwise_append (R := fun e n => getStringView m'.heap e.1 = some n.1 ∧
        Means m'.heap e.2 n.2) (a := (k, v)) (b := (name, x)) length (fun i e n left right => by
          have mem := List.mem_of_getElem? left
          have view := kept mem (List.mem_cons_of_mem _ List.mem_cons_self)
            (means_string_iff.mpr (keys i e n left right))
          exact ⟨means_string_iff.mp view,
            kept mem List.mem_cons_self (each i e n left right)⟩) ⟨key, new⟩
      exact .object (members_of_cell after object) (by simp [length])
        (fun i e n left right => (each' i e n left right).1)
        fun i e n left right => (each' i e n left right).2

/-- The data of a container that has not been written to. -/
theorem cell_before {D : Nat → Prop} {c c' : Cell Data} (later : Later D h h')
    (before : cell h a = some c) (after : cell h' a = some c') (other : ¬ D a) :
    c'.data = c.data := by
  obtain ⟨c₀, there, same⟩ := later.before a c' (lt_of_cell before) after
  obtain rfl := Option.some.inj (before.symm.trans there)
  exact same.resolve_left other

theorem reads_emplaceBack {m₁ : Memory} {D : Nat → Prop} (held : Held m [])
    (acyclic : Acyclic Data.refs m.heap) (step : Step m op m') (array : m.arrayAt p = some a)
    (later : Later D m.heap m₁.heap) (other : ¬ D a) (there : m₁.load p = some (.array a))
    (done : m₁.emplaceBack p a v = some m')
    (only : ∀ b, m.Changes op b → b = a ∨ ¬ LeadsTo m.heap (.array a) b)
    (reads : m.Reads p (.array xs)) (new : m'.Holds v → Means m'.heap v x) :
    m'.Reads p (.array (xs ++ [x])) := by
  obtain ⟨w, found, means⟩ := reads
  obtain rfl := Option.some.inj (found.symm.trans (arrayAt_eq array))
  have last := load_emplaceBack done there
  obtain ⟨values, a', elements', rfl, -⟩ := emplaceBack_eq done
  obtain ⟨c₁, live₁, array₁⟩ := elements_eq elements'
  obtain ⟨c, live, -⟩ := held.fits _ (.inr (holds_of_load found)) a List.mem_cons_self
  have same := cell_before later live live₁ other
  have after := cell_withData_self live₁ (.array (values ++ [v]))
  refine ⟨_, last, means_array_append held acyclic step means
    (elements_of_cell live (same.symm.trans array₁)) after rfl only (new (.inr ⟨a, _, after, ?_⟩))⟩
  exact List.mem_append_right _ List.mem_cons_self

theorem vars_length_assign (m : Memory) (p : Place) (v : Slot) :
    (m.assign p v).vars.length = m.vars.length := by
  cases p with
  | var x => exact List.length_set
  | inside a i => cases live : cell m.heap a <;> simp only [assign, live]

theorem load_declared (found : m.load p = some u) (v : Slot) :
    (m.declare v).load p = some u := by
  cases p with
  | var x =>
      have inside := (List.getElem?_eq_some_iff.mp (var_of_load found)).1
      rw [load, declare, List.getElem?_append_left inside]
      exact found
  | inside a i => exact found

/-- A value that is moved does not lead back to where it has been. -/
theorem not_back_of_load (acyclic : Acyclic Data.refs m.heap) {i : Nat}
    (found : m.load (.inside a i) = some v) : ¬ LeadsTo m.heap v a := by
  obtain ⟨c, live, value⟩ := inside_of_load found
  exact not_back acyclic live (Data.mem_slots_of_get value)

theorem reads_copyConstruct {rhs : Place} (held : Held m [])
    (step : Step m (.copyConstruct rhs) m') (reads : m.Reads rhs x) :
    m'.Reads (.var m.vars.length) x := by
  obtain ⟨v, found, means⟩ := reads
  have kept := means_kept held step means fun b _ changes => by
    rcases changes with ⟨i, mem⟩ | more
    · cases mem
    · cases more
  obtain ⟨v', h, found', copied, rfl⟩ := copyConstruct_eq step
  obtain rfl := Option.some.inj (found.symm.trans found')
  have last := load_declare h m.vars v
  exact ⟨v, last, kept (holds_of_load last)⟩

theorem reads_moveConstruct {rhs : Place} (held : Held m []) (acyclic : Acyclic Data.refs m.heap)
    (step : Step m (.moveConstruct rhs) m') (reads : m.Reads rhs x) :
    m'.Reads (.var m.vars.length) x ∧ m'.Reads rhs .null := by
  obtain ⟨v, found, means⟩ := reads
  have kept := means_kept held step means fun b leads changes => by
    rcases changes with ⟨i, mem⟩ | more
    · obtain rfl := List.mem_singleton.mp mem
      exact not_back_of_load acyclic found leads
    · cases more
  obtain ⟨v', found', rfl⟩ := moveConstruct_eq step
  obtain rfl := Option.some.inj (found.symm.trans found')
  have last := load_declare (m.assign rhs .null).heap (m.assign rhs .null).vars v
  rw [vars_length_assign] at last
  exact ⟨⟨v, last, kept (holds_of_load last)⟩,
    .null, load_declared (load_assign_self found .null) v, .null⟩

theorem reads_copyAssign {this rhs : Place} (held : Held m [])
    (apart : m.NoCycle (.copyAssign this rhs)) (step : Step m (.copyAssign this rhs) m')
    (reads : m.Reads rhs x) : m'.Reads this x := by
  obtain ⟨v, found, means⟩ := reads
  have kept := means_kept held step means fun b leads changes => by
    rcases changes with ⟨i, mem⟩ | more
    · obtain ⟨d, own, path⟩ := leads
      exact apart b i (List.mem_singleton.mp mem).symm v found d own path
    · cases more
  obtain ⟨-, old, h, v', h', u, -, freed, value, -, still, rfl⟩ := copyAssign_eq step
  have same := load_of_shrinks (release_shrinks freed).1 value
  obtain rfl := Option.some.inj (found.symm.trans same)
  have last := load_assign_self still v
  exact ⟨v, last, kept (holds_of_load last)⟩

theorem reads_moveAssign {this rhs : Place} (held : Held m []) (acyclic : Acyclic Data.refs m.heap)
    (apart : m.NoCycle (.moveAssign this rhs)) (step : Step m (.moveAssign this rhs) m')
    (reads : m.Reads rhs x) : m'.Reads this x ∧ m'.Reads rhs .null := by
  obtain ⟨v, found, means⟩ := reads
  have kept := means_kept held step means fun b leads changes => by
    rcases changes with ⟨i, mem⟩ | more
    · rcases List.mem_cons.mp mem with here | mem
      · obtain ⟨d, own, path⟩ := leads
        exact apart b i here.symm v found d own path
      · obtain rfl := List.mem_singleton.mp mem
        exact not_back_of_load acyclic found leads
    · cases more
  obtain ⟨other, old, h, v', u, -, freed, value, still, rfl⟩ := moveAssign_eq step
  have same := load_of_shrinks (release_shrinks freed).1 value
  obtain rfl := Option.some.inj (found.symm.trans same)
  have last := (load_assign_of_ne _ .null (Ne.symm other)).trans (load_assign_self still v)
  have moved := (load_assign_of_ne _ v other).trans value
  exact ⟨⟨v, last, kept (holds_of_load last)⟩, .null, load_assign_self moved .null, .null⟩

theorem reads_construct (held : Held m []) (step : Step m (.construct init) m') :
    m'.Reads (.var m.vars.length) (Init.value init) := by
  have held' := held.perform step
  obtain rfl := Option.some.inj step
  have last := load_declare (Memory.construct m.heap init).1 m.vars (Memory.construct m.heap init).2
  exact ⟨_, last, means_constructed held' (.refl _) (holds_of_load last)⟩

theorem reads_setTo {this : Place} (held : Held m []) (step : Step m (.setTo this init) m') :
    m'.Reads this (Init.value init) := by
  have held' := held.perform step
  obtain ⟨old, h, u, -, freed, still, rfl⟩ := setTo_eq step
  have last := load_assign_self still (Memory.construct h init).2
  have places : ∀ a i, this = .inside a i → a < h.length := by
    rintro a i rfl
    obtain ⟨c, live, -⟩ := inside_of_load (load_of_construct still)
    exact lt_of_cell live
  have later := @later_assign { m with heap := (Memory.construct h init).1 } this (· < h.length)
    places (Memory.construct h init).2
  exact ⟨_, last, means_constructed held' later (holds_of_load last)⟩

theorem reads_setView {this value : Place} {s : Bytes} (held : Held m [])
    (step : Step m (.setView this value) m') (reads : m.Reads value (.string s)) :
    m'.Reads this (.string s) := by
  obtain ⟨view, s', found, string, -, set⟩ := setView_eq step
  obtain ⟨view', found', means⟩ := reads
  obtain rfl := Option.some.inj (found.symm.trans found')
  obtain rfl := Option.some.inj (string.symm.trans (means_string_iff.mp means))
  have set' : Step m (.setTo this (.string _)) m' := set
  exact reads_setTo held set'

theorem reads_addValue {this : Place} (held : Held m []) (acyclic : Acyclic Data.refs m.heap)
    (step : Step m (.addValue this init) m') (reads : m.Reads this (.array xs)) :
    m'.Reads this (.array (xs ++ [Init.value init])) := by
  obtain ⟨a, array, done⟩ := bind_some step
  obtain ⟨c, live, -⟩ := held.fits _ (.inr (holds_of_load (arrayAt_eq array))) a List.mem_cons_self
  refine reads_emplaceBack (D := fun _ => False) held acyclic step array (later_construct _ init)
    id (load_construct (arrayAt_eq array) init) done (fun b changes => .inl ?_) reads fun holds =>
    means_constructed (held.perform step) (later_emplaceBack done (lt_of_cell live)) holds
  rcases changes with ⟨i, mem⟩ | more
  · cases mem
  · exact (Option.some.inj (array.symm.trans more)).symm

theorem reads_addValueCopy {this value : Place} (held : Held m [])
    (acyclic : Acyclic Data.refs m.heap) (apart : m.NoCycle (.addValueCopy this value))
    (step : Step m (.addValueCopy this value) m') (reads : m.Reads this (.array xs))
    (reads' : m.Reads value x) : m'.Reads this (.array (xs ++ [x])) := by
  obtain ⟨a, array, done⟩ := bind_some step
  obtain ⟨v, found, done⟩ := bind_some done
  obtain ⟨h, copied, done⟩ := bind_some done
  obtain ⟨v', found', means⟩ := reads'
  obtain rfl := Option.some.inj (found.symm.trans found')
  have only : ∀ b, m.Changes (.addValueCopy this value) b → b = a := by
    rintro b (⟨i, mem⟩ | more)
    · cases mem
    · exact (Option.some.inj (array.symm.trans more)).symm
  refine reads_emplaceBack (D := fun _ => False) held acyclic step array (later_incr copied) id
    (load_of_shrinks (incr_shrinks copied).2 (arrayAt_eq array)) done
    (fun b changes => .inl (only b changes)) reads fun holds => ?_
  refine means_kept held step means (fun b leads changes => ?_) holds
  obtain rfl := only b changes
  obtain ⟨d, own, path⟩ := leads
  exact apart b array v found d own path

theorem reads_addValueMove {this value : Place} (held : Held m [])
    (acyclic : Acyclic Data.refs m.heap) (apart : m.NoCycle (.addValueMove this value))
    (step : Step m (.addValueMove this value) m') (reads : m.Reads this (.array xs))
    (reads' : m.Reads value x) (outside : m.Outside this value) :
    m'.Reads this (.array (xs ++ [x])) := by
  obtain ⟨a, v, array, found, done⟩ := addValueMove_eq step
  obtain ⟨v', found', means⟩ := reads'
  obtain rfl := Option.some.inj (found.symm.trans found')
  have other : this ≠ value := (step_iff held acyclic).mp ⟨m', step⟩ |>.2.2
  have away : ∀ b i, value = .inside b i → ¬ LeadsTo m.heap (.array a) b := fun b i place =>
    outside b i _ place (arrayAt_eq array)
  refine reads_emplaceBack (D := fun b => ∃ i, value = .inside b i) held acyclic step array
    (later_assign (fun b i place => ⟨i, place⟩) .null) ?_
    ((load_assign_of_ne m .null (Ne.symm other)).trans (arrayAt_eq array)) done ?_ reads
    fun holds => means_kept held step means (fun b leads changes => ?_) holds
  · rintro ⟨i, place⟩
    exact away a i place ⟨a, List.mem_cons_self, .refl⟩
  · rintro b (⟨i, mem⟩ | more)
    · exact .inr (away b i (List.mem_singleton.mp mem).symm)
    · exact .inl (Option.some.inj (array.symm.trans more)).symm
  · rcases changes with ⟨i, mem⟩ | more
    · obtain rfl := List.mem_singleton.mp mem
      exact not_back_of_load acyclic found leads
    · obtain ⟨d, own, path⟩ := leads
      exact apart b more v found d own path

/-- The entries of an object are named as its members are. -/
theorem lookup_of_fresh {data : List (Slot × Slot)} {entries : List (Bytes × Value)} {name : Bytes}
    (length : data.length = entries.length)
    (keys : ∀ (i : Nat) (e : Slot × Slot) (n : Bytes × Value), data[i]? = some e →
      entries[i]? = some n → getStringView h e.1 = some n.1)
    (fresh : ∀ e ∈ data, getStringView h e.1 ≠ some name) : entries.lookup name = none := by
  refine List.lookup_eq_none_iff.mpr fun n mem => ?_
  obtain ⟨i, found⟩ := List.mem_iff_getElem?.mp mem
  have inside : i < data.length := length ▸ (List.getElem?_eq_some_iff.mp found).1
  have view := keys i data[i] n (List.getElem?_eq_getElem inside) found
  refine bne_iff_ne.mpr fun same => ?_
  exact fresh data[i] (List.getElem_mem inside) (same ▸ view)

/-- A string's cell is no container. -/
theorem not_leads_string {s i : Nat} {u : Slot} (fits : Fits m.heap (.string s))
    (found : m.load (.inside a i) = some u) : ¬ LeadsTo m.heap (.string s) a := by
  rintro ⟨b, own, path⟩
  obtain rfl := List.mem_singleton.mp own
  obtain ⟨c, live, value⟩ := inside_of_load found
  obtain ⟨c', live', type⟩ := fits b List.mem_cons_self
  have none : c'.data.slots = [] := by
    cases data : c'.data with
    | string => rfl
    | array | object => rw [data] at type; cases type
  have here : b = a := by
    rcases ReflTransGen.cases_head path with same | ⟨n, ⟨c'', live'', mem⟩, -⟩
    · exact same
    · obtain rfl := Option.some.inj (live'.symm.trans live'')
      rw [Data.refs, none] at mem
      cases mem
  subst here
  obtain rfl := Option.some.inj (live.symm.trans live')
  have inside := Data.mem_slots_of_get value
  rw [none] at inside
  cases inside

theorem changes_addMember {this key value : Place} {o b : Nat} (object : m.objectAt this = some o)
    (change : m.Changes (.addMember this key value) b) :
    (∃ i, key = .inside b i) ∨ (∃ i, value = .inside b i) ∨ b = o := by
  rcases change with ⟨i, mem⟩ | more
  · rcases List.mem_cons.mp mem with here | mem
    · exact .inl ⟨i, here.symm⟩
    · exact .inr (.inl ⟨i, (List.mem_singleton.mp mem).symm⟩)
  · exact .inr (.inr (Option.some.inj (object.symm.trans more)).symm)

/-- What is moved from elsewhere leaves an object's members alone. -/
theorem members_kept {key value : Place} {o : Nat} {before data : List (Slot × Slot)}
    (there : members m.heap o = some before)
    (after : members ((m.assign key .null).assign value .null).heap o = some data)
    (outside : ∀ i, key ≠ .inside o i) (outside' : ∀ i, value ≠ .inside o i) : data = before := by
  obtain ⟨c, live, object⟩ := members_eq there
  obtain ⟨c', live', object'⟩ := members_eq after
  have later : Later (fun b => (∃ i, key = .inside b i) ∨ ∃ i, value = .inside b i) m.heap
      ((m.assign key .null).assign value .null).heap :=
    (later_assign (fun b i here => .inl ⟨i, here⟩) .null).trans
      (later_assign (fun b i here => .inr ⟨i, here⟩) .null)
  have kept := cell_before later live live' fun wrote => by
    rcases wrote with ⟨i, here⟩ | ⟨i, here⟩
    · exact outside i here
    · exact outside' i here
  exact Data.object.inj (object'.symm.trans (kept.trans object))

theorem reads_addMember {this key value : Place} {t : Value} {name : Bytes} (held : Held m [])
    (acyclic : Acyclic Data.refs m.heap) (apart : m.NoCycle (.addMember this key value))
    (step : Step m (.addMember this key value) m') (reads : m.Reads this t)
    (reads' : m.Reads key (.string name)) (reads'' : m.Reads value x) (two : key ≠ value)
    (outside : m.Outside this key) (outside' : m.Outside this value)
    (outside'' : m.Outside value key) :
    ∃ t', t.addMember name x = .ok t' ∧ m'.Reads this t' := by
  have safe := (step_iff held acyclic).mp ⟨m', step⟩
  obtain ⟨o, k, name', before, v, data, o', object, found, string, there, search, found', last,
    rfl, again⟩ := addMember_eq step
  rw [load_assign_of_ne m .null two] at found'
  -- what the places are
  obtain ⟨w, place, means⟩ := reads
  obtain rfl := Option.some.inj (place.symm.trans (objectAt_eq object))
  obtain ⟨k', place', keyMeans⟩ := reads'
  obtain rfl := Option.some.inj (found.symm.trans place')
  obtain ⟨v', place'', newMeans⟩ := reads''
  obtain rfl := Option.some.inj (found'.symm.trans place'')
  obtain rfl := Option.some.inj ((means_string_iff.mp keyMeans).symm.trans string)
  -- what the step writes
  have only : ∀ b, m.Changes (.addMember this key value) b →
      b = o ∨ ¬ LeadsTo m.heap (.object o) b := by
    intro b change
    rcases changes_addMember object change with ⟨i, here⟩ | ⟨i, here⟩ | here
    · exact .inr (outside b i _ here place)
    · exact .inr (outside' b i _ here place)
    · exact .inl here
  obtain ⟨c, live, object'⟩ := members_eq last
  obtain ⟨c₀, live₀, object₀⟩ := members_eq there
  have after := cell_withData_self live (.object (data ++ [(k, v)]))
  have same : data = before := members_kept there last (fun i here =>
    outside o i _ here place ⟨o, List.mem_cons_self, .refl⟩) fun i here =>
      outside' o i _ here place ⟨o, List.mem_cons_self, .refl⟩
  subst same
  have slots : ∀ w ∈ [v, k], w ∈ (Data.object (data ++ [(k, v)])).slots := fun w part =>
    mem_object (e := (k, v)) rfl (List.mem_append_right _ List.mem_cons_self) part
  have key' := means_kept held step keyMeans (fun b leads change => by
    obtain ⟨s, ck, rfl, -, -⟩ := getStringView_eq string
    have fits := held.fits _ (.inr (holds_of_load found))
    rcases changes_addMember object change with ⟨i, rfl⟩ | ⟨i, rfl⟩ | rfl
    · exact not_leads_string fits found leads
    · exact not_leads_string fits found' leads
    · obtain ⟨d, mem, path⟩ := leads
      obtain rfl := List.mem_singleton.mp mem
      exact apart_string fits live₀ (by rw [object₀]; rfl) path)
    (.inr ⟨o, _, after, slots k (List.mem_cons_of_mem _ List.mem_cons_self)⟩)
  have new := means_kept held step newMeans (fun b leads change => by
    rcases changes_addMember object change with ⟨i, rfl⟩ | ⟨i, rfl⟩ | rfl
    · exact outside'' b i _ rfl found' leads
    · exact not_back_of_load acyclic found' leads
    · obtain ⟨d, mem, path⟩ := leads
      exact apart b object v found' d mem path)
    (.inr ⟨o, _, after, slots v List.mem_cons_self⟩)
  cases means with
  | @object _ _ entries found₁ length keys each =>
      obtain rfl := Option.some.inj (there.symm.trans found₁)
      obtain ⟨it, search', ends⟩ := findMember_end name (keys_viewed held there)
      have fresh := ends.mp (Option.some.inj (search'.symm.trans search))
      have added : (Value.object entries).addMember name x =
          .ok (.object (entries ++ [(name, x)])) := by
        rw [Value.addMember, lookup_of_fresh length keys fresh]
      refine ⟨_, added, _, load_kept step place ⟨_, objectAt_eq again⟩ ?_, ?_⟩
      · rintro mem
        rcases List.mem_cons.mp mem with here | mem
        · subst here
          obtain rfl := Option.some.inj (place.symm.trans found)
          cases string
        · exact safe.1 (List.mem_singleton.mp mem)
      · exact means_object_append held acyclic step (.object found₁ length keys each) there after
          rfl only (means_string_iff.mp key') new

end Result

/-- What a step does to trees. -/
def Result (m m' : Memory) : Op → Prop
  | .construct init => m'.Reads (.var m.vars.length) (Init.value init)
  | .copyConstruct rhs => ∀ x, m.Reads rhs x → m'.Reads (.var m.vars.length) x
  | .moveConstruct rhs => ∀ x, m.Reads rhs x →
      m'.Reads (.var m.vars.length) x ∧ m'.Reads rhs .null
  | .destruct x => ¬ m'.Live (.var x)
  | .copyAssign this rhs => ∀ x, m.Reads rhs x → m'.Reads this x
  | .moveAssign this rhs => ∀ x, m.Reads rhs x → m'.Reads this x ∧ m'.Reads rhs .null
  | .setTo this init => m'.Reads this (Init.value init)
  | .setView this value => ∀ s, m.Reads value (.string s) → m'.Reads this (.string s)
  | .addValue this init => ∀ xs, m.Reads this (.array xs) →
      m'.Reads this (.array (xs ++ [Init.value init]))
  | .addValueCopy this value => ∀ xs x, m.Reads this (.array xs) → m.Reads value x →
      m'.Reads this (.array (xs ++ [x]))
  | .addValueMove this value => ∀ xs x, m.Reads this (.array xs) → m.Reads value x →
      m.Outside this value → m'.Reads this (.array (xs ++ [x]))
  | .addMember this key value => ∀ t name x, m.Reads this t → m.Reads key (.string name) →
      m.Reads value x → key ≠ value → m.Outside this key → m.Outside this value →
      m.Outside value key → ∃ t', t.addMember name x = .ok t' ∧ m'.Reads this t'

/-- **The place a step is about reads as the tree it was to become.** -/
theorem reads_result (held : Held m []) (acyclic : Acyclic Data.refs m.heap)
    (apart : m.NoCycle op) (step : Step m op m') : m.Result m' op := by
  cases op with
  | construct init => exact reads_construct held step
  | copyConstruct rhs => exact fun x => reads_copyConstruct held step
  | moveConstruct rhs => exact fun x => reads_moveConstruct held acyclic step
  | destruct x =>
      obtain ⟨v, h, -, freed, rfl⟩ := destruct_eq step
      rintro ⟨w, found⟩
      have there := var_of_load found
      rw [List.getElem?_set] at there
      split at there
      · split at there <;> cases there
      · exact absurd rfl ‹_›
  | copyAssign this rhs => exact fun x => reads_copyAssign held apart step
  | moveAssign this rhs => exact fun x => reads_moveAssign held acyclic apart step
  | setTo this init => exact reads_setTo held step
  | setView this value => exact fun s => reads_setView held step
  | addValue this init => exact fun xs => reads_addValue held acyclic step
  | addValueCopy this value => exact fun xs x => reads_addValueCopy held acyclic apart step
  | addValueMove this value => exact fun xs x => reads_addValueMove held acyclic apart step
  | addMember this key value =>
      exact fun t name x => reads_addMember held acyclic apart step

/-- **Memory refines trees.** In a program that puts no value into itself every value is
exactly one tree; a step does to the tree of the place it is about what it says, and leaves
the tree of every other place as it was, unless that leads to a cell the step writes. -/
theorem trees_of_run {trace : List (Memory × Op)}
    (run : Run (fun m op m' => Step m op m' ∧ m.NoCycle op) start trace m) :
    (∀ p, m.Live p → ∃! x, m.Reads p x) ∧
    ∀ op m', Step m op m' → m.NoCycle op → m.Result m' op ∧
      ∀ p x, m.Reads p x → p ∉ written op → (∀ v, m.load p = some v → m.Clear op v) →
        m'.Live p → m'.Reads p x := by
  obtain ⟨held, acyclic⟩ := acyclic_of_run run
  refine ⟨fun p live => ?_, fun op m' step apart => ⟨reads_result held acyclic apart step, ?_⟩⟩
  · obtain ⟨v, found⟩ := live
    obtain ⟨x, means⟩ := means_of_acyclic held acyclic (holds_of_load found)
    refine ⟨x, ⟨v, found, means⟩, ?_⟩
    rintro y ⟨v', found', means'⟩
    obtain rfl := Option.some.inj (found.symm.trans found')
    exact means'.unique means
  · exact fun p x reads other clear live => reads_kept held step reads other clear live

/-- A number is added to a shared array. -/
theorem trees_of_shared : ∃ m', Step
    ⟨[some ⟨2, .array [.int32 5]⟩], [some (.array 0), some .null, some (.array 0)]⟩
    (.addValue (.var 0) (.int32 7)) m' ∧ m'.Reads (.var 0) (.array [.int32 5, .int32 7]) := by
  obtain ⟨trace, run⟩ := shared_run
  have five : Reads ⟨[some ⟨2, .array [.int32 5]⟩], [some (.array 0), some .null, some (.array 0)]⟩
      (.var 0) (.array [.int32 5]) := by
    have found : elements [some ⟨2, .array [.int32 5]⟩] 0 = some [.int32 5] := rfl
    refine ⟨.array 0, rfl, .array found rfl fun i v x left right => ?_⟩
    cases i with
    | zero =>
        obtain rfl := Option.some.inj left
        obtain rfl := Option.some.inj right
        exact .int32 5
    | succ i => cases left
  have step : Step
      ⟨[some ⟨2, .array [.int32 5]⟩], [some (.array 0), some .null, some (.array 0)]⟩
      (.addValue (.var 0) (.int32 7))
      ⟨[some ⟨2, .array [.int32 5, .int32 7]⟩], [some (.array 0), some .null, some (.array 0)]⟩ :=
    rfl
  exact ⟨_, step, ((trees_of_run run).2 _ _ step trivial).1 [.int32 5] five⟩

end LaliRpc.Jackson.Memory
