/-
# Jackson.ValueCounts — every count is the number of values that point to the cell

`Held` is the invariant of the memory while a function has some values in its hands: the
counts are right, every value points to a live cell of its type, and the keys of objects are
strings. Each primitive of the functions keeps it (a value is taken, copied, constructed,
destroyed, put somewhere), hence each function does (`Held.perform`) and so does a whole run:
destructors and copies never fault, and what the last variable leaves behind are cycles
(`accounted_of_run`).
-/
import LaliRpc.Jackson.ValueMemory
import LaliRpc.Theory.Transition

namespace LaliRpc.Jackson

set_option autoImplicit false

open Theory (Run)
open Theory.RefCount

/-- The type that points to a cell with such data. -/
def Data.type : Data → ValueType
  | .string _ => .string
  | .array _ => .array
  | .object _ => .object

/-- `getType` -/
def Slot.type : Slot → ValueType
  | .null => .null
  | .bool _ => .bool
  | .int32 _ => .int32
  | .int64 _ => .int64
  | .double _ => .double
  | .string _ => .string
  | .array _ => .array
  | .object _ => .object

/-- The cell is live, and of the value's type. -/
def Fits (h : Heap Data) (v : Slot) : Prop :=
  ∀ a ∈ v.refs, ∃ c, cell h a = some c ∧ c.data.type = v.type

theorem Fits.mono {h h' : Heap Data} {v : Slot} (fits : Fits h v)
    (types : ∀ a c c', cell h a = some c → cell h' a = some c' → c'.data.type = c.data.type)
    (live : ∀ a ∈ v.refs, ∃ c, cell h' a = some c) : Fits h' v := by
  intro a mem
  obtain ⟨c, before, type⟩ := fits a mem
  obtain ⟨c', after⟩ := live a mem
  exact ⟨c', after, (types a c c' before after).trans type⟩

namespace Data

variable {d : Data} {i : Nat} {u v w : Slot}

theorem modify_value {members : List (Slot × Slot)} {e : Slot × Slot} (found : members[i]? = some e)
    (v : Slot) : (members.modify i fun m => (m.1, v)) = members.set i (e.1, v) := by
  apply List.ext_getElem?
  intro j
  rw [List.getElem?_modify, List.getElem?_set]
  by_cases here : i = j
  · subst here
    rw [found, if_pos rfl, if_pos (List.getElem?_eq_some_iff.mp found).1]
    simp
  · rw [if_neg here]
    simp [here]

theorem type_set (d : Data) (i : Nat) (v : Slot) : (d.set i v).type = d.type := by
  cases d <;> rfl

theorem get_set (found : d.get i = some u) (v : Slot) : (d.set i v).get i = some v := by
  cases d with
  | string => cases found
  | array values =>
      rw [set, get, List.getElem?_set_self (List.getElem?_eq_some_iff.mp found).1]
  | object members =>
      obtain ⟨e, found', -⟩ := Option.map_eq_some_iff.mp found
      rw [set, modify_value found', get,
        List.getElem?_set_self (List.getElem?_eq_some_iff.mp found').1]
      rfl

theorem get_set_of_ne {j : Nat} (d : Data) (v : Slot) (other : i ≠ j) :
    (d.set i v).get j = d.get j := by
  cases d with
  | string => rfl
  | array values => exact List.getElem?_set_ne other
  | object members =>
      rw [set, get, get, List.getElem?_modify]
      simp [other]

theorem set_set (d : Data) (i : Nat) (u v : Slot) : (d.set i u).set i v = d.set i v := by
  cases d with
  | string => rfl
  | array values => exact congrArg Data.array (List.set_set u)
  | object members => exact congrArg Data.object (List.modify_modify_eq _ _ _ _)

theorem count_object (members : List (Slot × Slot)) (b : Nat) : (object members).refs.count b =
    (members.map fun m => m.2.refs.count b + m.1.refs.count b).sum := by
  rw [refs, slots, List.flatMap_assoc, List.count_flatMap]
  refine congrArg List.sum (List.map_congr_left fun m _ => ?_)
  simp [List.count_append]

theorem set_get (found : d.get i = some u) : d.set i u = d := by
  cases d with
  | string => rfl
  | array values =>
      obtain ⟨inside, same⟩ := List.getElem?_eq_some_iff.mp found
      exact congrArg Data.array (same ▸ List.set_getElem_self inside)
  | object members =>
      obtain ⟨e, found', rfl⟩ := Option.map_eq_some_iff.mp found
      obtain ⟨inside, same⟩ := List.getElem?_eq_some_iff.mp found'
      rw [set, modify_value found']
      exact congrArg Data.object (same ▸ List.set_getElem_self inside)

theorem set_comm {j : Nat} (d : Data) (u v : Slot) (other : i ≠ j) :
    (d.set i u).set j v = (d.set j v).set i u := by
  cases d with
  | string => rfl
  | array values => exact congrArg Data.array (List.set_comm _ _ other)
  | object members => exact congrArg Data.object (List.modify_modify_ne _ _ _ other)

/-- A value gives way to another, and so does what it refers to. -/
theorem count_set (found : d.get i = some u) (v : Slot) (b : Nat) :
    (d.set i v).refs.count b + u.refs.count b = d.refs.count b + v.refs.count b := by
  cases d with
  | string => cases found
  | array values =>
      rw [set, refs, slots, refs, slots, List.count_flatMap, List.count_flatMap]
      exact Theory.sum_map_set (fun v => v.refs.count b) found
  | object members =>
      obtain ⟨e, found', rfl⟩ := Option.map_eq_some_iff.mp found
      have change :
          ((members.set i (e.1, v)).map fun m => m.2.refs.count b + m.1.refs.count b).sum +
            (e.2.refs.count b + e.1.refs.count b) =
          (members.map fun m => m.2.refs.count b + m.1.refs.count b).sum +
            (v.refs.count b + e.1.refs.count b) :=
        Theory.sum_map_set (fun m : Slot × Slot => m.2.refs.count b + m.1.refs.count b) found'
      rw [set, modify_value found', count_object, count_object]
      omega

theorem mem_slots_set (mem : w ∈ (d.set i v).slots) : w = v ∨ w ∈ d.slots := by
  cases d with
  | string => cases mem
  | array values => exact (List.mem_or_eq_of_mem_set mem).symm
  | object members =>
      obtain ⟨m', mem', part⟩ := List.mem_flatMap.mp mem
      obtain ⟨j, found⟩ := List.mem_iff_getElem?.mp mem'
      rw [List.getElem?_modify] at found
      obtain ⟨e, there, rfl⟩ := Option.map_eq_some_iff.mp found
      have inside : ∀ {w}, w ∈ [e.2, e.1] → w ∈ (object members).slots := fun mem =>
        List.mem_flatMap.mpr ⟨e, List.mem_of_getElem? there, mem⟩
      split at part
      · rcases List.mem_cons.mp part with rfl | part
        · exact .inl rfl
        · exact .inr (inside (List.mem_cons_of_mem _ part))
      · exact .inr (inside part)

/-- A set leaves the keys alone. -/
theorem key_of_set {data : List (Slot × Slot)} (object : d.set i v = .object data)
    {e : Slot × Slot} (mem : e ∈ data) :
    ∃ before e', d = .object before ∧ e' ∈ before ∧ e'.1 = e.1 := by
  cases d with
  | string | array => cases object
  | object members =>
      obtain rfl := Data.object.inj object
      obtain ⟨j, found⟩ := List.mem_iff_getElem?.mp mem
      rw [List.getElem?_modify] at found
      obtain ⟨e', there, rfl⟩ := Option.map_eq_some_iff.mp found
      refine ⟨members, e', rfl, List.mem_of_getElem? there, ?_⟩
      split <;> rfl

theorem mem_slots_of_get (found : d.get i = some v) : v ∈ d.slots := by
  cases d with
  | string => cases found
  | array values => exact List.mem_of_getElem? found
  | object members =>
      obtain ⟨e, found', rfl⟩ := Option.map_eq_some_iff.mp found
      exact List.mem_flatMap.mpr ⟨e, List.mem_of_getElem? found', List.mem_cons_self⟩

end Data

namespace Memory

/-- What the variables point to. -/
def roots (m : Memory) : List Nat := m.vars.flatMap fun v => (v.map Slot.refs).getD []

/-- The values there are. -/
def Holds (m : Memory) (v : Slot) : Prop :=
  some v ∈ m.vars ∨ ∃ a c, cell m.heap a = some c ∧ v ∈ c.data.slots

/-- The memory while a function has the values `tmp` in its hands. -/
structure Held (m : Memory) (tmp : List Slot) : Prop where
  counts : Counted Data.refs m.heap (tmp.flatMap Slot.refs ++ m.roots)
  fits : ∀ v, v ∈ tmp ∨ m.Holds v → Fits m.heap v
  named : ∀ o c data, cell m.heap o = some c → c.data = .object data →
    ∀ e ∈ data, ∃ s, e.1 = .string s

variable {m m' : Memory} {tmp tmp' : List Slot} {u v : Slot} {p q : Place}

/-! ## Places -/

section Places

variable {a i : Nat} {c : Cell Data}

theorem assign_inside (live : cell m.heap a = some c) (i : Nat) (v : Slot) :
    m.assign (.inside a i) v = { m with heap := withData m.heap a (c.data.set i v) } := by
  rw [assign, live]

theorem load_inside (live : cell m.heap a = some c) (i : Nat) :
    m.load (.inside a i) = c.data.get i := by
  rw [load, live]
  rfl

/-- A value that lies in a cell, and the cell. -/
theorem inside_of_load (found : m.load (.inside a i) = some v) :
    ∃ c, cell m.heap a = some c ∧ c.data.get i = some v := Option.bind_eq_some_iff.mp found

theorem var_of_load {x : Nat} (found : m.load (.var x) = some v) : m.vars[x]? = some (some v) :=
  Option.join_eq_some_iff.mp found

theorem load_assign_self (found : m.load p = some u) (v : Slot) :
    (m.assign p v).load p = some v := by
  cases p with
  | var x =>
      have inside := (List.getElem?_eq_some_iff.mp (var_of_load found)).1
      rw [assign, load, List.getElem?_set_self inside]
      rfl
  | inside a i =>
      obtain ⟨c, live, value⟩ := inside_of_load found
      rw [assign_inside live, load_inside (cell_withData_self live _)]
      exact Data.get_set value v

theorem load_assign_of_ne (m : Memory) (v : Slot) (other : p ≠ q) :
    (m.assign p v).load q = m.load q := by
  cases p with
  | var x =>
      cases q with
      | var y =>
          rw [assign, load, List.getElem?_set_ne (fun same => other (congrArg _ same))]
          rfl
      | inside => rfl
  | inside a i =>
      cases live : cell m.heap a with
      | none => rw [assign, live]
      | some c =>
          rw [assign_inside live]
          cases q with
          | var => rfl
          | inside b j =>
              by_cases here : a = b
              · subst here
                rw [load_inside (cell_withData_self live _), load_inside live]
                exact Data.get_set_of_ne _ _ fun same => other (congrArg _ same)
              · rw [load, cell_withData_of_ne _ here]
                rfl

theorem assign_assign (m : Memory) (p : Place) (u v : Slot) :
    (m.assign p u).assign p v = m.assign p v := by
  cases p with
  | var x =>
      rw [assign, assign, assign, List.set_set]
  | inside a i =>
      cases live : cell m.heap a with
      | none => simp only [assign, live]
      | some c =>
          rw [assign_inside live, assign_inside (cell_withData_self live _), assign_inside live]
          simp only [withData_withData live, Data.set_set]

theorem assign_comm (m : Memory) (u v : Slot) (other : p ≠ q) :
    (m.assign p u).assign q v = (m.assign q v).assign p u := by
  cases p with
  | var x =>
      cases q with
      | var y =>
          simp only [assign]
          rw [List.set_comm _ _ fun same => other (congrArg _ same)]
      | inside b j => cases live : cell m.heap b <;> simp only [assign, live]
  | inside a i =>
      cases q with
      | var y => cases live : cell m.heap a <;> simp only [assign, live]
      | inside b j =>
          by_cases here : a = b
          · subst here
            have apart : i ≠ j := fun same => other (congrArg _ same)
            cases live : cell m.heap a with
            | none => simp only [assign, live]
            | some c =>
                simp only [assign, live, cell_withData_self live, withData_withData live,
                  Data.set_comm c.data u v apart]
          · cases live : cell m.heap a <;> cases live' : cell m.heap b <;>
              simp only [assign, live, live', cell_withData_of_ne _ here,
                cell_withData_of_ne _ (Ne.symm here), withData_comm here]

theorem assign_load (found : m.load p = some u) : m.assign p u = m := by
  cases p with
  | var x =>
      obtain ⟨inside, same⟩ := List.getElem?_eq_some_iff.mp (var_of_load found)
      have vars : m.vars.set x (some u) = m.vars := same ▸ List.set_getElem_self inside
      rw [assign, vars]
  | inside a i =>
      obtain ⟨c, live, value⟩ := inside_of_load found
      rw [assign_inside live, Data.set_get value, withData_self live]

end Places

/-! ## What a function does to what it holds -/

section Held

theorem refs_of_holds (holds : m.Holds v) {a : Nat} (mem : a ∈ v.refs) :
    a ∈ m.roots ∨ a ∈ held Data.refs m.heap := by
  rcases holds with var | ⟨b, c, live, inside⟩
  · exact .inl (List.mem_flatMap.mpr ⟨some v, var, mem⟩)
  · exact .inr (mem_held live (List.mem_flatMap.mpr ⟨v, inside, mem⟩))

theorem live_of_slot (counts : Counted Data.refs m.heap (tmp.flatMap Slot.refs ++ m.roots))
    (slot : v ∈ tmp ∨ m.Holds v) {a : Nat} (mem : a ∈ v.refs) : ∃ c, cell m.heap a = some c := by
  refine counts.live ?_
  rcases slot with inHand | holds
  · exact .inl (List.mem_append_left _ (List.mem_flatMap.mpr ⟨v, inHand, mem⟩))
  · exact (refs_of_holds holds mem).imp_left (List.mem_append_right _)

/-- The counts are kept, the cells keep their types, and no value is made up. -/
theorem Held.change (held : Held m tmp)
    (counts : Counted Data.refs m'.heap (tmp'.flatMap Slot.refs ++ m'.roots))
    (types : ∀ a c c', cell m.heap a = some c → cell m'.heap a = some c' →
      c'.data.type = c.data.type)
    (slots : ∀ v, v ∈ tmp' ∨ m'.Holds v → Fits m'.heap v ∨ v ∈ tmp ∨ m.Holds v)
    (named : ∀ o c data, cell m'.heap o = some c → c.data = .object data →
      ∀ e ∈ data, ∃ s, e.1 = .string s) : Held m' tmp' where
  counts := counts
  fits v slot := by
    rcases slots v slot with fits | before
    · exact fits
    · exact (held.fits v before).mono types fun a mem => live_of_slot counts slot mem
  named := named

theorem count_roots_set {x : Nat} {w w' : Option Slot} (found : m.vars[x]? = some w) (b : Nat) :
    (roots { m with vars := m.vars.set x w' }).count b + ((w.map Slot.refs).getD []).count b =
      m.roots.count b + ((w'.map Slot.refs).getD []).count b := by
  rw [roots, roots, List.count_flatMap, List.count_flatMap]
  exact Theory.sum_map_set (fun w => ((w.map Slot.refs).getD []).count b) found

theorem holds_of_load (found : m.load p = some u) : m.Holds u := by
  cases p with
  | var x => exact .inl (List.mem_of_getElem? (var_of_load found))
  | inside a i =>
      obtain ⟨c, live, value⟩ := inside_of_load found
      exact .inr ⟨a, c, live, Data.mem_slots_of_get value⟩

theorem holds_assign (holds : (m.assign p v).Holds u) : u = v ∨ m.Holds u := by
  cases p with
  | var x =>
      rcases holds with var | inside
      · rcases List.mem_or_eq_of_mem_set var with old | new
        · exact .inr (.inl old)
        · exact .inl (Option.some.inj new)
      · exact .inr (.inr inside)
  | inside a i =>
      cases live : cell m.heap a with
      | none =>
          rw [assign, live] at holds
          exact .inr holds
      | some c =>
          rw [assign_inside live] at holds
          rcases holds with var | ⟨b, c', live', mem⟩
          · exact .inr (.inl var)
          · by_cases here : a = b
            · subst here
              obtain rfl := Option.some.inj ((cell_withData_self live _).symm.trans live')
              exact (Data.mem_slots_set mem).imp_right fun old => .inr ⟨a, c, live, old⟩
            · rw [cell_withData_of_ne _ here] at live'
              exact .inr (.inr ⟨b, c', live', mem⟩)

/-- A value in hand and the one at a place change places. -/
theorem Held.exchange (held : Held m (v :: tmp)) (found : m.load p = some u) :
    Held (m.assign p v) (u :: tmp) := by
  have slots : ∀ w, w ∈ u :: tmp ∨ (m.assign p v).Holds w → w ∈ v :: tmp ∨ m.Holds w := by
    rintro w (inHand | holds)
    · rcases List.mem_cons.mp inHand with rfl | rest
      · exact .inr (holds_of_load found)
      · exact .inl (List.mem_cons_of_mem _ rest)
    · rcases holds_assign holds with rfl | old
      · exact .inl List.mem_cons_self
      · exact .inr old
  cases p with
  | var x =>
      refine held.change (held.counts.congr fun b => ?_) (fun a c c' before after => ?_)
        (fun w slot => .inr (slots w slot)) held.named
      · have change : ((m.assign (.var x) v).roots).count b + u.refs.count b =
            m.roots.count b + v.refs.count b := count_roots_set (var_of_load found) b
        simp only [List.flatMap_cons, List.append_assoc, List.count_append]
        omega
      · obtain rfl := Option.some.inj (before.symm.trans after)
        rfl
  | inside a i =>
      obtain ⟨c, live, value⟩ := inside_of_load found
      have counts : Counted Data.refs (m.assign (.inside a i) v).heap
          ((u :: tmp).flatMap Slot.refs ++ (m.assign (.inside a i) v).roots) := by
        rw [assign_inside live]
        refine held.counts.withData live fun b => ?_
        have change := Data.count_set value v b
        have same : roots { m with heap := withData m.heap a (c.data.set i v) } = m.roots := rfl
        simp only [List.flatMap_cons, List.append_assoc, List.count_append, same]
        omega
      have cells : ∀ b c', cell (m.assign (.inside a i) v).heap b = some c' →
          a = b ∧ c' = { c with data := c.data.set i v } ∨ cell m.heap b = some c' := by
        intro b c' after
        rw [assign_inside live] at after
        exact cell_of_withData live after
      refine held.change counts ?_ (fun w slot => .inr (slots w slot)) ?_
      · intro b c₀ c' before after
        rcases cells b c' after with ⟨rfl, rfl⟩ | same
        · obtain rfl := Option.some.inj (live.symm.trans before)
          exact Data.type_set _ _ _
        · obtain rfl := Option.some.inj (before.symm.trans same)
          rfl
      · intro o c' data after object e mem
        rcases cells o c' after with ⟨rfl, rfl⟩ | same
        · obtain ⟨before, e', object', mem', key⟩ := Data.key_of_set object mem
          obtain ⟨s, string⟩ := held.named a c before live object' e' mem'
          exact ⟨s, key ▸ string⟩
        · exact held.named o c' data same object e mem

/-- Cells are freed and counted, and nothing else. -/
theorem Held.shrink {h : Heap Data} (held : Held m tmp) (shrinks : Shrinks m.heap h)
    (counts : Counted Data.refs h (tmp'.flatMap Slot.refs ++ m.roots))
    (fewer : ∀ v ∈ tmp', v ∈ tmp ∨ m.Holds v) : Held { m with heap := h } tmp' := by
  refine held.change counts ?_ ?_ ?_
  · intro a c c' before after
    obtain ⟨c₀, before', same⟩ := shrinks a c' after
    obtain rfl := Option.some.inj (before.symm.trans before')
    exact congrArg Data.type same.symm
  · rintro v (inHand | var | ⟨a, c', after, mem⟩)
    · exact .inr (fewer v inHand)
    · exact .inr (.inr (.inl var))
    · obtain ⟨c, before, same⟩ := shrinks a c' after
      exact .inr (.inr (.inr ⟨a, c, before, same ▸ mem⟩))
  · intro o c' data after object
    obtain ⟨c, before, same⟩ := shrinks o c' after
    exact held.named o c data before (same.trans object)

/-- A value in hand is destroyed. -/
theorem Held.drop (held : Held m (v :: tmp)) :
    ∃ h, destroy m.heap v = some h ∧ Held { m with heap := h } tmp := by
  have counts := held.counts
  rw [List.flatMap_cons, List.append_assoc] at counts
  obtain ⟨h, done, counts'⟩ := release_counted counts
  exact ⟨h, done, held.shrink (release_shrinks done).1 counts' fun w mem =>
    .inl (List.mem_cons_of_mem v mem)⟩

theorem incr_shrinks {h h' : Heap Data} (done : incr h v = some h') :
    Shrinks h h' ∧ Shrinks h' h := by
  rw [incr] at done
  split at done
  · obtain rfl := Option.some.inj done
    exact ⟨fun a c live => ⟨c, live, rfl⟩, fun a c live => ⟨c, live, rfl⟩⟩
  · exact retain_shrinks done

/-- A value is copied, into the hand. -/
theorem Held.copy (held : Held m tmp) (there : v ∈ tmp ∨ m.Holds v) :
    ∃ h, incr m.heap v = some h ∧ Held { m with heap := h } (v :: tmp) := by
  cases refs : v.refs with
  | nil =>
      have done : incr m.heap v = some m.heap := by rw [incr, refs]
      refine ⟨m.heap, done, held.shrink (incr_shrinks done).1 ?_ ?_⟩
      · rw [List.flatMap_cons, refs]
        exact held.counts
      · exact List.forall_mem_cons.mpr ⟨there, fun w mem => .inl mem⟩
  | cons a rest =>
      have only : rest = [] := by cases v <;> cases refs <;> rfl
      obtain ⟨c, live⟩ := live_of_slot held.counts there (refs ▸ List.mem_cons_self)
      obtain ⟨done, counts⟩ := retain_counted held.counts live
      have one : incr m.heap v = retain m.heap a := by rw [incr, refs]
      have counted := one.trans done
      refine ⟨_, counted, held.shrink (incr_shrinks counted).1 ?_ ?_⟩
      · rw [List.flatMap_cons, refs, only]
        exact counts
      · exact List.forall_mem_cons.mpr ⟨there, fun w mem => .inl mem⟩

/-- A value in hand becomes a variable. -/
theorem Held.declare (held : Held m (v :: tmp)) : Held (m.declare v) tmp := by
  refine held.change (held.counts.congr fun b => ?_) ?_ ?_ held.named
  · have roots : (m.declare v).roots = m.roots ++ v.refs := by
      rw [Memory.roots, Memory.declare, List.flatMap_append]
      exact congrArg (_ ++ ·) (List.append_nil _)
    simp only [roots, List.flatMap_cons, List.append_assoc, List.count_append]
    omega
  · intro a c c' before after
    obtain rfl := Option.some.inj (before.symm.trans after)
    rfl
  · rintro w (inHand | var | inside)
    · exact .inr (.inl (List.mem_cons_of_mem v inHand))
    · rcases List.mem_append.mp var with old | new
      · exact .inr (.inr (.inl old))
      · obtain rfl := Option.some.inj (List.mem_singleton.mp new)
        exact .inr (.inl List.mem_cons_self)
    · exact .inr (.inr (.inr inside))

/-- A variable's value is taken into the hand, as its destructor runs. -/
theorem Held.undeclare {x : Nat} (held : Held m tmp) (found : m.load (.var x) = some v) :
    Held { m with vars := m.vars.set x none } (v :: tmp) := by
  refine held.change (held.counts.congr fun b => ?_) ?_ ?_ held.named
  · have change : (roots { m with vars := m.vars.set x none }).count b + v.refs.count b =
        m.roots.count b + ([] : List Nat).count b := count_roots_set (var_of_load found) b
    simp only [List.flatMap_cons, List.append_assoc, List.count_append, List.count_nil] at change ⊢
    omega
  · intro a c c' before after
    obtain rfl := Option.some.inj (before.symm.trans after)
    rfl
  · rintro w (inHand | var | inside)
    · rcases List.mem_cons.mp inHand with rfl | rest
      · exact .inr (.inr (holds_of_load found))
      · exact .inr (.inl rest)
    · rcases List.mem_or_eq_of_mem_set var with old | new
      · exact .inr (.inr (.inl old))
      · cases new
    · exact .inr (.inr (.inr inside))

/-- A value is constructed, into the hand. -/
theorem Held.construct (held : Held m tmp) (init : Init) :
    Held { m with heap := (Memory.construct m.heap init).1 }
      ((Memory.construct m.heap init).2 :: tmp) := by
  have scalar {v : Slot} (none : v.refs = []) : Held m (v :: tmp) := by
    refine held.change ?_ ?_ ?_ held.named
    · rw [List.flatMap_cons, none]
      exact held.counts
    · intro a c c' before after
      obtain rfl := Option.some.inj (before.symm.trans after)
      rfl
    · rintro w (inHand | holds)
      · rcases List.mem_cons.mp inHand with rfl | rest
        · exact .inl fun a mem => by rw [none] at mem; cases mem
        · exact .inr (.inl rest)
      · exact .inr (.inr holds)
  have boxed {d : Data} {v : Slot} (empty : d.slots = []) (type : d.type = v.type)
      (refs : v.refs = [m.heap.length]) :
      Held { m with heap := m.heap ++ [some ⟨1, d⟩] } (v :: tmp) := by
    have cells := cell_append_one m.heap (some ⟨1, d⟩)
    have none : d.refs = [] := by rw [Data.refs, empty]; rfl
    have counts : Counted Data.refs m.heap (d.refs ++ (tmp.flatMap Slot.refs ++ m.roots)) := by
      rw [none]
      exact held.counts
    refine held.change ?_ ?_ ?_ ?_
    · rw [List.flatMap_cons, refs]
      exact counts.alloc
    · intro a c c' before after
      rw [cells, if_neg (Nat.ne_of_lt (lt_of_cell before))] at after
      obtain rfl := Option.some.inj (before.symm.trans after)
      rfl
    · rintro w (inHand | var | ⟨a, c, after, mem⟩)
      · rcases List.mem_cons.mp inHand with rfl | rest
        · refine .inl fun a mem => ⟨⟨1, d⟩, ?_, type⟩
          rw [refs, List.mem_singleton] at mem
          rw [cells, if_pos mem]
        · exact .inr (.inl rest)
      · exact .inr (.inr (.inl var))
      · rw [cells] at after
        split at after
        · obtain rfl := Option.some.inj after
          rw [empty] at mem
          cases mem
        · exact .inr (.inr (.inr ⟨a, c, after, mem⟩))
    · intro o c data after object e mem
      rw [cells] at after
      split at after
      · obtain rfl := Option.some.inj after
        have inside : e.2 ∈ d.slots :=
          (show d = .object data from object) ▸ List.mem_flatMap.mpr ⟨e, mem, List.mem_cons_self⟩
        rw [empty] at inside
        cases inside
      · exact held.named o c data after object e mem
  cases init with
  | null | bool | int32 | int64 | double => exact scalar rfl
  | string | array | object => exact boxed rfl rfl rfl

theorem arrayAt_eq {a : Nat} (found : m.arrayAt p = some a) : m.load p = some (.array a) := by
  rw [arrayAt] at found
  split at found
  · obtain rfl := Option.some.inj found
    assumption
  · cases found

theorem objectAt_eq {o : Nat} (found : m.objectAt p = some o) : m.load p = some (.object o) := by
  rw [objectAt] at found
  split at found
  · obtain rfl := Option.some.inj found
    assumption
  · cases found

theorem elements_eq {h : Heap Data} {a : Nat} {values : List Slot}
    (found : elements h a = some values) :
    ∃ c, cell h a = some c ∧ c.data = .array values := by
  rw [elements] at found
  split at found
  · obtain rfl := Option.some.inj found
    exact ⟨_, ‹_›, rfl⟩
  · cases found

theorem members_eq {h : Heap Data} {o : Nat} {data : List (Slot × Slot)}
    (found : members h o = some data) :
    ∃ c, cell h o = some c ∧ c.data = .object data := by
  rw [members] at found
  split at found
  · obtain rfl := Option.some.inj found
    exact ⟨_, ‹_›, rfl⟩
  · cases found

/-- Values in hand are put into a container, behind those that are there. -/
theorem Held.append {a : Nat} {c : Cell Data} {d : Data} {new : List Slot}
    (held : Held m (new ++ tmp)) (live : cell m.heap a = some c) (type : d.type = c.data.type)
    (slots : d.slots = c.data.slots ++ new)
    (named : ∀ data, d = .object data → ∀ e ∈ data, ∃ s, e.1 = .string s) :
    Held { m with heap := withData m.heap a d } tmp := by
  refine held.change (held.counts.withData live fun b => ?_) ?_ ?_ ?_
  · have same : roots { m with heap := withData m.heap a d } = m.roots := rfl
    simp only [same, Data.refs, slots, List.flatMap_append, List.append_assoc, List.count_append]
    omega
  · intro b c₀ c' before after
    rcases cell_of_withData live after with ⟨rfl, rfl⟩ | same
    · obtain rfl := Option.some.inj (live.symm.trans before)
      exact type
    · obtain rfl := Option.some.inj (before.symm.trans same)
      rfl
  · rintro w (inHand | var | ⟨b, c', after, mem⟩)
    · exact .inr (.inl (List.mem_append_right new inHand))
    · exact .inr (.inr (.inl var))
    · rcases cell_of_withData live after with ⟨rfl, rfl⟩ | same
      · rcases List.mem_append.mp (slots ▸ mem) with old | fresh
        · exact .inr (.inr (.inr ⟨a, c, live, old⟩))
        · exact .inr (.inl (List.mem_append_left tmp fresh))
      · exact .inr (.inr (.inr ⟨b, c', same, mem⟩))
  · intro o c' data after object e mem
    rcases cell_of_withData live after with ⟨rfl, rfl⟩ | same
    · exact named data object e mem
    · exact held.named o c' data same object e mem

theorem Held.null (held : Held m tmp) : Held m (.null :: tmp) := held.construct .null

theorem Held.forget (held : Held m (.null :: tmp)) : Held m tmp := by
  obtain ⟨h, done, held'⟩ := held.drop
  obtain rfl : m.heap = h := Option.some.inj ((release_nil m.heap).symm.trans done)
  exact held'

/-- Moving a value into the hand leaves a null behind. -/
theorem Held.take (held : Held m tmp) (found : m.load p = some v) :
    Held (m.assign p .null) (v :: tmp) := held.null.exchange found

theorem load_of_shrinks {h h' : Heap Data} (shrinks : Shrinks h h')
    (found : { m with heap := h' }.load p = some v) : { m with heap := h }.load p = some v := by
  cases p with
  | var x => exact found
  | inside a i =>
      obtain ⟨c', live', value⟩ := inside_of_load found
      obtain ⟨c, live, same⟩ := shrinks a c' live'
      exact (load_inside live i).trans (same ▸ value)

/-- What stands at a place that stays does not matter to a destructor, -/
theorem destroy_assign {h : Heap Data} (done : destroy m.heap v = some h)
    (still : { m with heap := h }.load p = some u) (w : Slot) :
    destroy (m.assign p w).heap v = some ({ m with heap := h }.assign p w).heap := by
  cases p with
  | var x => exact done
  | inside a i =>
      obtain ⟨c', live', value⟩ := inside_of_load still
      obtain ⟨c, live, same⟩ := (release_shrinks done).1 a c' live'
      rw [assign_inside live, assign_inside live', same]
      exact release_withData done live' _

/-- nor to a copy. -/
theorem incr_assign {h : Heap Data} (done : incr m.heap v = some h)
    (still : { m with heap := h }.load p = some u) (w : Slot) :
    incr (m.assign p w).heap v = some ({ m with heap := h }.assign p w).heap := by
  cases p with
  | var x => exact done
  | inside a i =>
      obtain ⟨c', live', value⟩ := inside_of_load still
      obtain ⟨c, live, same⟩ := (incr_shrinks done).1 a c' live'
      rw [assign_inside live, assign_inside live', same]
      rw [incr] at done ⊢
      split at done
      · obtain rfl := Option.some.inj done
        rfl
      · exact retain_withData done live _

theorem vars_assign {h : Heap Data} {w : Slot} (found : m.load p = some u)
    (still : { m with heap := h }.load p = some v) :
    { m.assign p w with heap := ({ m with heap := h }.assign p w).heap } =
      { m with heap := h }.assign p w := by
  cases p with
  | var x => rfl
  | inside a i =>
      obtain ⟨c, live, -⟩ := inside_of_load found
      obtain ⟨c', live', -⟩ := inside_of_load still
      rw [assign_inside live, assign_inside live']

/-- The destructor of what an assignment overwrites, when the place itself stays. -/
theorem Held.destroyed {h : Heap Data} (held : Held m tmp) (found : m.load p = some v)
    (done : destroy m.heap v = some h) (still : { m with heap := h }.load p = some u) :
    Held ({ m with heap := h }.assign p .null) tmp := by
  obtain ⟨h', done', held'⟩ := (held.take found).drop
  obtain rfl := Option.some.inj ((destroy_assign done still .null).symm.trans done')
  rwa [vars_assign found still] at held'

/-! ## Each function -/

theorem bind_some {α β : Type} {x : Option α} {f : α → Option β} {b : β}
    (done : (x >>= f) = some b) : ∃ a, x = some a ∧ f a = some b := Option.bind_eq_some_iff.mp done

theorem store_eq (done : m.store p v = some m') : ∃ u, m.load p = some u ∧ m' = m.assign p v := by
  obtain ⟨u, found, rfl⟩ := Option.map_eq_some_iff.mp done
  exact ⟨u, found, rfl⟩

theorem copyConstruct_eq (done : m.copyConstruct p = some m') :
    ∃ v h, m.load p = some v ∧ incr m.heap v = some h ∧ m' = { m with heap := h }.declare v := by
  obtain ⟨v, found, done⟩ := bind_some done
  obtain ⟨h, copied, done⟩ := bind_some done
  exact ⟨v, h, found, copied, (Option.some.inj done).symm⟩

theorem moveConstruct_eq (done : m.moveConstruct p = some m') :
    ∃ v, m.load p = some v ∧ m' = (m.assign p .null).declare v := by
  obtain ⟨v, found, done⟩ := bind_some done
  obtain ⟨m₁, stored, done⟩ := bind_some done
  obtain ⟨-, -, rfl⟩ := store_eq stored
  exact ⟨v, found, (Option.some.inj done).symm⟩

theorem destruct_eq {x : Nat} (done : m.destruct x = some m') :
    ∃ v h, m.load (.var x) = some v ∧ destroy m.heap v = some h ∧
      m' = { heap := h, vars := m.vars.set x none } := by
  obtain ⟨v, found, done⟩ := bind_some done
  obtain ⟨h, freed, done⟩ := bind_some done
  exact ⟨v, h, found, freed, (Option.some.inj done).symm⟩

theorem copyAssign_eq (done : m.copyAssign p q = some m') :
    p ≠ q ∧ ∃ old h v h' u, m.load p = some old ∧ destroy m.heap old = some h ∧
      { m with heap := h }.load q = some v ∧ incr h v = some h' ∧
      { m with heap := h' }.load p = some u ∧ m' = { m with heap := h' }.assign p v := by
  rw [Memory.copyAssign] at done
  split at done
  · cases done
  · rename_i other
    obtain ⟨old, found, done⟩ := bind_some done
    obtain ⟨h, freed, done⟩ := bind_some done
    obtain ⟨v, value, done⟩ := bind_some done
    obtain ⟨h', copied, done⟩ := bind_some done
    obtain ⟨u, still, rfl⟩ := store_eq done
    exact ⟨other, old, h, v, h', u, found, freed, value, copied, still, rfl⟩

theorem moveAssign_eq (done : m.moveAssign p q = some m') :
    p ≠ q ∧ ∃ old h v u, m.load p = some old ∧ destroy m.heap old = some h ∧
      { m with heap := h }.load q = some v ∧ { m with heap := h }.load p = some u ∧
      m' = ({ m with heap := h }.assign p v).assign q .null := by
  rw [Memory.moveAssign] at done
  split at done
  · cases done
  · rename_i other
    obtain ⟨old, found, done⟩ := bind_some done
    obtain ⟨h, freed, done⟩ := bind_some done
    obtain ⟨v, value, done⟩ := bind_some done
    obtain ⟨m₁, stored, done⟩ := bind_some done
    obtain ⟨u, still, rfl⟩ := store_eq stored
    obtain ⟨-, -, rfl⟩ := store_eq done
    exact ⟨other, old, h, v, u, found, freed, value, still, rfl⟩

theorem setTo_eq {init : Init} (done : m.setTo p init = some m') :
    ∃ old h u, m.load p = some old ∧ destroy m.heap old = some h ∧
      { m with heap := (Memory.construct h init).1 }.load p = some u ∧
      m' = { m with heap := (Memory.construct h init).1 }.assign p (Memory.construct h init).2 := by
  obtain ⟨old, found, done⟩ := bind_some done
  obtain ⟨h, freed, done⟩ := bind_some done
  obtain ⟨u, still, rfl⟩ := store_eq done
  exact ⟨old, h, u, found, freed, still, rfl⟩

theorem getStringView_eq {h : Heap Data} {s : Bytes} (view : getStringView h v = some s) :
    ∃ a c, v = .string a ∧ cell h a = some c ∧ c.data = .string s := by
  cases v with
  | string a =>
      rw [getStringView] at view
      split at view
      · obtain rfl := Option.some.inj view
        exact ⟨a, _, rfl, ‹_›, rfl⟩
      · cases view
  | null | bool | int32 | int64 | double | array | object => cases view

theorem getStringView_of_cell {h : Heap Data} {a : Nat} {c : Cell Data} {s : Bytes}
    (live : cell h a = some c)
    (string : c.data = .string s) : getStringView h (.string a) = some s := by
  obtain ⟨n, d⟩ := c
  obtain rfl : d = .string s := string
  rw [getStringView, live]

theorem getStringView_of_shrinks {h h' : Heap Data} {s : Bytes} (shrinks : Shrinks h h')
    (view : getStringView h' v = some s) : getStringView h v = some s := by
  obtain ⟨a, c', rfl, live', string⟩ := getStringView_eq view
  obtain ⟨c, live, same⟩ := shrinks a c' live'
  exact getStringView_of_cell live (same.trans string)

theorem setView_eq (done : m.setView p q = some m') :
    ∃ view s, m.load q = some view ∧ getStringView m.heap view = some s ∧
      (∀ old h, m.load p = some old → destroy m.heap old = some h →
        s = [] ∨ getStringView h view = some s) ∧
      m.setTo p (.string s) = some m' := by
  obtain ⟨view, value, done⟩ := bind_some done
  obtain ⟨s, string, done⟩ := bind_some done
  obtain ⟨old, found, done⟩ := bind_some done
  obtain ⟨h, freed, done⟩ := bind_some done
  obtain ⟨s', read, stored⟩ := bind_some done
  have same : s' = s ∧ (s = [] ∨ getStringView h view = some s) := by
    split at read
    · exact ⟨(Option.some.inj read).symm, .inl ‹_›⟩
    · have before := getStringView_of_shrinks (release_shrinks freed).1 read
      obtain rfl := Option.some.inj (string.symm.trans before)
      exact ⟨rfl, .inr read⟩
  obtain ⟨rfl, there⟩ := same
  refine ⟨view, s', value, string, fun old' h' found' freed' => ?_, ?_⟩
  · obtain rfl := Option.some.inj (found.symm.trans found')
    obtain rfl := Option.some.inj (freed.symm.trans freed')
    exact there
  · exact Option.bind_eq_some_iff.mpr ⟨old, found,
      Option.bind_eq_some_iff.mpr ⟨h, freed, stored⟩⟩

theorem emplaceBack_eq {a : Nat} (done : m.emplaceBack p a v = some m') :
    ∃ values a', elements m.heap a = some values ∧
      m' = { m with heap := withData m.heap a (.array (values ++ [v])) } ∧
      m'.arrayAt p = some a' := by
  obtain ⟨values, found, done⟩ := bind_some done
  obtain ⟨a', again, done⟩ := bind_some done
  obtain rfl := Option.some.inj done
  exact ⟨values, a', found, rfl, again⟩

theorem addValueMove_eq (done : m.addValueMove p q = some m') :
    ∃ a v, m.arrayAt p = some a ∧ m.load q = some v ∧
      (m.assign q .null).emplaceBack p a v = some m' := by
  obtain ⟨a, array, done⟩ := bind_some done
  obtain ⟨v, found, done⟩ := bind_some done
  obtain ⟨m₁, stored, done⟩ := bind_some done
  obtain ⟨-, -, rfl⟩ := store_eq stored
  exact ⟨a, v, array, found, done⟩

theorem addMember_eq {r : Place} (done : m.addMember p q r = some m') :
    ∃ o k name before v data o', m.objectAt p = some o ∧ m.load q = some k ∧
      getStringView m.heap k = some name ∧ members m.heap o = some before ∧
      findMember m.heap name before = some before.length ∧
      (m.assign q .null).load r = some v ∧
      members ((m.assign q .null).assign r .null).heap o = some data ∧
      m' = { (m.assign q .null).assign r .null with
        heap := withData ((m.assign q .null).assign r .null).heap o
          (.object (data ++ [(k, v)])) } ∧
      m'.objectAt p = some o' := by
  obtain ⟨o, object, done⟩ := bind_some done
  obtain ⟨k, key, done⟩ := bind_some done
  obtain ⟨name, string, done⟩ := bind_some done
  obtain ⟨before, there, done⟩ := bind_some done
  obtain ⟨it, search, done⟩ := bind_some done
  split at done
  · cases done
  · rename_i last
    obtain rfl := Decidable.not_not.mp last
    obtain ⟨m₁, stored, done⟩ := bind_some done
    obtain ⟨v, value, done⟩ := bind_some done
    obtain ⟨m₂, stored', done⟩ := bind_some done
    obtain ⟨data, found, done⟩ := bind_some done
    obtain ⟨o', again, done⟩ := bind_some done
    obtain rfl := Option.some.inj done
    obtain ⟨-, -, rfl⟩ := store_eq stored
    obtain ⟨-, -, rfl⟩ := store_eq stored'
    exact ⟨o, k, name, before, v, data, o', object, key, string, there, search, value, found,
      rfl, again⟩

theorem Held.copyConstruct (held : Held m []) (done : m.copyConstruct p = some m') :
    Held m' [] := by
  obtain ⟨v, h, found, copied, rfl⟩ := copyConstruct_eq done
  obtain ⟨h', copied', held'⟩ := held.copy (.inr (holds_of_load found))
  obtain rfl := Option.some.inj (copied.symm.trans copied')
  exact held'.declare

theorem Held.moveConstruct (held : Held m []) (done : m.moveConstruct p = some m') :
    Held m' [] := by
  obtain ⟨v, found, rfl⟩ := moveConstruct_eq done
  exact (held.take found).declare

theorem Held.destruct {x : Nat} (held : Held m []) (done : m.destruct x = some m') :
    Held m' [] := by
  obtain ⟨v, h, found, freed, rfl⟩ := destruct_eq done
  obtain ⟨h', freed', held'⟩ := (held.undeclare found).drop
  obtain rfl := Option.some.inj (freed.symm.trans freed')
  exact held'

/-- A value in hand is put where one has been destroyed. -/
theorem Held.fill (held : Held (m.assign p .null) (v :: tmp)) (found : m.load p = some u) :
    Held (m.assign p v) tmp := by
  have filled := (held.exchange (load_assign_self found .null)).forget
  rwa [assign_assign] at filled

theorem Held.copyAssign (held : Held m []) (done : m.copyAssign p q = some m') : Held m' [] := by
  obtain ⟨other, old, h, v, h', u, found, freed, value, copied, still, rfl⟩ := copyAssign_eq done
  have before := load_of_shrinks (incr_shrinks copied).1 still
  have empty := held.destroyed found freed before
  have there := (load_assign_of_ne _ .null other).trans value
  obtain ⟨h'', copied', held'⟩ := empty.copy (.inr (holds_of_load there))
  have again : incr ({ m with heap := h }.assign p .null).heap v =
      some ({ m with heap := h' }.assign p .null).heap :=
    @incr_assign { m with heap := h } u v p h' copied still .null
  obtain rfl := Option.some.inj (again.symm.trans copied')
  have same := @vars_assign { m with heap := h } u u p h' .null before still
  rw [same] at held'
  exact held'.fill still

theorem Held.moveAssign (held : Held m []) (done : m.moveAssign p q = some m') : Held m' [] := by
  obtain ⟨other, old, h, v, u, found, freed, value, still, rfl⟩ := moveAssign_eq done
  have empty := held.destroyed found freed still
  have taken := empty.take ((load_assign_of_ne _ .null other).trans value)
  rw [assign_comm _ _ _ other] at taken
  have there := (load_assign_of_ne { m with heap := h } .null (Ne.symm other)).trans still
  have filled := taken.fill there
  rwa [← assign_comm _ _ _ other] at filled

/-- A constructor makes a cell without values, or none. -/
theorem construct_cases (h : Heap Data) (init : Init) : (Memory.construct h init).1 = h ∨
    ∃ d : Data, d.slots = [] ∧ (Memory.construct h init).1 = h ++ [some ⟨1, d⟩] := by
  cases init with
  | null | bool | int32 | int64 | double => exact .inl rfl
  | string | array | object => exact .inr ⟨_, rfl, rfl⟩

theorem load_of_construct {h : Heap Data} {init : Init}
    (found : { m with heap := (Memory.construct h init).1 }.load p = some v) :
    { m with heap := h }.load p = some v := by
  rcases construct_cases h init with same | ⟨d, empty, more⟩
  · rwa [same] at found
  · rw [more] at found
    cases p with
    | var x => exact found
    | inside a i =>
        obtain ⟨c, live, value⟩ := inside_of_load found
        rw [cell_append_one] at live
        split at live
        · obtain rfl := Option.some.inj live
          have inside := Data.mem_slots_of_get value
          rw [empty] at inside
          cases inside
        · exact (load_inside live i).trans value

theorem construct_assign {h : Heap Data} (found : { m with heap := h }.load p = some u)
    (init : Init) (w : Slot) :
    Memory.construct ({ m with heap := h }.assign p w).heap init =
      (({ m with heap := (Memory.construct h init).1 }.assign p w).heap,
        (Memory.construct h init).2) := by
  cases p with
  | var x => rfl
  | inside a i =>
      obtain ⟨c, live, -⟩ := inside_of_load found
      have length : (withData h a (c.data.set i w)).length = h.length := List.length_set
      have longer (d : Data) : cell (h ++ [some ⟨1, d⟩]) a = some c := by
        rw [cell_append_one, if_neg (Nat.ne_of_lt (lt_of_cell live)), live]
      have behind (d : Data) : withData h a (c.data.set i w) ++ [some ⟨1, d⟩] =
          withData (h ++ [some ⟨1, d⟩]) a (c.data.set i w) := by
        rw [withData_eq live, withData_eq (longer d), List.set_append_left _ _ (lt_of_cell live)]
      have placed (d : Data) :
          (assign { m with heap := h ++ [some ⟨1, d⟩] } (.inside a i) w).heap =
            withData (h ++ [some ⟨1, d⟩]) a (c.data.set i w) :=
        congrArg heap (@assign_inside { m with heap := h ++ [some ⟨1, d⟩] } a c (longer d) i w)
      cases init with
      | null | bool | int32 | int64 | double =>
          simp only [Memory.construct, assign_inside live]
      | string | array | object =>
          simp only [Memory.construct, assign_inside live, placed, behind, length]

theorem Held.setTo {init : Init} (held : Held m []) (done : m.setTo p init = some m') :
    Held m' [] := by
  obtain ⟨old, h, u, found, freed, still, rfl⟩ := setTo_eq done
  have before := load_of_construct still
  have made := (held.destroyed found freed before).construct init
  rw [construct_assign before] at made
  have same := @vars_assign { m with heap := h } u u p (Memory.construct h init).1 .null before
    still
  rw [same] at made
  exact made.fill still

theorem Held.emplaceBack {a : Nat} (held : Held m [v]) (done : m.emplaceBack p a v = some m') :
    Held m' [] := by
  obtain ⟨values, a', found, rfl, -⟩ := emplaceBack_eq done
  obtain ⟨c, live, array⟩ := elements_eq found
  have held' : Held m ([v] ++ []) := held
  exact held'.append live (by rw [array]; rfl) (by rw [array]; rfl) fun _ other => by
    cases other

theorem Held.addValue {init : Init} (held : Held m []) (done : m.addValue p init = some m') :
    Held m' [] := by
  obtain ⟨a, array, done⟩ := bind_some done
  exact (held.construct init).emplaceBack done

theorem Held.addValueCopy (held : Held m []) (done : m.addValueCopy p q = some m') :
    Held m' [] := by
  obtain ⟨a, array, done⟩ := bind_some done
  obtain ⟨v, found, done⟩ := bind_some done
  obtain ⟨h, copied, done⟩ := bind_some done
  obtain ⟨h', copied', held'⟩ := held.copy (.inr (holds_of_load found))
  obtain rfl := Option.some.inj (copied.symm.trans copied')
  exact held'.emplaceBack done

theorem Held.addValueMove (held : Held m []) (done : m.addValueMove p q = some m') :
    Held m' [] := by
  obtain ⟨a, v, array, found, done⟩ := addValueMove_eq done
  exact (held.take found).emplaceBack done

theorem Held.addMember {r : Place} (held : Held m []) (done : m.addMember p q r = some m') :
    Held m' [] := by
  obtain ⟨o, k, name, before, v, data, o', -, key, string, -, -, value, found, rfl, -⟩ :=
    addMember_eq done
  obtain ⟨c, live, object⟩ := members_eq found
  have taken : Held _ ([v, k] ++ []) := (held.take key).take value
  refine taken.append live (by rw [object]; rfl) ?_ ?_
  · rw [object, Data.slots, Data.slots, List.flatMap_append]
    rfl
  · rintro _ ⟨⟩ e mem
    rcases List.mem_append.mp mem with old | new
    · exact taken.named o c data live object e old
    · obtain rfl := List.mem_singleton.mp new
      cases k with
      | string s => exact ⟨s, rfl⟩
      | null | bool | int32 | int64 | double | array | object => cases string

/-- **Every step keeps the counts.** -/
theorem Held.perform {op : Op} (held : Held m []) (done : m.perform op = some m') : Held m' [] := by
  cases op with
  | construct init =>
      obtain rfl := Option.some.inj done
      exact (held.construct init).declare
  | copyConstruct rhs => exact held.copyConstruct done
  | moveConstruct rhs => exact held.moveConstruct done
  | destruct x => exact held.destruct done
  | copyAssign this rhs => exact held.copyAssign done
  | moveAssign this rhs => exact held.moveAssign done
  | setTo this init => exact held.setTo done
  | setView this value =>
      obtain ⟨view, s, -, -, -, set⟩ := setView_eq done
      exact held.setTo set
  | addValue this init => exact held.addValue done
  | addValueCopy this value => exact held.addValueCopy done
  | addValueMove this value => exact held.addValueMove done
  | addMember this key value => exact held.addMember done

end Held

/-! ## Whole runs -/

section Runs

variable {trace : List (Memory × Op)}

/-- There is a value. -/
def Live (m : Memory) (p : Place) : Prop := ∃ v, m.load p = some v

theorem held_start : Held start [] where
  counts := ⟨fun _ => rfl, fun _ _ live => by cases live⟩
  fits v held := by
    rcases held with mem | mem | ⟨a, c, live, -⟩
    · cases mem
    · cases mem
    · cases live
  named _ _ _ live := by cases live

theorem held_of_run (run : Run Step start trace m) : Held m [] :=
  run.invariant_last (I := (Held · [])) (fun _ _ _ held step => held.perform step) held_start

theorem copyConstruct_iff (held : Held m []) : (∃ m', m.copyConstruct p = some m') ↔ m.Live p := by
  constructor
  · rintro ⟨m', done⟩
    obtain ⟨v, found, -⟩ := bind_some done
    exact ⟨v, found⟩
  · rintro ⟨v, found⟩
    obtain ⟨h, copied, -⟩ := held.copy (.inr (holds_of_load found))
    exact ⟨_, Option.bind_eq_some_iff.mpr ⟨v, found,
      Option.bind_eq_some_iff.mpr ⟨h, copied, rfl⟩⟩⟩

theorem destruct_iff {x : Nat} (held : Held m []) :
    (∃ m', m.destruct x = some m') ↔ m.Live (.var x) := by
  constructor
  · rintro ⟨m', done⟩
    obtain ⟨v, found, -⟩ := bind_some done
    exact ⟨v, found⟩
  · rintro ⟨v, found⟩
    obtain ⟨h, freed, -⟩ := (held.undeclare found).drop
    exact ⟨_, Option.bind_eq_some_iff.mpr ⟨v, found,
      Option.bind_eq_some_iff.mpr ⟨h, freed, rfl⟩⟩⟩

theorem roots_gone (gone : ∀ v ∈ m.vars, v = none) : m.roots = [] := by
  refine List.flatMap_eq_nil_iff.mpr fun v mem => ?_
  rw [gone v mem]
  rfl

/-- **Whatever a program does to its values**, as long as it runs: every count is the number
of values that point to the cell, every value points to a live cell of its type, no
destructor and no copy of a value that is there can fault, and with the last variable all
of the memory is freed, unless values have been put into themselves. -/
theorem accounted_of_run (run : Run Step start trace m) :
    (∀ a, counted (cell m.heap a) = m.roots.count a + (held Data.refs m.heap).count a) ∧
    (∀ v, m.Holds v → Fits m.heap v) ∧
    (∀ x, m.Live (.var x) → ∃ m', Step m (.destruct x) m') ∧
    (∀ p, m.Live p → ∃ m', Step m (.copyConstruct p) m') ∧
    ((∀ v ∈ m.vars, v = none) → ((∀ a, cell m.heap a = none) ↔ Acyclic Data.refs m.heap)) := by
  have held := held_of_run run
  refine ⟨held.counts.counts, fun v holds => held.fits v (.inr holds), fun x live => ?_,
    fun p live => ?_, fun gone => ?_⟩
  · exact (destruct_iff held).mpr live
  · exact (copyConstruct_iff held).mpr live
  · have counts := held.counts
    rw [List.flatMap_nil, List.nil_append, roots_gone gone] at counts
    exact empty_iff counts

/-- An array that is put into itself outlives its variable. -/
theorem accounted_cycle : ∃ trace m, Run Step start trace m ∧ (∀ v ∈ m.vars, v = none) ∧
    ¬ Acyclic Data.refs m.heap := by
  have made : Step start (.construct .array) ⟨[some ⟨1, .array []⟩], [some (.array 0)]⟩ := rfl
  have added : Step ⟨[some ⟨1, .array []⟩], [some (.array 0)]⟩ (.addValueCopy (.var 0) (.var 0))
      ⟨[some ⟨2, .array [.array 0]⟩], [some (.array 0)]⟩ := rfl
  have left : destroy [some ⟨2, .array [.array 0]⟩] (.array 0) =
      some [some ⟨1, .array [.array 0]⟩] := by
    rw [destroy, Slot.refs, release_cons rfl]
    exact release_nil _
  have ended : Step ⟨[some ⟨2, .array [.array 0]⟩], [some (.array 0)]⟩ (.destruct 0)
      ⟨[some ⟨1, .array [.array 0]⟩], [none]⟩ :=
    Option.bind_eq_some_iff.mpr ⟨_, left, rfl⟩
  have run := Run.cons made (.cons added (.cons ended (.nil _)))
  have gone : ∀ v ∈ [(none : Option Slot)], v = none := fun v mem => List.mem_singleton.mp mem
  refine ⟨_, _, run, gone, fun acyclic => ?_⟩
  cases ((accounted_of_run run).2.2.2.2 gone).mpr acyclic 0

end Runs

end Memory

end LaliRpc.Jackson
