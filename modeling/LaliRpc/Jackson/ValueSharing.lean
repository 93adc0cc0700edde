/-
# Jackson.ValueSharing — values that share their memory, without cycles

An assignment destroys what it overwrites before it reads what it stores, and the growing
containers read their own place again after the value has been stored. What each step needs
for it not to fault (`Safe`) is exact as long as no value has been put into itself
(`step_iff`), and putting in nothing that leads back to the container (`NoCycle`) keeps it
so. Over such runs a cell is live exactly as long as it can be reached from the variables.
-/
import LaliRpc.Jackson.ValueCounts

namespace LaliRpc.Jackson.Memory

set_option autoImplicit false

open Theory (Run)
open Theory.RefCount
open Relation (ReflTransGen TransGen)

variable {m m' : Memory} {u v : Slot} {p q : Place} {op : Op}

/-- The cell can be reached without the place. -/
def Outlives (m : Memory) (this : Place) (a : Nat) : Prop :=
  Reached Data.refs (m.assign this .null).heap (m.assign this .null).roots a

/-- What an assignment reads is still there when it has destroyed what it overwrites: it is
a variable, or lies in a cell that can be reached without the place assigned to. -/
def Survives (m : Memory) (this : Place) : Place → Prop
  | .var _ => True
  | .inside a _ => m.Outlives this a

/-- What a step refers to from a cell that did not: nothing that leads back to the cell. -/
def Apart (m : Memory) (rhs : Place) (a : Nat) : Prop :=
  ∀ v, m.load rhs = some v → ∀ b ∈ v.refs, ¬ ReflTransGen (Refers Data.refs m.heap) b a

/-- The step closes no cycle. -/
def NoCycle (m : Memory) : Op → Prop
  | .copyAssign this rhs | .moveAssign this rhs => ∀ a i, this = .inside a i → m.Apart rhs a
  | .addValueCopy this value | .addValueMove this value =>
      ∀ a, m.arrayAt this = some a → m.Apart value a
  | .addMember this _ value => ∀ o, m.objectAt this = some o → m.Apart value o
  | .construct _ | .copyConstruct _ | .moveConstruct _ | .destruct _ | .setTo _ _ | .setView _ _
  | .addValue _ _ => True

/-- What a caller has to see to. -/
def Safe (m : Memory) : Op → Prop
  | .construct _ => True
  | .copyConstruct rhs | .moveConstruct rhs => m.Live rhs
  | .destruct x => m.Live (.var x)
  | .copyAssign this rhs | .moveAssign this rhs =>
      this ≠ rhs ∧ m.Live this ∧ m.Live rhs ∧ m.Survives this rhs
  | .setTo this _ => m.Live this
  | .setView this value => m.Live this ∧ ∃ s text, m.load value = some (.string s) ∧
      getStringView m.heap (.string s) = some text ∧ (text = [] ∨ m.Outlives this s)
  | .addValue this _ => ∃ a, m.arrayAt this = some a
  | .addValueCopy this value => (∃ a, m.arrayAt this = some a) ∧ m.Live value
  | .addValueMove this value => (∃ a, m.arrayAt this = some a) ∧ m.Live value ∧ this ≠ value
  | .addMember this key value => this ≠ value ∧ m.Live value ∧ ∃ o k name data,
      m.objectAt this = some o ∧ m.load key = some k ∧ getStringView m.heap k = some name ∧
        members m.heap o = some data ∧ ∀ e ∈ data, getStringView m.heap e.1 ≠ some name

theorem live_assign (m : Memory) (p : Place) (w : Slot) (b : Nat) :
    (∃ c, cell (m.assign p w).heap b = some c) ↔ ∃ c, cell m.heap b = some c := by
  cases p with
  | var x => exact Iff.rfl
  | inside a i =>
      cases live : cell m.heap a with
      | none => rw [assign, live]
      | some c =>
          rw [assign_inside live]
          by_cases here : a = b
          · subst here
            exact iff_of_true ⟨_, cell_withData_self live _⟩ ⟨c, live⟩
          · rw [cell_withData_of_ne _ here]

/-- An assignment makes its container refer to what it stores, and to nothing else. -/
theorem refers_assign {b a : Nat} (refers : Refers Data.refs (m.assign p v).heap b a) :
    Refers Data.refs m.heap b a ∨ (∃ i, p = .inside b i) ∧ a ∈ v.refs := by
  cases p with
  | var x => exact .inl refers
  | inside d i =>
      cases live : cell m.heap d with
      | none =>
          rw [assign, live] at refers
          exact .inl refers
      | some c =>
          rw [assign_inside live] at refers
          obtain ⟨c', live', mem⟩ := refers
          rcases cell_of_withData live live' with ⟨rfl, rfl⟩ | same
          · obtain ⟨w, inside, part⟩ := List.mem_flatMap.mp mem
            rcases Data.mem_slots_set inside with here | old
            · exact .inr ⟨⟨i, rfl⟩, here ▸ part⟩
            · exact .inl ⟨c, live, List.mem_flatMap.mpr ⟨w, old, part⟩⟩
          · exact .inl ⟨c', same, mem⟩

theorem refers_null {b a : Nat} (refers : Refers Data.refs (m.assign p .null).heap b a) :
    Refers Data.refs m.heap b a := by
  rcases refers_assign refers with old | ⟨-, mem⟩
  · exact old
  · cases mem

/-- Without cycles no value's destructor frees the value's own place. -/
theorem destroy_keeps (held : Held m []) (acyclic : Acyclic Data.refs m.heap)
    (found : m.load p = some v) :
    ∃ h, destroy m.heap v = some h ∧ { m with heap := h }.load p = some v := by
  obtain ⟨h, done, held'⟩ := (held.take found).drop
  have empty := load_assign_self found .null
  have back : (m.assign p .null).assign p v = m :=
    (assign_assign m p .null v).trans (assign_load found)
  have still : { m.assign p .null with heap := h }.load p = some .null := by
    cases p with
    | var x => exact empty
    | inside a i =>
        obtain ⟨c, live, value⟩ := inside_of_load empty
        have reached : Reached Data.refs (m.assign (.inside a i) .null).heap
            (m.assign (.inside a i) .null).roots a := by
          have fewer : ∀ b a', Refers Data.refs (m.assign (.inside a i) .null).heap b a' →
              Refers Data.refs m.heap b a' := fun _ _ => refers_null
          obtain ⟨r, mem, path⟩ :=
            (live_iff (held.take found).counts (acyclic.mono fewer)).mp ⟨c, live⟩
          rcases List.mem_append.mp mem with own | root
          · -- the place would refer to what leads back to it
            rw [List.flatMap_cons, List.flatMap_nil, List.append_nil] at own
            obtain ⟨c', live', value'⟩ := inside_of_load found
            have edge : Refers Data.refs m.heap a r :=
              ⟨c', live', List.mem_flatMap.mpr ⟨v, Data.mem_slots_of_get value', own⟩⟩
            exact absurd (TransGen.head' edge
              (ReflTransGen.mono fewer r a path)) (acyclic a)
          · exact ⟨r, root, path⟩
        have shrinks := (release_shrinks done).1
        obtain ⟨c', live'⟩ := live_of_release held'.counts shrinks reached
        obtain ⟨c'', live'', same⟩ := shrinks a c' live'
        obtain rfl := Option.some.inj (live.symm.trans live'')
        exact (@load_inside { m.assign (.inside a i) .null with heap := h } a c' live' i).trans
          (same ▸ value)
  have again := destroy_assign done still v
  have whole := @vars_assign _ _ _ p h v empty still
  rw [back] at again whole
  refine ⟨_, again, ?_⟩
  rw [whole]
  exact load_assign_self still v

/-- What is left of the heap when an assignment has destroyed what it overwrites. -/
theorem live_destroyed_iff {h : Heap Data} (held : Held m []) (acyclic : Acyclic Data.refs m.heap)
    (found : m.load p = some v) (done : destroy m.heap v = some h)
    (still : { m with heap := h }.load p = some u) (b : Nat) :
    (∃ c, cell h b = some c) ↔ m.Outlives p b := by
  have emptied := destroy_assign done still .null
  have counts := (held.destroyed found done still).counts
  have whole := @vars_assign m v u p h .null found still
  have roots : ({ m with heap := h }.assign p .null).roots = (m.assign p .null).roots := by
    rw [← whole]
    rfl
  rw [List.flatMap_nil, List.nil_append, roots] at counts
  have fewer : ∀ b a, Refers Data.refs (m.assign p .null).heap b a → Refers Data.refs m.heap b a :=
    fun _ _ => refers_null
  rw [← live_assign { m with heap := h } p .null b]
  exact release_live_iff (acyclic.mono fewer) emptied counts

/-- **What an assignment reads is there exactly if it survives.** -/
theorem survives_iff {h : Heap Data} (held : Held m []) (acyclic : Acyclic Data.refs m.heap)
    (found : m.load p = some v) (done : destroy m.heap v = some h)
    (still : { m with heap := h }.load p = some u) :
    { m with heap := h }.Live q ↔ m.Live q ∧ m.Survives p q := by
  have shrinks := (release_shrinks done).1
  cases q with
  | var x => exact (and_iff_left trivial).symm
  | inside b j =>
      rw [Survives, ← live_destroyed_iff held acyclic found done still]
      constructor
      · rintro ⟨w, value⟩
        obtain ⟨c, live, -⟩ := inside_of_load value
        exact ⟨⟨w, load_of_shrinks shrinks value⟩, c, live⟩
      · rintro ⟨⟨w, value⟩, c', live'⟩
        obtain ⟨c, live, same⟩ := shrinks b c' live'
        rw [load_inside live] at value
        exact ⟨w, (@load_inside { m with heap := h } b c' live' j).trans (same ▸ value)⟩

/-! ## No step closes a cycle -/

section NoCycle

variable {h : Heap Data} {init : Init} {a b : Nat}

theorem refers_construct (refers : Refers Data.refs (Memory.construct h init).1 b a) :
    Refers Data.refs h b a := by
  rcases construct_cases h init with same | ⟨d, empty, more⟩
  · rwa [same] at refers
  · obtain ⟨c, live, mem⟩ := refers
    rw [more, cell_append_one] at live
    split at live
    · obtain rfl := Option.some.inj live
      rw [Data.refs, empty] at mem
      cases mem
    · exact ⟨c, live, mem⟩

/-- A constructed value points to nothing that was there. -/
theorem apart_construct (live : ∃ c, cell h a = some c)
    (mem : b ∈ (Memory.construct h init).2.refs) : ¬ ReflTransGen (Refers Data.refs h) b a := by
  have fresh : b = h.length := by
    cases init with
    | null | bool | int32 | int64 | double => cases mem
    | string | array | object => exact List.mem_singleton.mp mem
  obtain ⟨c, live⟩ := live
  intro path
  rcases ReflTransGen.cases_head path with same | ⟨n, ⟨c', live', -⟩, -⟩
  · exact absurd (lt_of_cell live) (by omega)
  · exact absurd (lt_of_cell live') (by omega)

theorem acyclic_assign (acyclic : Acyclic Data.refs h)
    (fewer : ∀ b a, Refers Data.refs m.heap b a → Refers Data.refs h b a)
    (apart : ∀ a i, p = .inside a i → ∀ b ∈ v.refs, ¬ ReflTransGen (Refers Data.refs h) b a) :
    Acyclic Data.refs (m.assign p v).heap := by
  cases p with
  | var x => exact acyclic.mono fewer
  | inside a i =>
      refine @acyclic_insert _ (Refers Data.refs h) _ a (· ∈ v.refs) (fun b x refers => ?_)
        (apart a i rfl) acyclic
      rcases refers_assign refers with old | ⟨⟨j, same⟩, mem⟩
      · exact .inl (fewer b x old)
      · obtain ⟨rfl, -⟩ := Place.inside.inj same
        exact .inr ⟨rfl, mem⟩

/-- A container gets more values. -/
theorem acyclic_append {c : Cell Data} {d : Data} {new : List Slot}
    (acyclic : Acyclic Data.refs h)
    (fewer : ∀ b a, Refers Data.refs m.heap b a → Refers Data.refs h b a)
    (live : cell m.heap a = some c) (slots : d.slots = c.data.slots ++ new)
    (apart : ∀ b ∈ new.flatMap Slot.refs, ¬ ReflTransGen (Refers Data.refs h) b a) :
    Acyclic Data.refs (withData m.heap a d) := by
  refine @acyclic_insert _ (Refers Data.refs h) _ a (· ∈ new.flatMap Slot.refs) ?_ apart acyclic
  rintro b x ⟨c', live', mem⟩
  rcases cell_of_withData live live' with ⟨rfl, rfl⟩ | same
  · have split : x ∈ c.data.refs ∨ x ∈ new.flatMap Slot.refs := by
      rw [Data.refs, slots, List.flatMap_append] at mem
      exact List.mem_append.mp mem
    exact split.imp (fun old => fewer _ x ⟨c, live, old⟩) fun fresh => ⟨rfl, fresh⟩
  · exact .inl (fewer b x ⟨c', same, mem⟩)

theorem acyclic_emplaceBack (acyclic : Acyclic Data.refs h)
    (fewer : ∀ b a, Refers Data.refs m.heap b a → Refers Data.refs h b a)
    (done : m.emplaceBack p a v = some m')
    (apart : ∀ b ∈ v.refs, ¬ ReflTransGen (Refers Data.refs h) b a) :
    Acyclic Data.refs m'.heap := by
  obtain ⟨values, a', found, rfl, -⟩ := emplaceBack_eq done
  obtain ⟨c, live, array⟩ := elements_eq found
  have slots : (Data.array (values ++ [v])).slots = c.data.slots ++ [v] := by rw [array]; rfl
  refine acyclic_append acyclic fewer live slots fun b mem => apart b ?_
  rwa [List.flatMap_singleton] at mem

/-- A string's cell refers to nothing. -/
theorem apart_string {s : Nat} (fits : Fits m.heap (.string s)) {c : Cell Data}
    (live : cell m.heap a = some c) (object : c.data.type = .object) :
    ¬ ReflTransGen (Refers Data.refs m.heap) s a := by
  obtain ⟨c', live', type⟩ := fits s List.mem_cons_self
  intro path
  rcases ReflTransGen.cases_head path with rfl | ⟨n, ⟨c'', live'', mem⟩, -⟩
  · obtain rfl := Option.some.inj (live.symm.trans live')
    cases object.symm.trans type
  · obtain rfl := Option.some.inj (live'.symm.trans live'')
    cases data : c'.data with
    | string => rw [data] at mem; cases mem
    | array | object => rw [data] at type; cases type

theorem acyclic_addMember {this key value : Place} (held : Held m [])
    (acyclic : Acyclic Data.refs m.heap) (apart : m.NoCycle (.addMember this key value))
    (done : m.addMember this key value = some m') : Acyclic Data.refs m'.heap := by
  obtain ⟨o, k, name, before, v, data, o', object, found, string, there, -, found', last,
    rfl, -⟩ := addMember_eq done
  obtain ⟨c, live, object'⟩ := members_eq last
  obtain ⟨c₀, live₀, object₀⟩ := members_eq there
  have slots : (Data.object (data ++ [(k, v)])).slots = c.data.slots ++ [v, k] := by
    rw [object', Data.slots, Data.slots, List.flatMap_append]
    rfl
  have fewer : ∀ b a, Refers Data.refs ((m.assign key .null).assign value .null).heap b a →
      Refers Data.refs m.heap b a := fun _ _ refers => refers_null (refers_null refers)
  refine acyclic_append acyclic fewer live slots fun b mem => ?_
  rw [List.flatMap_cons, List.flatMap_singleton] at mem
  rcases List.mem_append.mp mem with fromValue | fromKey
  · by_cases same : key = value
    · -- the value has just been moved away
      subst same
      obtain rfl := Option.some.inj ((load_assign_self found .null).symm.trans found')
      cases fromValue
    · rw [load_assign_of_ne m .null same] at found'
      exact apart o object v found' b fromValue
  · cases k with
    | string s =>
        obtain rfl := List.mem_singleton.mp fromKey
        exact apart_string (held.fits _ (.inr (holds_of_load found))) live₀
          (by rw [object₀]; rfl)
    | null | bool | int32 | int64 | double | array | object => cases string

theorem acyclic_setTo (acyclic : Acyclic Data.refs m.heap) (done : m.setTo p init = some m') :
    Acyclic Data.refs m'.heap := by
  obtain ⟨old, h, u, found, freed, still, rfl⟩ := setTo_eq done
  have fewer : ∀ b a, Refers Data.refs h b a → Refers Data.refs m.heap b a := fun _ _ =>
    (release_shrinks freed).1.refers
  refine acyclic_assign (acyclic.mono fewer) (fun _ _ => refers_construct) ?_
  rintro a i rfl b mem
  obtain ⟨c, live, -⟩ := inside_of_load (load_of_construct still)
  exact apart_construct ⟨c, live⟩ mem

theorem acyclic_perform (held : Held m []) (acyclic : Acyclic Data.refs m.heap)
    (apart : m.NoCycle op) (done : m.perform op = some m') : Acyclic Data.refs m'.heap := by
  have same : ∀ b a, Refers Data.refs m.heap b a → Refers Data.refs m.heap b a := fun _ _ => id
  cases op with
  | construct init =>
      obtain rfl := Option.some.inj done
      exact acyclic.mono fun _ _ => refers_construct
  | copyConstruct rhs =>
      obtain ⟨v, h, found, copied, rfl⟩ := copyConstruct_eq done
      exact acyclic.mono fun _ _ => (incr_shrinks copied).1.refers
  | moveConstruct rhs =>
      obtain ⟨v, found, rfl⟩ := moveConstruct_eq done
      exact acyclic.mono fun _ _ => refers_null
  | destruct x =>
      obtain ⟨v, h, found, freed, rfl⟩ := destruct_eq done
      exact acyclic.mono fun _ _ => (release_shrinks freed).1.refers
  | copyAssign this rhs =>
      obtain ⟨-, old, h, v, h', u, found, freed, value, copied, -, rfl⟩ := copyAssign_eq done
      have shrinks := (release_shrinks freed).1
      refine acyclic_assign acyclic ?_ fun a i place => apart a i place v ?_
      · exact fun b a refers => shrinks.refers ((incr_shrinks copied).1.refers refers)
      · exact load_of_shrinks shrinks value
  | moveAssign this rhs =>
      obtain ⟨-, old, h, v, u, found, freed, value, -, rfl⟩ := moveAssign_eq done
      have shrinks := (release_shrinks freed).1
      have stored : Acyclic Data.refs ({ m with heap := h }.assign this v).heap :=
        acyclic_assign acyclic (fun b a => shrinks.refers) fun a i place =>
          apart a i place v (load_of_shrinks shrinks value)
      exact stored.mono fun _ _ => refers_null
  | setTo this init => exact acyclic_setTo acyclic done
  | setView this value =>
      obtain ⟨view, s, -, -, -, set⟩ := setView_eq done
      exact acyclic_setTo acyclic set
  | addValue this init =>
      obtain ⟨a, array, done⟩ := bind_some done
      obtain ⟨c, live, -⟩ := held.fits _ (.inr (holds_of_load (arrayAt_eq array))) a
        List.mem_cons_self
      exact acyclic_emplaceBack acyclic (fun _ _ => refers_construct) done fun b mem =>
        apart_construct ⟨c, live⟩ mem
  | addValueCopy this value =>
      obtain ⟨a, array, done⟩ := bind_some done
      obtain ⟨v, found, done⟩ := bind_some done
      obtain ⟨h, copied, done⟩ := bind_some done
      exact acyclic_emplaceBack acyclic (fun _ _ => (incr_shrinks copied).1.refers) done
        (apart a array v found)
  | addValueMove this value =>
      obtain ⟨a, v, array, found, done⟩ := addValueMove_eq done
      exact acyclic_emplaceBack acyclic (fun _ _ => refers_null) done (apart a array v found)
  | addMember this key value => exact acyclic_addMember held acyclic apart done

theorem acyclic_of_run {trace : List (Memory × Op)}
    (run : Run (fun m op m' => Step m op m' ∧ m.NoCycle op) start trace m) :
    Held m [] ∧ Acyclic Data.refs m.heap := by
  refine run.invariant_last (I := fun m => Held m [] ∧ Acyclic Data.refs m.heap) ?_ ⟨held_start, ?_⟩
  · rintro m op m' ⟨held, acyclic⟩ ⟨step, apart⟩
    exact ⟨held.perform step, acyclic_perform held acyclic apart step⟩
  · intro a cycle
    obtain ⟨b, ⟨c, live, -⟩, -⟩ := TransGen.head'_iff.mp cycle
    cases live

end NoCycle

/-! ## Exactly the safe steps can be taken -/

section Exact

variable {h : Heap Data} {op : Op} {init : Init} {a : Nat}

theorem load_construct (found : { m with heap := h }.load p = some v) (init : Init) :
    { m with heap := (Memory.construct h init).1 }.load p = some v := by
  rcases construct_cases h init with same | ⟨d, -, more⟩
  · rwa [same]
  · rw [more]
    cases p with
    | var x => exact found
    | inside a i =>
        obtain ⟨c, live, value⟩ := inside_of_load found
        have longer : cell (h ++ [some ⟨1, d⟩]) a = some c := by
          rw [cell_append_one, if_neg (Nat.ne_of_lt (lt_of_cell live)), live]
        exact (@load_inside { m with heap := h ++ [some ⟨1, d⟩] } a c longer i).trans value

theorem elements_of_fits (fits : Fits h (.array a)) : ∃ values, elements h a = some values := by
  obtain ⟨c, live, type⟩ := fits a List.mem_cons_self
  obtain ⟨n, d⟩ := c
  cases d with
  | array values => exact ⟨values, by rw [elements, live]⟩
  | string | object => cases type

theorem members_of_fits (fits : Fits h (.object a)) : ∃ data, members h a = some data := by
  obtain ⟨c, live, type⟩ := fits a List.mem_cons_self
  obtain ⟨n, d⟩ := c
  cases d with
  | object data => exact ⟨data, by rw [members, live]⟩
  | string | array => cases type

theorem getStringView_of_fits (fits : Fits h (.string a)) :
    ∃ name, getStringView h (.string a) = some name := by
  obtain ⟨c, live, type⟩ := fits a List.mem_cons_self
  obtain ⟨n, d⟩ := c
  cases d with
  | string name => exact ⟨name, by rw [getStringView, live]⟩
  | array | object => cases type

/-- The search ends at the end if and only if the name is not there. -/
theorem findMember_end (name : Bytes) {data : List (Slot × Slot)}
    (named : ∀ e ∈ data, ∃ key, getStringView h e.1 = some key) :
    ∃ it, findMember h name data = some it ∧
      (it = data.length ↔ ∀ e ∈ data, getStringView h e.1 ≠ some name) := by
  induction data with
  | nil => exact ⟨0, rfl, iff_of_true rfl fun e mem => by cases mem⟩
  | cons e rest ih =>
      obtain ⟨⟨key, view⟩, others⟩ := List.forall_mem_cons.mp named
      obtain ⟨it, search, ends⟩ := ih others
      by_cases here : key = name
      · refine ⟨0, by simp [findMember, view, here], iff_of_false (Nat.succ_ne_zero _).symm ?_⟩
        exact fun none => none e List.mem_cons_self (here ▸ view)
      · refine ⟨it + 1, by simp [findMember, view, here, search], ?_⟩
        rw [List.length_cons, Nat.succ_inj, ends, List.forall_mem_cons, view]
        exact (and_iff_right fun same => here (Option.some.inj same)).symm

/-- Without cycles a container is not among its own elements, -/
theorem not_inside (acyclic : Acyclic Data.refs m.heap) (found : m.load p = some v)
    (own : a ∈ v.refs) (i : Nat) : p ≠ .inside a i := by
  rintro rfl
  obtain ⟨c, live, value⟩ := inside_of_load found
  have edge : Refers Data.refs m.heap a a :=
    ⟨c, live, List.mem_flatMap.mpr ⟨v, Data.mem_slots_of_get value, own⟩⟩
  exact acyclic a (.single edge)

/-- so that it stays where it is when it gets more of them. -/
theorem load_append (apart : ∀ i, p ≠ .inside a i) (d : Data) :
    { m with heap := withData m.heap a d }.load p = m.load p := by
  cases p with
  | var x => rfl
  | inside b i =>
      have other : a ≠ b := by
        rintro rfl
        exact apart i rfl
      rw [load, cell_withData_of_ne d other]
      rfl

theorem arrayAt_of_load (found : m.load p = some (.array a)) : m.arrayAt p = some a := by
  rw [arrayAt, found]

theorem emplaceBack_done (acyclic : Acyclic Data.refs m.heap) (fits : Fits m.heap (.array a))
    (array : m.load p = some (.array a)) (v : Slot) : ∃ m', m.emplaceBack p a v = some m' := by
  obtain ⟨values, found⟩ := elements_of_fits fits
  have again : arrayAt { m with heap := withData m.heap a (.array (values ++ [v])) } p = some a :=
    arrayAt_of_load ((load_append (not_inside acyclic array List.mem_cons_self) _).trans array)
  exact ⟨_, Option.bind_eq_some_iff.mpr ⟨values, found,
    Option.bind_eq_some_iff.mpr ⟨a, again, rfl⟩⟩⟩

/-- A value that is still there can be copied after a destructor has run. -/
theorem incr_destroyed (held : Held m []) (found : m.load p = some u)
    (done : destroy m.heap u = some h) (still : { m with heap := h }.load p = some u)
    (other : p ≠ q) (value : { m with heap := h }.load q = some v) :
    ∃ h', incr h v = some h' := by
  have empty := held.destroyed found done still
  have there := (load_assign_of_ne _ .null other).trans value
  obtain ⟨h', copied, -⟩ := empty.copy (.inr (holds_of_load there))
  have emptied := load_assign_self still .null
  have still' := load_of_shrinks (incr_shrinks copied).2 emptied
  have back := incr_assign copied still' u
  rw [assign_assign, assign_load still] at back
  exact ⟨_, back⟩

theorem copyAssign_iff (held : Held m []) (acyclic : Acyclic Data.refs m.heap) :
    (∃ m', m.copyAssign p q = some m') ↔ m.Safe (.copyAssign p q) := by
  constructor
  · rintro ⟨m', done⟩
    obtain ⟨other, old, h, v, h', u, found, freed, value, -, -, -⟩ := copyAssign_eq done
    obtain ⟨h', freed', still⟩ := destroy_keeps held acyclic found
    obtain rfl := Option.some.inj (freed.symm.trans freed')
    exact ⟨other, ⟨old, found⟩, (survives_iff held acyclic found freed still).mp ⟨v, value⟩⟩
  · rintro ⟨other, ⟨old, found⟩, there⟩
    obtain ⟨h, freed, still⟩ := destroy_keeps held acyclic found
    obtain ⟨v, value⟩ := (survives_iff held acyclic found freed still).mpr there
    obtain ⟨h', copied⟩ := incr_destroyed held found freed still other value
    have left := load_of_shrinks (incr_shrinks copied).2 still
    refine ⟨{ m with heap := h' }.assign p v, ?_⟩
    rw [Memory.copyAssign, if_neg other]
    simp only [Option.bind_eq_bind, found, freed, value, copied, store, left, Option.bind_some,
      Option.map_some]

theorem moveAssign_iff (held : Held m []) (acyclic : Acyclic Data.refs m.heap) :
    (∃ m', m.moveAssign p q = some m') ↔ m.Safe (.moveAssign p q) := by
  constructor
  · rintro ⟨m', done⟩
    obtain ⟨other, old, h, v, u, found, freed, value, -, -⟩ := moveAssign_eq done
    obtain ⟨h', freed', still⟩ := destroy_keeps held acyclic found
    obtain rfl := Option.some.inj (freed.symm.trans freed')
    exact ⟨other, ⟨old, found⟩, (survives_iff held acyclic found freed still).mp ⟨v, value⟩⟩
  · rintro ⟨other, ⟨old, found⟩, there⟩
    obtain ⟨h, freed, still⟩ := destroy_keeps held acyclic found
    obtain ⟨v, value⟩ := (survives_iff held acyclic found freed still).mpr there
    have moved := (load_assign_of_ne _ v other).trans value
    refine ⟨({ m with heap := h }.assign p v).assign q .null, ?_⟩
    rw [Memory.moveAssign, if_neg other]
    simp only [Option.bind_eq_bind, found, freed, value, store, still, moved, Option.bind_some,
      Option.map_some]

theorem setTo_iff (held : Held m []) (acyclic : Acyclic Data.refs m.heap) :
    (∃ m', m.setTo p init = some m') ↔ m.Live p := by
  constructor
  · rintro ⟨m', done⟩
    obtain ⟨old, found, -⟩ := bind_some done
    exact ⟨old, found⟩
  · rintro ⟨old, found⟩
    obtain ⟨h, freed, still⟩ := destroy_keeps held acyclic found
    have left := load_construct still init
    refine ⟨{ m with heap := (Memory.construct h init).1 }.assign p (Memory.construct h init).2, ?_⟩
    simp only [Memory.setTo, Option.bind_eq_bind, found, freed, store, left, Option.bind_some,
      Option.map_some]

theorem setView_of_read {s : Bytes} (value : m.load q = some v)
    (string : getStringView m.heap v = some s) (found : m.load p = some u)
    (freed : destroy m.heap u = some h) (read : s = [] ∨ getStringView h v = some s) :
    m.setView p q = m.setTo p (.string s) := by
  have text : (if s = [] then some s else getStringView h v) = some s := by
    split
    · rfl
    · exact read.resolve_left ‹_›
  simp only [Memory.setView, Memory.setTo, Option.bind_eq_bind, value, string, found, freed, text,
    Option.bind_some]

/-- The view of a string can be read as long as the string is there. -/
theorem setView_iff (held : Held m []) (acyclic : Acyclic Data.refs m.heap) :
    (∃ m', m.setView p q = some m') ↔ m.Safe (.setView p q) := by
  constructor
  · rintro ⟨m', done⟩
    obtain ⟨view, text, value, string, read, set⟩ := setView_eq done
    obtain ⟨old, found⟩ := (setTo_iff held acyclic).mp ⟨m', set⟩
    obtain ⟨h, freed, still⟩ := destroy_keeps held acyclic found
    obtain ⟨s, c, rfl, -, -⟩ := getStringView_eq string
    refine ⟨⟨old, found⟩, s, text, value, string, (read old h found freed).imp_right ?_⟩
    intro there
    obtain ⟨s', c', same, live', -⟩ := getStringView_eq there
    obtain rfl := Slot.string.inj same
    exact (live_destroyed_iff held acyclic found freed still s).mp ⟨c', live'⟩
  · rintro ⟨⟨old, found⟩, s, text, value, string, there⟩
    obtain ⟨h, freed, still⟩ := destroy_keeps held acyclic found
    rw [setView_of_read value string found freed (there.imp_right fun outlives => ?_)]
    · exact (setTo_iff held acyclic).mpr ⟨old, found⟩
    · obtain ⟨c', live'⟩ := (live_destroyed_iff held acyclic found freed still s).mpr outlives
      obtain ⟨s', c, same, live, data⟩ := getStringView_eq string
      obtain rfl := Slot.string.inj same
      obtain ⟨c'', live'', data'⟩ := (release_shrinks freed).1 s c' live'
      obtain rfl := Option.some.inj (live.symm.trans live'')
      exact getStringView_of_cell live' (data'.symm.trans data)

/-- A value that is set to its own text reads what it has freed. -/
example : setView ⟨[some ⟨1, .string [65]⟩], [some (.string 0)]⟩ (.var 0) (.var 0) = none := by
  have freed : destroy [some ⟨1, .string [65]⟩] (.string 0) = some [none] := by
    rw [destroy, Slot.refs, release_cons rfl]
    exact release_nil _
  simp [setView, load, getStringView, cell, freed]

theorem addValue_iff (held : Held m []) (acyclic : Acyclic Data.refs m.heap) :
    (∃ m', m.addValue p init = some m') ↔ ∃ a, m.arrayAt p = some a := by
  constructor
  · rintro ⟨m', done⟩
    obtain ⟨a, array, -⟩ := bind_some done
    exact ⟨a, array⟩
  · rintro ⟨a, array⟩
    have found := load_construct (arrayAt_eq array) init
    have made := held.construct init
    obtain ⟨m', done⟩ := @emplaceBack_done { m with heap := (Memory.construct m.heap init).1 } p a
      (acyclic.mono fun _ _ => refers_construct) (made.fits _ (.inr (holds_of_load found))) found
      (Memory.construct m.heap init).2
    exact ⟨m', Option.bind_eq_some_iff.mpr ⟨a, array, done⟩⟩

theorem addValueCopy_iff (held : Held m []) (acyclic : Acyclic Data.refs m.heap) :
    (∃ m', m.addValueCopy p q = some m') ↔ m.Safe (.addValueCopy p q) := by
  constructor
  · rintro ⟨m', done⟩
    obtain ⟨a, array, done⟩ := bind_some done
    obtain ⟨v, found, -⟩ := bind_some done
    exact ⟨⟨a, array⟩, v, found⟩
  · rintro ⟨⟨a, array⟩, v, found⟩
    obtain ⟨h, copied, held'⟩ := held.copy (.inr (holds_of_load found))
    have shrinks := incr_shrinks copied
    have there := load_of_shrinks shrinks.2 (arrayAt_eq array)
    obtain ⟨m', done⟩ := @emplaceBack_done { m with heap := h } p a
      (acyclic.mono fun _ _ => shrinks.1.refers) (held'.fits _ (.inr (holds_of_load there))) there v
    exact ⟨m', Option.bind_eq_some_iff.mpr ⟨a, array, Option.bind_eq_some_iff.mpr ⟨v, found,
      Option.bind_eq_some_iff.mpr ⟨h, copied, done⟩⟩⟩⟩

theorem store_of_load (found : m.load p = some u) (v : Slot) :
    m.store p v = some (m.assign p v) := by
  rw [store, found]
  rfl

theorem addValueMove_iff (held : Held m []) (acyclic : Acyclic Data.refs m.heap) :
    (∃ m', m.addValueMove p q = some m') ↔ m.Safe (.addValueMove p q) := by
  constructor
  · rintro ⟨m', done⟩
    obtain ⟨a, v, array, found, done⟩ := addValueMove_eq done
    refine ⟨⟨a, array⟩, ⟨v, found⟩, ?_⟩
    rintro rfl
    -- the array itself has been moved away
    obtain ⟨values, a', -, rfl, again⟩ := emplaceBack_eq done
    have apart := not_inside acyclic (arrayAt_eq array) List.mem_cons_self
    have gone := (load_append apart _).symm.trans (arrayAt_eq again)
    cases (load_assign_self found .null).symm.trans gone
  · rintro ⟨⟨a, array⟩, ⟨v, found⟩, other⟩
    have taken := held.take found
    have there := (load_assign_of_ne m .null (Ne.symm other)).trans (arrayAt_eq array)
    obtain ⟨m', done⟩ := emplaceBack_done (acyclic.mono fun _ _ => refers_null)
      (taken.fits _ (.inr (holds_of_load there))) there v
    exact ⟨m', Option.bind_eq_some_iff.mpr ⟨a, array, Option.bind_eq_some_iff.mpr ⟨v, found,
      Option.bind_eq_some_iff.mpr ⟨_, store_of_load found _, done⟩⟩⟩⟩

theorem objectAt_of_load (found : m.load p = some (.object a)) : m.objectAt p = some a := by
  rw [objectAt, found]

/-- Every key is a string. -/
theorem keys_viewed {o : Nat} {data : List (Slot × Slot)} (held : Held m [])
    (there : members m.heap o = some data) :
    ∀ e ∈ data, ∃ key, getStringView m.heap e.1 = some key := by
  intro e mem
  obtain ⟨c, live, object⟩ := members_eq there
  obtain ⟨s, string⟩ := held.named o c data live object e mem
  have inside : e.1 ∈ c.data.slots := by
    rw [object]
    exact List.mem_flatMap.mpr ⟨e, mem, List.mem_cons_of_mem _ List.mem_cons_self⟩
  have fits := held.fits e.1 (.inr (.inr ⟨o, c, live, inside⟩))
  rw [string] at fits ⊢
  exact getStringView_of_fits fits

theorem addMember_iff {r : Place} (held : Held m []) (acyclic : Acyclic Data.refs m.heap) :
    (∃ m', m.addMember p q r = some m') ↔ m.Safe (.addMember p q r) := by
  constructor
  · rintro ⟨m', done⟩
    obtain ⟨o, k, name, data, v, after, o', object, found, string, there, search, found', -, rfl,
      again⟩ := addMember_eq done
    obtain ⟨it, search', ends⟩ := findMember_end name (keys_viewed held there)
    have last := Option.some.inj (search'.symm.trans search)
    have live : m.Live r := by
      by_cases same : q = r
      · exact same ▸ ⟨k, found⟩
      · exact ⟨v, (load_assign_of_ne m .null same).symm.trans found'⟩
    refine ⟨?_, live, o, k, name, data, object, found, string, there, ends.mp last⟩
    rintro rfl
    -- the object itself has been moved away
    have apart := not_inside acyclic (objectAt_eq object) List.mem_cons_self
    have gone := (load_append apart _).symm.trans (objectAt_eq again)
    cases (load_assign_self found' .null).symm.trans gone
  · rintro ⟨other, ⟨v, value⟩, o, k, name, data, object, found, string, there, fresh⟩
    obtain ⟨it, search, ends⟩ := findMember_end name (keys_viewed held there)
    have apart : p ≠ q := by
      rintro rfl
      obtain rfl := Option.some.inj ((objectAt_eq object).symm.trans found)
      cases string
    have taken := held.take found
    have value' : ∃ v', (m.assign q .null).load r = some v' := by
      by_cases same : q = r
      · exact ⟨.null, same ▸ load_assign_self found .null⟩
      · exact ⟨v, (load_assign_of_ne m .null same).trans value⟩
    obtain ⟨v', value'⟩ := value'
    have taken' := taken.take value'
    have kept : ((m.assign q .null).assign r .null).load p = some (.object o) := by
      rw [load_assign_of_ne _ _ (Ne.symm other), load_assign_of_ne _ _ (Ne.symm apart)]
      exact objectAt_eq object
    obtain ⟨data', there'⟩ := members_of_fits (taken'.fits _ (.inr (holds_of_load kept)))
    have again := objectAt_of_load ((load_append (not_inside
      (acyclic.mono fun _ _ refers => refers_null (refers_null refers)) kept List.mem_cons_self)
      (.object (data' ++ [(k, v')]))).trans kept)
    refine ⟨{ (m.assign q .null).assign r .null with
      heap := withData ((m.assign q .null).assign r .null).heap o
        (.object (data' ++ [(k, v')])) }, ?_⟩
    simp only [Memory.addMember, Option.bind_eq_bind, object, found, string, there, search,
      ends.mpr fresh, store_of_load found, value', store_of_load value', there', again,
      Option.bind_some, ne_eq, not_true_eq_false, if_false]
    rfl

/-- **A step can be taken exactly if it is safe.** -/
theorem step_iff (held : Held m []) (acyclic : Acyclic Data.refs m.heap) :
    (∃ m', Step m op m') ↔ m.Safe op := by
  cases op with
  | construct init => exact iff_of_true ⟨_, rfl⟩ trivial
  | copyConstruct rhs => exact copyConstruct_iff held
  | moveConstruct rhs =>
      constructor
      · rintro ⟨m', done⟩
        obtain ⟨v, found, -⟩ := bind_some done
        exact ⟨v, found⟩
      · rintro ⟨v, found⟩
        exact ⟨_, Option.bind_eq_some_iff.mpr ⟨v, found,
          Option.bind_eq_some_iff.mpr ⟨_, store_of_load found _, rfl⟩⟩⟩
  | destruct x => exact destruct_iff held
  | copyAssign this rhs => exact copyAssign_iff held acyclic
  | moveAssign this rhs => exact moveAssign_iff held acyclic
  | setTo this init => exact setTo_iff held acyclic
  | setView this value => exact setView_iff held acyclic
  | addValue this init => exact addValue_iff held acyclic
  | addValueCopy this value => exact addValueCopy_iff held acyclic
  | addValueMove this value => exact addValueMove_iff held acyclic
  | addMember this key value => exact addMember_iff held acyclic

end Exact

/-! ## Whole runs -/

section Runs

variable {trace : List (Memory × Op)}

/-- **In a program that puts no value into itself** nothing faults but what breaks a
condition a caller can see. -/
theorem step_iff_of_run (run : Run (fun m op m' => Step m op m' ∧ m.NoCycle op) start trace m)
    (op : Op) : (∃ m', Step m op m') ↔ m.Safe op := by
  obtain ⟨held, acyclic⟩ := acyclic_of_run run
  exact step_iff held acyclic

/-- Two variables that share an array. -/
theorem shared_run : ∃ trace, Run (fun m op m' => Step m op m' ∧ m.NoCycle op) start trace
    ⟨[some ⟨2, .array [.int32 5]⟩], [some (.array 0), some .null, some (.array 0)]⟩ := by
  have apart : Apart ⟨[some ⟨1, .array []⟩], [some (.array 0), some (.int32 5)]⟩ (.var 1) 0 := by
    rintro v found b mem
    obtain rfl := Option.some.inj found
    cases mem
  have made : Step start (.construct .array) ⟨[some ⟨1, .array []⟩], [some (.array 0)]⟩ := rfl
  have number : Step ⟨[some ⟨1, .array []⟩], [some (.array 0)]⟩ (.construct (.int32 5))
      ⟨[some ⟨1, .array []⟩], [some (.array 0), some (.int32 5)]⟩ := rfl
  have added : Step ⟨[some ⟨1, .array []⟩], [some (.array 0), some (.int32 5)]⟩
      (.addValueMove (.var 0) (.var 1))
      ⟨[some ⟨1, .array [.int32 5]⟩], [some (.array 0), some .null]⟩ := rfl
  have copied : Step ⟨[some ⟨1, .array [.int32 5]⟩], [some (.array 0), some .null]⟩
      (.copyConstruct (.var 0))
      ⟨[some ⟨2, .array [.int32 5]⟩], [some (.array 0), some .null, some (.array 0)]⟩ := rfl
  refine ⟨_, .cons ⟨made, trivial⟩ (.cons ⟨number, trivial⟩ (.cons ⟨added, fun a array => ?_⟩
    (.cons ⟨copied, trivial⟩ (.nil _))))⟩
  obtain rfl : 0 = a := Option.some.inj array
  exact apart

/-- Where the array is shared, one of them can be assigned its own element. -/
theorem step_of_shared : ∃ m', Step
    ⟨[some ⟨2, .array [.int32 5]⟩], [some (.array 0), some .null, some (.array 0)]⟩
    (.copyAssign (.var 0) (.inside 0 0)) m' := by
  obtain ⟨trace, run⟩ := shared_run
  have survives : Survives ⟨[some ⟨2, .array [.int32 5]⟩],
      [some (.array 0), some .null, some (.array 0)]⟩ (.var 0) (.inside 0 0) :=
    ⟨0, List.mem_cons_self, .refl⟩
  exact (step_iff_of_run run (.copyAssign (.var 0) (.inside 0 0))).mpr
    ⟨by decide, ⟨_, rfl⟩, ⟨_, rfl⟩, survives⟩

/-- **There is no garbage**: a cell is live exactly as long as it can be reached from the
variables, and with the last of them everything is freed. -/
theorem live_of_run (run : Run (fun m op m' => Step m op m' ∧ m.NoCycle op) start trace m) :
    (∀ a, (∃ c, cell m.heap a = some c) ↔ Reached Data.refs m.heap m.roots a) ∧
    ((∀ v ∈ m.vars, v = none) → ∀ a, cell m.heap a = none) := by
  obtain ⟨held, acyclic⟩ := acyclic_of_run run
  have counts := held.counts
  rw [List.flatMap_nil, List.nil_append] at counts
  refine ⟨fun a => live_iff counts acyclic, fun gone => ?_⟩
  rw [roots_gone gone] at counts
  exact (empty_iff counts).mpr acyclic

theorem live_of_shared : Reached Data.refs [some ⟨2, .array [.int32 5]⟩]
    (roots ⟨[some ⟨2, .array [.int32 5]⟩], [some (.array 0), some .null, some (.array 0)]⟩) 0 := by
  obtain ⟨trace, run⟩ := shared_run
  exact ((live_of_run run).1 0).mp ⟨_, rfl⟩

end Runs

end LaliRpc.Jackson.Memory
