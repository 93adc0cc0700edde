/-
# Theory.RefCount — a heap of reference-counted cells

A cell carries a count and data that may refer to further cells. `release` gives up a list
of references: it counts down, and a cell whose count reaches zero is freed and gives up
what it refers to. Touching a freed cell, or counting below zero, is a fault.

`Counted h ext` says that every count is the number of references there are, from inside
the heap and from outside of it (`ext`). Every operation keeps it; under it nothing ever
faults (`release_counted`), and what is reachable from outside is live. On a heap without
cycles nothing else is (`live_iff`), so that all of it is freed with the last reference
from outside; a heap that is left without one consists of cycles (`empty_iff`).
-/
import LaliRpc.Theory.SharedOwnership
import Mathlib.Data.Fintype.Card
import Mathlib.Data.Fintype.EquivFin
import Mathlib.Logic.Relation

namespace LaliRpc.Theory.RefCount

set_option autoImplicit false

open Relation (ReflTransGen TransGen)

structure Cell (π : Type) where
  count : Nat
  data : π

/-- The cells by their addresses, `none` where the cell has been freed. -/
abbrev Heap (π : Type) := List (Option (Cell π))

variable {π : Type}

def cell (h : Heap π) (a : Nat) : Option (Cell π) := h[a]?.join

/-- How often a place of the heap is counted. -/
def counted (c : Option (Cell π)) : Nat := (c.map Cell.count).getD 0

/-- The sum of all counts. -/
def total (h : Heap π) : Nat := (h.map counted).sum

/-- The same cells with other data in one of them. -/
def withData (h : Heap π) (a : Nat) (x : π) : Heap π :=
  h.set a ((cell h a).map fun c => { c with data := x })

/-- One reference more. -/
def retain (h : Heap π) (a : Nat) : Option (Heap π) :=
  match cell h a with
  | none => none
  | some c => if c.count = 0 then none else some (h.set a (some { c with count := c.count + 1 }))

/-! ## Places of the heap -/

section Places

variable {h : Heap π} {a b : Nat} {c : Cell π}

theorem getElem?_of_cell (live : cell h a = some c) : h[a]? = some (some c) := by
  rw [cell, Option.join_eq_some_iff] at live
  exact live

theorem lt_of_cell (live : cell h a = some c) : a < h.length :=
  (List.getElem?_eq_some_iff.mp (getElem?_of_cell live)).1

theorem cell_set (inside : a < h.length) (x : Option (Cell π)) (b : Nat) :
    cell (h.set a x) b = if a = b then x else cell h b := by
  rw [cell, List.getElem?_set]
  split
  · rename_i same
    subst same
    rfl
  · rfl

theorem cell_set_self (inside : a < h.length) (x : Option (Cell π)) : cell (h.set a x) a = x := by
  rw [cell_set inside, if_pos rfl]

theorem cell_set_of_ne (x : Option (Cell π)) (other : a ≠ b) :
    cell (h.set a x) b = cell h b := by
  rw [cell, List.getElem?_set_ne other]
  rfl

theorem total_set (live : cell h a = some c) (x : Option (Cell π)) :
    total (h.set a x) + c.count = total h + counted x :=
  sum_map_set counted (getElem?_of_cell live)

theorem withData_eq (live : cell h a = some c) (x : π) :
    withData h a x = h.set a (some { c with data := x }) := by
  rw [withData, live]
  rfl

theorem cell_withData_self (live : cell h a = some c) (x : π) :
    cell (withData h a x) a = some { c with data := x } := by
  rw [withData_eq live, cell_set_self (lt_of_cell live)]

theorem cell_withData_of_ne (x : π) (other : a ≠ b) :
    cell (withData h a x) b = cell h b := cell_set_of_ne _ other

/-- The changed cell, or one that was there. -/
theorem cell_of_withData {x : π} {c' : Cell π} (live : cell h a = some c)
    (after : cell (withData h a x) b = some c') :
    a = b ∧ c' = { c with data := x } ∨ cell h b = some c' := by
  by_cases here : a = b
  · subst here
    exact .inl ⟨rfl, Option.some.inj (after.symm.trans (cell_withData_self live x))⟩
  · exact .inr ((cell_withData_of_ne x here).symm.trans after)

theorem withData_comm {x y : π} (other : a ≠ b) :
    withData (withData h a x) b y = withData (withData h b y) a x := by
  have before := cell_withData_of_ne (h := h) x other
  have after := cell_withData_of_ne (h := h) y (Ne.symm other)
  rw [withData, before, withData, withData, after, withData]
  exact List.set_comm _ _ other

theorem withData_withData (live : cell h a = some c) (x y : π) :
    withData (withData h a x) a y = withData h a y := by
  rw [withData_eq (cell_withData_self live x), withData_eq live, withData_eq live, List.set_set]

theorem withData_self (live : cell h a = some c) : withData h a c.data = h := by
  obtain ⟨inside, found⟩ := List.getElem?_eq_some_iff.mp (getElem?_of_cell live)
  rw [withData_eq live]
  exact found ▸ List.set_getElem_self inside

end Places

/-! ## Giving up references -/

section Release

variable (refs : π → List Nat)

def release (h : Heap π) (pending : List Nat) : Option (Heap π) :=
  match pending with
  | [] => some h
  | a :: rest =>
      match _ : cell h a with
      | none => none
      | some c =>
          if c.count = 0 then none
          else if c.count = 1 then release (h.set a none) (refs c.data ++ rest)
          else release (h.set a (some { c with count := c.count - 1 })) rest
termination_by total h
decreasing_by
  · rename_i live _ _
    have less := total_set live none
    have zero : counted (none : Option (Cell π)) = 0 := rfl
    omega
  · rename_i live _ _
    have less := total_set live (some { c with count := c.count - 1 })
    have one : counted (some { c with count := c.count - 1 }) = c.count - 1 := rfl
    omega

variable {refs} {h h' : Heap π} {a : Nat} {c : Cell π} {pending rest : List Nat}

theorem release_nil (h : Heap π) : release refs h [] = some h := by rw [release]

theorem release_cons (live : cell h a = some c) : release refs h (a :: rest) =
    if c.count = 0 then none
    else if c.count = 1 then release refs (h.set a none) (refs c.data ++ rest)
    else release refs (h.set a (some { c with count := c.count - 1 })) rest := by
  rw [release]
  split
  · rename_i freed
    cases live.symm.trans freed
  · rename_i c' live'
    obtain rfl := Option.some.inj (live.symm.trans live')
    rfl

/-- What is live behind a release was live before, with the same data. -/
def Shrinks (h h' : Heap π) : Prop :=
  ∀ a c', cell h' a = some c' → ∃ c, cell h a = some c ∧ c.data = c'.data

theorem Shrinks.trans {h'' : Heap π} (first : Shrinks h h') (second : Shrinks h' h'') :
    Shrinks h h'' := by
  intro a c'' live
  obtain ⟨c', live', same'⟩ := second a c'' live
  obtain ⟨c, live, same⟩ := first a c' live'
  exact ⟨c, live, same.trans same'⟩

theorem shrinks_set (live : cell h a = some c) {x : Option (Cell π)}
    (same : ∀ c' ∈ x, c'.data = c.data) : Shrinks h (h.set a x) := by
  intro b c' live'
  rw [cell_set (lt_of_cell live)] at live'
  split at live'
  · rename_i here
    subst here
    exact ⟨c, live, (same c' live').symm⟩
  · exact ⟨c', live', rfl⟩

theorem release_shrinks (done : release refs h pending = some h') :
    Shrinks h h' ∧ h'.length = h.length := by
  fun_induction release refs h pending with
  | case1 h =>
      obtain rfl := Option.some.inj done
      exact ⟨fun a c live => ⟨c, live, rfl⟩, rfl⟩
  | case2 | case3 => cases done
  | case4 h a rest c live _ _ ih =>
      obtain ⟨shrinks, length⟩ := ih done
      exact ⟨(shrinks_set live fun _ mem => by cases mem).trans shrinks,
        length.trans List.length_set⟩
  | case5 h a rest c live _ _ ih =>
      obtain ⟨shrinks, length⟩ := ih done
      refine ⟨(shrinks_set live ?_).trans shrinks, length.trans List.length_set⟩
      rintro c' ⟨⟩
      rfl

theorem withData_set {d : Nat} {x : π} (other : d ≠ a) (y : Option (Cell π)) :
    (withData h d x).set a y = withData (h.set a y) d x := by
  simp only [withData, cell_set_of_ne y (Ne.symm other)]
  exact List.set_comm _ _ other

/-- A cell that is not freed may carry any data. -/
theorem release_withData {d : Nat} {c' : Cell π} (done : release refs h pending = some h')
    (kept : cell h' d = some c') (x : π) :
    release refs (withData h d x) pending = some (withData h' d x) := by
  fun_induction release refs h pending with
  | case1 h =>
      obtain rfl := Option.some.inj done
      exact release_nil _
  | case2 | case3 => cases done
  | case4 h a rest c live positive one ih =>
      have other : d ≠ a := by
        rintro rfl
        obtain ⟨c'', live'', -⟩ := (release_shrinks done).1 d c' kept
        rw [cell_set_self (lt_of_cell live)] at live''
        cases live''
      have live' : cell (withData h d x) a = some c := by
        rw [withData, cell_set_of_ne _ other, live]
      rw [release_cons live', if_neg positive, if_pos one, withData_set other]
      exact ih done
  | case5 h a rest c live positive more ih =>
      by_cases here : d = a
      · subst here
        have live' : cell (withData h d x) d = some { c with data := x } := by
          rw [withData_eq live, cell_set_self (lt_of_cell live)]
        have same : (withData h d x).set d (some { c with count := c.count - 1, data := x }) =
            withData (h.set d (some { c with count := c.count - 1 })) d x := by
          rw [withData_eq live, List.set_set, withData_eq (cell_set_self (lt_of_cell live) _),
            List.set_set]
        rw [release_cons live', if_neg positive, if_neg more, same]
        exact ih done
      · have live' : cell (withData h d x) a = some c := by
          rw [withData, cell_set_of_ne _ here, live]
        rw [release_cons live', if_neg positive, if_neg more, withData_set here]
        exact ih done

end Release

/-! ## Counts and references -/

section Counted

variable (refs : π → List Nat)

/-- What a place of the heap refers to. -/
def below (c : Option (Cell π)) : List Nat := (c.map fun c => refs c.data).getD []

/-- The references from inside the heap. -/
def held (h : Heap π) : List Nat := h.flatMap (below refs)

structure Counted (h : Heap π) (ext : List Nat) : Prop where
  counts : ∀ a, counted (cell h a) = ext.count a + (held refs h).count a
  positive : ∀ a c, cell h a = some c → 0 < c.count

variable {refs} {h h' : Heap π} {a b : Nat} {c : Cell π} {ext ext' pending : List Nat}

theorem held_set (live : cell h a = some c) (x : Option (Cell π)) (b : Nat) :
    (held refs (h.set a x)).count b + (refs c.data).count b =
      (held refs h).count b + (below refs x).count b := by
  rw [held, held, List.count_flatMap, List.count_flatMap]
  exact sum_map_set (fun c => (below refs c).count b) (getElem?_of_cell live)

theorem mem_held (live : cell h a = some c) (mem : b ∈ refs c.data) : b ∈ held refs h :=
  List.mem_flatMap.mpr ⟨some c, List.mem_of_getElem? (getElem?_of_cell live), mem⟩

theorem refers_of_mem_held (mem : a ∈ held refs h) :
    ∃ b c, cell h b = some c ∧ a ∈ refs c.data := by
  obtain ⟨place, inside, mem⟩ := List.mem_flatMap.mp mem
  obtain ⟨b, found⟩ := List.mem_iff_getElem?.mp inside
  cases place with
  | none => cases mem
  | some c => exact ⟨b, c, by rw [cell, found]; rfl, mem⟩

theorem Counted.live (counted' : Counted refs h ext) (mem : a ∈ ext ∨ a ∈ held refs h) :
    ∃ c, cell h a = some c := by
  have count := counted'.counts a
  cases found : cell h a with
  | some c => exact ⟨c, rfl⟩
  | none =>
      rw [found] at count
      change 0 = _ at count
      rcases mem with mem | mem
      · exact absurd (List.count_pos_iff.mpr mem) (by omega)
      · exact absurd (List.count_pos_iff.mpr mem) (by omega)

/-- Whatever is referred to as often. -/
theorem Counted.congr (counted' : Counted refs h ext) (same : ∀ a, ext'.count a = ext.count a) :
    Counted refs h ext' :=
  ⟨fun a => by rw [same]; exact counted'.counts a, counted'.positive⟩

/-- One place is changed, and what is referred to from outside changes with it. -/
theorem Counted.set (counted' : Counted refs h ext) (live : cell h a = some c)
    {x : Option (Cell π)} (positive : ∀ c' ∈ x, 0 < c'.count)
    (balance : ∀ b, ext.count b + (refs c.data).count b + (if a = b then counted x else 0) =
      ext'.count b + (below refs x).count b + (if a = b then c.count else 0)) :
    Counted refs (h.set a x) ext' := by
  refine ⟨fun b => ?_, fun b c' live' => ?_⟩
  · have before := counted'.counts b
    have inside : (held refs (h.set a x)).count b + (refs c.data).count b =
        (held refs h).count b + (below refs x).count b := held_set live x b
    have change := balance b
    rw [cell_set (lt_of_cell live)]
    split
    · rename_i here
      subst here
      rw [live] at before
      rw [if_pos rfl, if_pos rfl] at change
      change c.count = _ at before
      omega
    · rename_i other
      rw [if_neg other, if_neg other] at change
      omega
  · rw [cell_set (lt_of_cell live)] at live'
    split at live'
    · exact positive c' live'
    · exact counted'.positive b c' live'

/-- **Nothing faults.** -/
theorem release_counted (counted' : Counted refs h (pending ++ ext)) :
    ∃ h', release refs h pending = some h' ∧ Counted refs h' ext := by
  fun_induction release refs h pending with
  | case1 h => exact ⟨h, rfl, counted'⟩
  | case2 h a rest freed =>
      obtain ⟨c, live⟩ := counted'.live (.inl List.mem_cons_self)
      cases freed.symm.trans live
  | case3 h a rest c live zero => exact absurd zero (Nat.ne_of_gt (counted'.positive a c live))
  | case4 h a rest c live positive one ih =>
      refine ih (counted'.set live (fun _ mem => by cases mem) fun b => ?_)
      have empty : (below refs (none : Option (Cell π))).count b = 0 := rfl
      have zero : counted (none : Option (Cell π)) = 0 := rfl
      simp only [List.cons_append, List.append_assoc, List.count_append, List.count_cons, empty,
        zero, beq_iff_eq, one]
      split <;> omega
  | case5 h a rest c live positive more ih =>
      refine ih (counted'.set live ?_ fun b => ?_)
      · rintro c' ⟨⟩
        change 0 < c.count - 1
        omega
      · have less : counted (some { c with count := c.count - 1 }) = c.count - 1 := rfl
        have same : below refs (some { c with count := c.count - 1 }) = refs c.data := rfl
        simp only [List.cons_append, List.count_append, List.count_cons, less, same, beq_iff_eq]
        split <;> omega

theorem retain_counted (counted' : Counted refs h ext) (live : cell h a = some c) :
    retain h a = some (h.set a (some { c with count := c.count + 1 })) ∧
      Counted refs (h.set a (some { c with count := c.count + 1 })) (a :: ext) := by
  refine ⟨?_, counted'.set live ?_ fun b => ?_⟩
  · rw [retain, live]
    exact if_neg (Nat.ne_of_gt (counted'.positive a c live))
  · rintro c' ⟨⟩
    exact Nat.succ_pos _
  · have more : counted (some { c with count := c.count + 1 }) = c.count + 1 := rfl
    have same : below refs (some { c with count := c.count + 1 }) = refs c.data := rfl
    simp only [List.count_cons, more, same, beq_iff_eq]
    split <;> omega

theorem retain_shrinks (done : retain h a = some h') : Shrinks h h' ∧ Shrinks h' h := by
  rw [retain] at done
  split at done
  · cases done
  · rename_i c live
    split at done
    · cases done
    · obtain rfl := Option.some.inj done
      refine ⟨shrinks_set live ?_, fun b c' live' => ?_⟩
      · rintro c' ⟨⟩
        rfl
      · rw [cell_set (lt_of_cell live)]
        split
        · rename_i here
          subst here
          obtain rfl := Option.some.inj (live.symm.trans live')
          exact ⟨_, rfl, rfl⟩
        · exact ⟨c', live', rfl⟩

theorem retain_withData {d : Nat} {c' : Cell π} (done : retain h a = some h')
    (kept : cell h d = some c') (x : π) :
    retain (withData h d x) a = some (withData h' d x) := by
  rw [retain] at done
  split at done
  · cases done
  · rename_i c live
    split at done
    · cases done
    · rename_i positive
      obtain rfl := Option.some.inj done
      by_cases here : d = a
      · subst here
        obtain rfl := Option.some.inj (live.symm.trans kept)
        rw [retain, cell_withData_self live]
        refine (if_neg positive).trans (congrArg some ?_)
        rw [withData_eq live, List.set_set, withData_eq (cell_set_self (lt_of_cell live) _),
          List.set_set]
      · rw [retain, cell_withData_of_ne x here, live]
        exact (if_neg positive).trans (congrArg some (withData_set here _))

theorem Counted.withData (counted' : Counted refs h ext) (live : cell h a = some c) {x : π}
    (balance : ∀ b, ext.count b + (refs c.data).count b = ext'.count b + (refs x).count b) :
    Counted refs (withData h a x) ext' := by
  rw [withData_eq live]
  refine counted'.set live ?_ fun b => ?_
  · rintro c' ⟨⟩
    exact counted'.positive a c live
  · have same : counted (some { c with data := x }) = c.count := rfl
    have data : below refs (some { c with data := x }) = refs x := rfl
    rw [same, data, balance]

theorem cell_append_one (h : Heap π) (x : Option (Cell π)) (a : Nat) :
    cell (h ++ [x]) a = if a = h.length then x else cell h a := by
  rw [cell, cell]
  split
  · rename_i new
    rw [new, List.getElem?_concat_length]
    rfl
  · rename_i old
    rcases Nat.lt_or_gt_of_ne old with inside | outside
    · rw [List.getElem?_append_left inside]
    · rw [List.getElem?_eq_none (by rw [List.length_append]; exact outside),
        List.getElem?_eq_none (Nat.le_of_lt outside)]

/-- A new cell takes over the references its data is made of. -/
theorem Counted.alloc {x : π} (counted' : Counted refs h (refs x ++ ext)) :
    Counted refs (h ++ [some ⟨1, x⟩]) (h.length :: ext) := by
  have outside : cell h h.length = none := by rw [cell, List.getElem?_eq_none (Nat.le_refl _)]; rfl
  have inside : held refs (h ++ [some ⟨1, x⟩]) = held refs h ++ refs x := by
    rw [held, held, List.flatMap_append]
    exact congrArg (_ ++ ·) (List.append_nil _)
  refine ⟨fun b => ?_, fun b c live => ?_⟩
  · have before := counted'.counts b
    rw [inside, cell_append_one]
    rw [List.count_append] at before ⊢
    rw [List.count_cons]
    by_cases new : b = h.length
    · subst new
      rw [outside] at before
      change 0 = _ at before
      rw [if_pos rfl, if_pos (beq_self_eq_true _)]
      change 1 = _
      omega
    · rw [if_neg new, if_neg (by simpa using Ne.symm new)]
      omega
  · rw [cell_append_one] at live
    split at live
    · obtain rfl := Option.some.inj live
      exact Nat.one_pos
    · exact counted'.positive b c live

end Counted

/-! ## Reachable cells -/

section Reach

variable (refs : π → List Nat)

def Refers (h : Heap π) (b a : Nat) : Prop := ∃ c, cell h b = some c ∧ a ∈ refs c.data

/-- What can be reached from outside. -/
def Reached (h : Heap π) (ext : List Nat) (a : Nat) : Prop :=
  ∃ r ∈ ext, ReflTransGen (Refers refs h) r a

def Acyclic (h : Heap π) : Prop := ∀ a, ¬ TransGen (Refers refs h) a a

variable {refs} {h h' : Heap π} {a b : Nat} {c : Cell π} {ext pending : List Nat}

theorem Shrinks.refers (shrinks : Shrinks h h') (refers : Refers refs h' b a) :
    Refers refs h b a := by
  obtain ⟨c', live', mem⟩ := refers
  obtain ⟨c, live, same⟩ := shrinks b c' live'
  exact ⟨c, live, same ▸ mem⟩

theorem Acyclic.mono (acyclic : Acyclic refs h)
    (fewer : ∀ b a, Refers refs h' b a → Refers refs h b a) : Acyclic refs h' :=
  fun a cycle => acyclic a (TransGen.mono fewer a a cycle)

/-- Without cycles what holds of a cell as soon as it holds of all it refers to holds of
every cell. -/
theorem Acyclic.induction {P : Nat → Prop} (acyclic : Acyclic refs h)
    (step : ∀ a, (∀ b, Refers refs h a b → P b) → P a) (a : Nat) : P a := by
  let later (i j : Fin h.length) : Prop := TransGen (Refers refs h) j i
  have wellFounded : WellFounded later := by
    have : IsTrans (Fin h.length) later := ⟨fun _ _ _ first second => second.trans first⟩
    have : Std.Irrefl later := ⟨fun i => acyclic i⟩
    exact Finite.wellFounded_of_trans_of_irrefl later
  have inside : ∀ i : Fin h.length, P i := by
    intro i
    induction i using wellFounded.induction with
    | _ i ih =>
        refine step i fun b edge => ?_
        by_cases there : b < h.length
        · exact ih ⟨b, there⟩ (.single edge)
        · exact step b fun _ ⟨_, live, _⟩ => absurd (lt_of_cell live) there
  by_cases there : a < h.length
  · exact inside ⟨a, there⟩
  · exact step a fun _ ⟨_, live, _⟩ => absurd (lt_of_cell live) there

theorem Reached.mono (reached : Reached refs h' ext a)
    (fewer : ∀ b a, Refers refs h' b a → Refers refs h b a) : Reached refs h ext a := by
  obtain ⟨r, mem, path⟩ := reached
  exact ⟨r, mem, ReflTransGen.mono fewer r a path⟩

theorem Counted.live_of_reached (counted' : Counted refs h ext) (reached : Reached refs h ext a) :
    ∃ c, cell h a = some c := by
  obtain ⟨r, mem, path⟩ := reached
  cases path with
  | refl => exact counted'.live (.inl mem)
  | tail _ last =>
      obtain ⟨c, live, inside⟩ := last
      exact counted'.live (.inr (mem_held live inside))

/-- **Without cycles what is live can be reached**: going back from reference to reference
ends, and it ends outside. -/
theorem live_iff (counted' : Counted refs h ext) (acyclic : Acyclic refs h) :
    (∃ c, cell h a = some c) ↔ Reached refs h ext a := by
  refine ⟨fun live => ?_, counted'.live_of_reached⟩
  let earlier (i j : Fin h.length) : Prop := TransGen (Refers refs h) i j
  have wellFounded : WellFounded earlier := by
    have : IsTrans (Fin h.length) earlier := ⟨fun _ _ _ first second => first.trans second⟩
    have : Std.Irrefl earlier := ⟨fun i => acyclic i⟩
    exact Finite.wellFounded_of_trans_of_irrefl earlier
  obtain ⟨c, found⟩ := live
  have inside := lt_of_cell found
  suffices all : ∀ i : Fin h.length, (∃ c, cell h i = some c) → Reached refs h ext i from
    all ⟨a, inside⟩ ⟨c, found⟩
  intro i
  induction i using wellFounded.induction with
  | _ i ih =>
      rintro ⟨c, live⟩
      have positive := counted'.positive i c live
      have count := counted'.counts i
      rw [live] at count
      change c.count = _ at count
      by_cases outside : (i : Nat) ∈ ext
      · exact ⟨i, outside, .refl⟩
      · have none := List.count_eq_zero.mpr outside
        have inner : (i : Nat) ∈ held refs h := List.count_pos_iff.mp (by omega)
        obtain ⟨b, c', live', mem⟩ := refers_of_mem_held inner
        obtain ⟨r, root, path⟩ := ih ⟨b, lt_of_cell live'⟩ (.single ⟨c', live', mem⟩) ⟨c', live'⟩
        exact ⟨r, root, path.tail ⟨c', live', mem⟩⟩

/-- **What the last reference from outside leaves behind**: nothing, unless there are cycles. -/
theorem empty_iff (counted' : Counted refs h []) :
    (∀ a, cell h a = none) ↔ Acyclic refs h := by
  refine ⟨fun empty a cycle => ?_, fun acyclic a => ?_⟩
  · obtain ⟨b, ⟨c, live, -⟩, -⟩ := TransGen.head'_iff.mp cycle
    cases (empty a).symm.trans live
  · cases live : cell h a with
    | none => rfl
    | some c =>
        obtain ⟨r, mem, -⟩ := (live_iff counted' acyclic).mp ⟨c, live⟩
        cases mem

/-- A release leaves alone what can be reached without what it gives up. -/
theorem live_of_release (counted' : Counted refs h' ext) (shrinks : Shrinks h h')
    (reached : Reached refs h ext a) : ∃ c, cell h' a = some c := by
  obtain ⟨r, mem, path⟩ := reached
  induction path with
  | refl => exact counted'.live (.inl mem)
  | tail _ last ih =>
      obtain ⟨c', live'⟩ := ih
      obtain ⟨c, live, inside⟩ := last
      obtain ⟨c'', live'', same⟩ := shrinks _ c' live'
      obtain rfl := Option.some.inj (live.symm.trans live'')
      exact counted'.live (.inr (mem_held live' (same ▸ inside)))

/-- Without cycles it frees all the rest. -/
theorem release_live_iff (acyclic : Acyclic refs h) (done : release refs h pending = some h')
    (counted' : Counted refs h' ext) : (∃ c, cell h' a = some c) ↔ Reached refs h ext a := by
  have shrinks := (release_shrinks done).1
  refine ⟨fun live => ?_, live_of_release counted' shrinks⟩
  have fewer : ∀ b a, Refers refs h' b a → Refers refs h b a := fun _ _ => shrinks.refers
  exact ((live_iff counted' (acyclic.mono fewer)).mp live).mono fewer

/-- Edges out of one node that none of their ends reaches close no cycle. -/
theorem acyclic_insert {α : Type} {R R' : α → α → Prop} {d : α} {new : α → Prop}
    (edges : ∀ b a, R' b a → R b a ∨ b = d ∧ new a) (away : ∀ a, new a → ¬ ReflTransGen R a d)
    (acyclic : ∀ a, ¬ TransGen R a a) (a : α) : ¬ TransGen R' a a := by
  have paths : ∀ x y, TransGen R' x y →
      TransGen R x y ∨ ReflTransGen R x d ∧ ∃ n, new n ∧ ReflTransGen R n y := by
    intro x y path
    induction path with
    | single edge =>
        rcases edges _ _ edge with old | ⟨rfl, first⟩
        · exact .inl (.single old)
        · exact .inr ⟨.refl, _, first, .refl⟩
    | tail _ edge ih =>
        rcases edges _ _ edge with old | ⟨rfl, first⟩
        · rcases ih with path | ⟨before, n, mem, path⟩
          · exact .inl (path.tail old)
          · exact .inr ⟨before, n, mem, path.tail old⟩
        · rcases ih with path | ⟨-, n, mem, path⟩
          · exact .inr ⟨path.to_reflTransGen, _, first, .refl⟩
          · exact absurd path (away n mem)
  intro cycle
  rcases paths a a cycle with old | ⟨before, n, mem, after⟩
  · exact acyclic a old
  · exact away n mem (after.trans before)

end Reach

end LaliRpc.Theory.RefCount
