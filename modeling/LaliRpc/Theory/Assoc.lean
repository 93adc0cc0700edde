/-
# Theory.Assoc — association lists and tables

When a list of keys is exactly a given set of names, by counting alone
(`length_eq_iff_subset`); what `List.lookup` finds, under distinct keys and
without; and `Table`, the association list whose keys are distinct by
construction.
-/
import Mathlib.Data.List.Perm.Subperm
import Mathlib.Data.List.Nodup

namespace LaliRpc.Theory

set_option autoImplicit false

/-! ## Exactly the given names -/

section Counting

variable {K : Type} {names keys : List K}

/-- As many keys as there are distinct names among them: they are the names. -/
theorem perm_of_length_eq (distinct : names.Nodup) (found : names ⊆ keys)
    (count : keys.length = names.length) : keys.Perm names :=
  ((List.subperm_of_subset distinct found).perm_of_length_le (Nat.le_of_eq count)).symm

/-- Distinct keys that contain the distinct names contain nothing else exactly
when there are no more of them. -/
theorem length_eq_iff_subset (distinct : names.Nodup) (distinctKeys : keys.Nodup)
    (found : names ⊆ keys) : keys.length = names.length ↔ keys ⊆ names := by
  constructor
  · intro count
    exact (perm_of_length_eq distinct found count).subset
  · intro only
    exact Nat.le_antisymm (List.subperm_of_subset distinctKeys only).length_le
      (List.subperm_of_subset distinct found).length_le

end Counting

variable {K V : Type} [BEq K] [LawfulBEq K]

/-! ## Lookup -/

section Lookup

variable {members : List (K × V)} {key : K} {v : V}

theorem lookup_cons_of_ne {k : K} (ne : key ≠ k) (v : V) (members : List (K × V)) :
    ((k, v) :: members).lookup key = members.lookup key := by
  rw [List.lookup_cons, beq_eq_false_iff_ne.mpr ne]

theorem lookup_eq_none_iff : members.lookup key = none ↔ key ∉ members.map Prod.fst := by
  induction members with
  | nil => simp
  | cons m members ih =>
      obtain ⟨k, v⟩ := m
      by_cases h : key = k
      · simp [h]
      · simp [lookup_cons_of_ne h, h, ih]

theorem mem_of_lookup (h : members.lookup key = some v) : (key, v) ∈ members := by
  induction members with
  | nil => simp at h
  | cons m members ih =>
      obtain ⟨k, w⟩ := m
      by_cases hk : key = k
      · subst hk
        obtain rfl : w = v := by simpa using h
        simp
      · rw [lookup_cons_of_ne hk] at h
        exact List.mem_cons_of_mem _ (ih h)

theorem mem_keys_of_lookup (h : members.lookup key = some v) : key ∈ members.map Prod.fst :=
  List.mem_map.mpr ⟨_, mem_of_lookup h, rfl⟩

/-- Under distinct keys a member is found under its key. -/
theorem lookup_of_mem (distinct : (members.map Prod.fst).Nodup) (h : (key, v) ∈ members) :
    members.lookup key = some v := by
  induction members with
  | nil => simp at h
  | cons m members ih =>
      obtain ⟨k, w⟩ := m
      rw [List.map_cons, List.nodup_cons] at distinct
      by_cases hk : key = k
      · subst hk
        rcases List.mem_cons.mp h with same | later
        · obtain rfl : v = w := congrArg Prod.snd same
          exact List.lookup_cons_self
        · exact absurd (List.mem_map.mpr ⟨_, later, rfl⟩) distinct.1
      · rcases List.mem_cons.mp h with same | later
        · exact absurd (congrArg Prod.fst same) hk
        · rw [lookup_cons_of_ne hk]
          exact ih distinct.2 later

omit [LawfulBEq K] in
theorem lookup_map_snd {W : Type} (f : V → W) (members : List (K × V)) (key : K) :
    (members.map fun m => (m.1, f m.2)).lookup key = (members.lookup key).map f := by
  induction members with
  | nil => rfl
  | cons m members ih =>
      obtain ⟨k, v⟩ := m
      simp only [List.map_cons, List.lookup_cons, ih]
      split <;> rfl

end Lookup

/-! ## Tables -/

/-- An association list with distinct keys. -/
structure Table (K V : Type) where
  entries : List (K × V)
  distinct : (entries.map Prod.fst).Nodup

namespace Table

def empty : Table K V := ⟨[], List.nodup_nil⟩

def find (t : Table K V) (key : K) : Option V := t.entries.lookup key

/-- Add an entry under a new key; under a key that is present, nothing happens. -/
def emplace (t : Table K V) (key : K) (v : V) : Table K V :=
  if new : key ∈ t.entries.map Prod.fst then t
  else ⟨(key, v) :: t.entries, List.nodup_cons.mpr ⟨new, t.distinct⟩⟩

/-- `operator[]` assigned to: the entry under the key is replaced or added. -/
def assign (t : Table K V) (key : K) (v : V) : Table K V where
  entries := (key, v) :: t.entries.filter fun e => !(e.1 == key)
  distinct := by
    refine List.nodup_cons.mpr ⟨fun again => ?_, t.distinct.sublist (List.filter_sublist.map _)⟩
    obtain ⟨e, mem, same⟩ := List.mem_map.mp again
    have other := (List.mem_filter.mp mem).2
    simp [same] at other

def erase (t : Table K V) (key : K) : Table K V where
  entries := t.entries.filter fun e => !(e.1 == key)
  distinct := t.distinct.sublist (List.filter_sublist.map _)

def keys (t : Table K V) : List K := t.entries.map Prod.fst

def size (t : Table K V) : Nat := t.entries.length

omit [LawfulBEq K] in
@[simp] theorem find_empty (key : K) : (empty : Table K V).find key = none := rfl

theorem mem_keys_iff {t : Table K V} {key : K} : key ∈ t.keys ↔ ∃ v, t.find key = some v := by
  rw [← Option.isSome_iff_exists, Option.isSome_iff_ne_none, keys, find, Ne,
    lookup_eq_none_iff, not_not]

theorem find_erase_self (t : Table K V) (key : K) : (t.erase key).find key = none := by
  refine lookup_eq_none_iff.mpr fun mem => ?_
  obtain ⟨e, kept, same⟩ := List.mem_map.mp mem
  have other := (List.mem_filter.mp kept).2
  simp [same] at other

theorem find_erase_of_ne {key key' : K} (ne : key' ≠ key) (t : Table K V) :
    (t.erase key).find key' = t.find key' := by
  show (t.entries.filter fun e => !(e.1 == key)).lookup key' = t.entries.lookup key'
  induction t.entries with
  | nil => rfl
  | cons e entries ih =>
      obtain ⟨k, v⟩ := e
      by_cases same : k = key
      · subst same
        rw [List.filter_cons_of_neg (by simp), lookup_cons_of_ne ne, ih]
      · rw [List.filter_cons_of_pos (by simpa using same), List.lookup_cons, List.lookup_cons, ih]

theorem find_assign_self (t : Table K V) (key : K) (v : V) :
    (t.assign key v).find key = some v := List.lookup_cons_self

theorem find_assign_of_ne {key key' : K} (ne : key' ≠ key) (t : Table K V) (v : V) :
    (t.assign key v).find key' = t.find key' :=
  (lookup_cons_of_ne ne v _).trans (find_erase_of_ne ne t)

theorem find_emplace_of_ne {t : Table K V} {key key' : K} (ne : key' ≠ key) (v : V) :
    (t.emplace key v).find key' = t.find key' := by
  unfold emplace
  split
  · rfl
  · exact lookup_cons_of_ne ne v t.entries

/-- Entries added one after another. -/
def emplaceAll (t : Table K V) (entries : List (K × V)) : Table K V :=
  entries.foldl (fun t e => t.emplace e.1 e.2) t

/-- Entries assigned one after another. -/
def assignAll (t : Table K V) (entries : List (K × V)) : Table K V :=
  entries.foldl (fun t e => t.assign e.1 e.2) t

/-- The last entry under a key is the one that is kept. -/
theorem find_assignAll (t : Table K V) (entries : List (K × V)) (key : K) :
    (t.assignAll entries).find key = (entries.reverse.lookup key).or (t.find key) := by
  induction entries generalizing t with
  | nil => rfl
  | cons e entries ih =>
      obtain ⟨k, v⟩ := e
      have first : t.assignAll ((k, v) :: entries) = (t.assign k v).assignAll entries := rfl
      rw [first, ih, List.reverse_cons, List.lookup_append, Option.or_assoc]
      congr 1
      by_cases same : key = k
      · subst same
        rw [find_assign_self, List.lookup_cons_self, Option.some_or]
      · rw [find_assign_of_ne same, lookup_cons_of_ne same, List.lookup_nil, Option.none_or]

end Table

end LaliRpc.Theory
