/-
# Theory.Substitution — templates, and filling them by search and replace

A template is text with holes, and to fill it is to put a text into every hole at
once (`fill`). Programs often do it otherwise: the template is spelled out as one
text, with a word for each hole, and every word is searched for and replaced, one
after the other. `replaceAll` is such a loop that searches from the beginning again
after each replacement. It is given the number of searches it may make.

When the two agree:

* a word without borders that does not occur in the filled text is replaced in
  exactly the holes it is the word of (`replaceAll_fill`), so a sequence of loops
  is one substitution (`replaceEach_fill`);
* a word that occurs in its own replacement is replaced for ever
  (`replaceAll_diverges`), so what comes out tells of what was put in
  (`replaceEach_shows`);
* a word occurs in a filled text only inside one of its pieces, if at every border
  of two pieces stands a letter that no word has (`free_fill`);
* the loops go through the two sides of such a letter as if each was a text of its
  own (`replaceEach_across`).
-/
import LaliRpc.Theory.Assoc
import Mathlib.Data.List.Infix
import Mathlib.Data.List.Basic
import Mathlib.Logic.Function.Basic

namespace LaliRpc.Theory.Substitution

set_option autoImplicit false

variable {α : Type}

/-! ## Occurrences -/

/-- The word does not occur in the text. -/
def Free (u s : List α) : Prop := ¬ u <:+: s

theorem free_nil {u : List α} (nonempty : u ≠ []) : Free u [] := by
  intro occurs
  exact nonempty (List.infix_nil.mp occurs)

theorem Free.left {u a b : List α} (free : Free u (a ++ b)) : Free u a :=
  fun occurs => free (List.infix_append_of_infix_left occurs)

/-- A prefix without the letter lies in front of it. -/
theorem prefix_of_prefix_cons {u a b : List α} {c : α} (foreign : c ∉ u)
    (starts : u <+: a ++ c :: b) : u <+: a := by
  induction a generalizing u with
  | nil =>
      cases u with
      | nil => exact List.nil_prefix
      | cons d u =>
          obtain ⟨rfl, -⟩ := List.cons_prefix_cons.mp starts
          exact absurd List.mem_cons_self foreign
  | cons d a ih =>
      cases u with
      | nil => exact List.nil_prefix
      | cons e u =>
          obtain ⟨rfl, rest⟩ := List.cons_prefix_cons.mp starts
          exact List.cons_prefix_cons.mpr
            ⟨rfl, ih (fun mem => foreign (List.mem_cons_of_mem _ mem)) rest⟩

/-- A word without the letter occurs on one of its sides. -/
theorem infix_append_cons {u a b : List α} {c : α} (foreign : c ∉ u)
    (occurs : u <:+: a ++ c :: b) : u <:+: a ∨ u <:+: b := by
  induction a with
  | nil =>
      rcases List.infix_cons_iff.mp occurs with starts | later
      · have inside : u <+: [] := prefix_of_prefix_cons foreign starts
        exact .inl inside.isInfix
      · exact .inr later
  | cons d a ih =>
      rcases List.infix_cons_iff.mp occurs with starts | later
      · have inside : u <+: d :: a := prefix_of_prefix_cons foreign starts
        exact .inl inside.isInfix
      · rcases ih later with left | right
        · exact .inl (List.infix_cons left)
        · exact .inr right

theorem free_append_cons {u a b : List α} {c : α} (foreign : c ∉ u) (left : Free u a)
    (right : Free u b) : Free u (a ++ c :: b) := by
  intro occurs
  rcases infix_append_cons foreign occurs with inLeft | inRight
  · exact left inLeft
  · exact right inRight

/-! ## Words in brackets -/

/-- No proper beginning of the word is also an end of it. -/
def Unbordered (u : List α) : Prop := ∀ x, x <:+ u → x <+: u → x = [] ∨ x = u

/-- A word that ends where its bracket closes has no border. -/
theorem unbordered_brackets {o c : α} {w : List α} (ne : c ≠ o) (inside : c ∉ w) :
    Unbordered (o :: w ++ [c]) := by
  intro x ends starts
  rcases List.prefix_concat_iff.mp starts with whole | early
  · exact .inr whole
  · left
    rcases List.suffix_concat_iff.mp ends with empty | ⟨t, rfl, -⟩
    · exact empty
    · have closed : c ∈ o :: w := early.subset (List.mem_append_right t List.mem_cons_self)
      rcases List.mem_cons.mp closed with same | mem
      · exact absurd same ne
      · exact absurd mem inside

/-- Brackets without brackets in them are found in no others. -/
theorem infix_brackets {o c : α} {w v : List α} (ne : c ≠ o) (noOpen : o ∉ v) (noClose : c ∉ v)
    (occurs : o :: w ++ [c] <:+: o :: v ++ [c]) : w = v := by
  rcases List.infix_cons_iff.mp occurs with starts | later
  · obtain ⟨-, starts⟩ := List.cons_prefix_cons.mp starts
    rcases List.prefix_concat_iff.mp starts with same | early
    · exact List.append_cancel_right same
    · exact absurd (early.subset (List.mem_append_right w List.mem_cons_self)) noClose
  · have opened : o ∈ v ++ [c] := later.subset List.mem_cons_self
    rcases List.mem_append.mp opened with mem | last
    · exact absurd mem noOpen
    · exact absurd (List.mem_singleton.mp last).symm ne

/-- They do not overlap either. -/
theorem separate_brackets {o c : α} {w v x : List α} (ne : c ≠ o) (openW : o ∉ w) (openV : o ∉ v)
    (closeV : c ∉ v) (different : w ≠ v) (ends : x <:+ o :: w ++ [c])
    (starts : x <+: o :: v ++ [c]) : x = [] := by
  cases x with
  | nil => rfl
  | cons d x =>
      obtain ⟨rfl, -⟩ := List.cons_prefix_cons.mp starts
      rcases List.suffix_cons_iff.mp ends with whole | later
      · rw [whole] at starts
        exact absurd (infix_brackets ne openV closeV starts.isInfix) different
      · have opened : d ∈ w ++ [c] := later.subset List.mem_cons_self
        rcases List.mem_append.mp opened with mem | last
        · exact absurd mem openW
        · exact absurd (List.mem_singleton.mp last).symm ne

/-- Of a word that does not overlap another one, an occurrence is in front of the
other or behind it. -/
theorem infix_append_word {u w a b : List α} (apart : Free u w) (apart' : Free w u)
    (separate : ∀ x, x <:+ u → x <+: w → x = []) (separate' : ∀ x, x <:+ w → x <+: u → x = [])
    (occurs : w <:+: a ++ u ++ b) : w <:+: a ∨ w <:+: b := by
  obtain ⟨x, y, same⟩ := occurs
  rw [List.append_assoc, List.append_assoc] at same
  rcases List.append_eq_append_iff.mp same with ⟨c, rfl, inner⟩ | ⟨c, rfl, inner⟩
  · -- the word begins in front of the other one
    rcases List.append_eq_append_iff.mp inner with ⟨d, rfl, -⟩ | ⟨d, rfl, cut⟩
    · exact .inl ⟨x, d, List.append_assoc x w d⟩
    · rcases List.append_eq_append_iff.mp cut with ⟨e, rfl, -⟩ | ⟨e, rfl, -⟩
      · exact absurd ⟨c, e, List.append_assoc c u e⟩ apart
      · obtain rfl := separate' d (List.suffix_append _ _) (List.prefix_append _ _)
        exact .inl ⟨x, [], by simp⟩
  · rcases List.append_eq_append_iff.mp inner with ⟨d, rfl, rfl⟩ | ⟨d, rfl, cut⟩
    · exact .inr ⟨d, y, List.append_assoc d w y⟩
    · rcases List.append_eq_append_iff.mp cut with ⟨e, rfl, -⟩ | ⟨e, rfl, rfl⟩
      · exact absurd ⟨c, e, List.append_assoc c w e⟩ apart'
      · obtain rfl := separate d (List.suffix_append _ _) (List.prefix_append _ _)
        exact .inr ⟨[], y, by simp⟩

/-- No `o` of the text has one of the letters directly behind it. -/
def noOpening [DecidableEq α] (o : α) (ds : List α) : List α → Bool
  | a :: b :: s => (a ≠ o || b ∉ ds) && noOpening o ds (b :: s)
  | _ => true

theorem free_of_noOpening [DecidableEq α] {o d : α} {ds w : List α} (mem : d ∈ ds) :
    ∀ {s : List α}, noOpening o ds s = true → Free (o :: d :: w) s
  | [], _ => free_nil (List.cons_ne_nil _ _)
  | [a], _ => by
      intro occurs
      have short := occurs.length_le
      simp only [List.length_cons, List.length_nil] at short
      omega
  | a :: b :: s, clear => by
      obtain ⟨first, rest⟩ := Bool.and_eq_true_iff.mp clear
      intro occurs
      rcases List.infix_cons_iff.mp occurs with starts | later
      · obtain ⟨rfl, second⟩ := List.cons_prefix_cons.mp starts
        obtain ⟨rfl, -⟩ := List.cons_prefix_cons.mp second
        simp [mem] at first
      · exact free_of_noOpening mem rest later

/-! ## Templates -/

inductive Piece (α η : Type) where
  | text (s : List α)
  | hole (h : η)

abbrev Template (α η : Type) := List (Piece α η)

namespace Piece

variable {η : Type}

def fill (g : η → List α) : Piece α η → List α
  | text s => s
  | hole h => g h

end Piece

section Fill

variable {η : Type}

/-- All holes filled at once. -/
def fill (g : η → List α) (T : Template α η) : List α := T.flatMap (Piece.fill g)

@[simp] theorem fill_nil (g : η → List α) : fill g ([] : Template α η) = [] := rfl

@[simp] theorem fill_text (g : η → List α) (s : List α) (T : Template α η) :
    fill g (.text s :: T) = s ++ fill g T := rfl

@[simp] theorem fill_hole (g : η → List α) (h : η) (T : Template α η) :
    fill g (.hole h :: T) = g h ++ fill g T := rfl

theorem fill_congr {g g' : η → List α} {T : Template α η}
    (same : ∀ h, Piece.hole h ∈ T → g h = g' h) : fill g T = fill g' T := by
  induction T with
  | nil => rfl
  | cons piece T ih =>
      have rest := ih fun h mem => same h (List.mem_cons_of_mem _ mem)
      cases piece with
      | text s => rw [fill_text, fill_text, rest]
      | hole h => rw [fill_hole, fill_hole, rest, same h List.mem_cons_self]

/-- What stands in a hole stands in the text. -/
theorem infix_fill {g : η → List α} {T : Template α η} {h : η} (mem : Piece.hole h ∈ T) :
    g h <:+: fill g T := by
  obtain ⟨before, behind, rfl⟩ := List.append_of_mem mem
  refine ⟨fill g before, fill g behind, ?_⟩
  simp [fill, Piece.fill]

end Fill

/-! ## Fences -/

/-- At the border of the two texts stands a letter that is a fence. -/
def Border (fence : α → Bool) (a b : List α) : Prop :=
  a.getLast?.any fence = true ∨ b.head?.any fence = true

/-- A word without fences does not occur across a border. -/
theorem free_append {fence : α → Bool} {u a b : List α} (foreign : ∀ c ∈ u, fence c = false)
    (border : Border fence a b) (left : Free u a) (right : Free u b) : Free u (a ++ b) := by
  have outside : ∀ {c : α}, fence c = true → c ∉ u := by
    intro c isFence mem
    rw [foreign c mem] at isFence
    cases isFence
  rcases border with closes | opens
  · obtain ⟨c, last, isFence⟩ := (Option.any_eq_true _ _).mp closes
    obtain ⟨front, rfl⟩ := List.getLast?_eq_some_iff.mp last
    rw [List.append_assoc]
    exact free_append_cons (outside isFence) left.left right
  · obtain ⟨c, first, isFence⟩ := (Option.any_eq_true _ _).mp opens
    obtain ⟨rest, rfl⟩ := List.head?_eq_some_iff.mp first
    exact free_append_cons (outside isFence) left fun occurs => right (List.infix_cons occurs)

section Fenced

variable {η : Type} (fence : α → Bool)

def Piece.closes : Piece α η → Bool
  | text s => s.getLast?.any fence
  | hole _ => false

def Piece.opens : Piece α η → Bool
  | text s => s.head?.any fence
  | hole _ => false

/-- Of two pieces side by side, the first ends with a fence or the second begins
with one. -/
def fenced : Template α η → Bool
  | [] => true
  | [_] => true
  | p :: q :: T => (p.closes fence || q.opens fence) && fenced (q :: T)

variable {fence}

/-- **A word without fences occurs in a filled template only inside a piece.** -/
theorem free_fill {u : List α} (foreign : ∀ c ∈ u, fence c = false) (nonempty : u ≠ [])
    (g : η → List α) : ∀ {T : Template α η}, fenced fence T = true →
      (∀ s, Piece.text s ∈ T → Free u s) → (∀ h, Piece.hole h ∈ T → Free u (g h)) →
      Free u (fill g T)
  | [], _, _, _ => free_nil nonempty
  | [.text s], _, texts, _ => by
      rw [fill_text, fill_nil, List.append_nil]
      exact texts s List.mem_cons_self
  | [.hole h], _, _, holes => by
      rw [fill_hole, fill_nil, List.append_nil]
      exact holes h List.mem_cons_self
  | p :: q :: T, chain, texts, holes => by
      obtain ⟨apart, chain⟩ := Bool.and_eq_true_iff.mp chain
      have rest : Free u (fill g (q :: T)) := by
        apply free_fill foreign nonempty g chain
        · exact fun s mem => texts s (List.mem_cons_of_mem _ mem)
        · exact fun h mem => holes h (List.mem_cons_of_mem _ mem)
      have first : Free u (p.fill g) := by
        cases p with
        | text s => exact texts s List.mem_cons_self
        | hole h => exact holes h List.mem_cons_self
      refine free_append foreign ?_ first rest
      rcases Bool.or_eq_true_iff.mp apart with closes | opens
      · cases p with
        | text s => exact .inl closes
        | hole h => cases closes
      · cases q with
        | text s =>
            right
            obtain ⟨c, first, isFence⟩ := (Option.any_eq_true _ _).mp opens
            obtain ⟨s, rfl⟩ := List.head?_eq_some_iff.mp first
            exact isFence
        | hole h => cases opens

end Fenced

variable [DecidableEq α]

/-! ## Search -/

/-- `find`: the offset of the first occurrence. -/
def find (u : List α) : List α → Option Nat
  | [] => if u = [] then some 0 else none
  | c :: s => if u <+: c :: s then some 0 else (find u s).map (· + 1)

theorem find_eq_none_iff {u s : List α} : find u s = none ↔ Free u s := by
  induction s with
  | nil =>
      by_cases empty : u = []
      · simp [find, Free, empty]
      · simp [find, Free, empty]
  | cons c s ih =>
      by_cases starts : u <+: c :: s
      · simp [find, Free, starts, starts.isInfix]
      · rw [find, if_neg starts, Option.map_eq_none_iff, ih, Free, Free, List.infix_cons_iff]
        simp [starts]

theorem find_eq_some {u : List α} : ∀ {s : List α} {i : Nat}, find u s = some i →
    ∃ a b, s = a ++ u ++ b ∧ a.length = i
  | [], i, found => by
      by_cases empty : u = []
      · rw [find, if_pos empty] at found
        obtain rfl := Option.some.inj found
        exact ⟨[], [], by rw [empty]; rfl, rfl⟩
      · rw [find, if_neg empty] at found
        cases found
  | c :: s, i, found => by
      by_cases starts : u <+: c :: s
      · rw [find, if_pos starts] at found
        obtain rfl := Option.some.inj found
        obtain ⟨b, split⟩ := starts
        exact ⟨[], b, split.symm, rfl⟩
      · rw [find, if_neg starts] at found
        obtain ⟨j, later, rfl⟩ := Option.map_eq_some_iff.mp found
        obtain ⟨a, b, rfl, rfl⟩ := find_eq_some later
        exact ⟨c :: a, b, rfl, rfl⟩

/-- A word without borders is found where it stands, if it does not occur in front. -/
theorem find_append {u : List α} (unbordered : Unbordered u) (nonempty : u ≠ []) :
    ∀ {a : List α}, Free u a → ∀ b : List α, find u (a ++ u ++ b) = some a.length
  | [], _, b => by
      obtain ⟨c, w, rfl⟩ := List.exists_cons_of_ne_nil nonempty
      show find (c :: w) (c :: (w ++ b)) = some 0
      rw [find, if_pos ⟨b, rfl⟩]
  | c :: a, free, b => by
      have notHere : ¬ u <+: c :: (a ++ u ++ b) := by
        intro starts
        have starts : u <+: (c :: a) ++ (u ++ b) := by
          rw [List.cons_append, ← List.append_assoc]
          exact starts
        have here : c :: a <+: (c :: a) ++ (u ++ b) := List.prefix_append _ _
        rcases List.prefix_or_prefix_of_prefix starts here with inside | ⟨x, rfl⟩
        · exact free inside.isInfix
        · have ahead := (List.prefix_append_right_inj (c :: a)).mp starts
          have border : x <+: c :: a ++ x := by
            apply List.prefix_of_prefix_length_le ahead (List.prefix_append _ _)
            rw [List.length_append]
            omega
          rcases unbordered x (List.suffix_append _ _) border with rfl | same
          · rw [List.append_nil] at free
            exact free List.infix_rfl
          · have lengths := congrArg List.length same
            rw [List.length_append, List.length_cons] at lengths
            omega
      have rest := find_append unbordered nonempty
        (fun occurs => free (List.infix_cons occurs)) b
      rw [List.cons_append, List.cons_append, find, if_neg notHere, rest]
      rfl

/-! ## Replacement -/

/-- `replaceAll`, which makes at most so many searches; `none` if that was not
enough. Every search begins at the front. -/
def replaceAll (u v : List α) : Nat → List α → Option (List α)
  | 0, _ => none
  | n + 1, s =>
      match find u s with
      | none => some s
      | some i => replaceAll u v n (s.take i ++ v ++ s.drop (i + u.length))

theorem replaceAll_free {u s : List α} (free : Free u s) (v : List α) (n : Nat) :
    replaceAll u v (n + 1) s = some s := by
  rw [replaceAll, find_eq_none_iff.mpr free]

/-- One replacement, where the word stands for the first time. -/
theorem replaceAll_step {u a : List α} (unbordered : Unbordered u) (nonempty : u ≠ [])
    (free : Free u a) (v b : List α) (n : Nat) :
    replaceAll u v (n + 1) (a ++ u ++ b) = replaceAll u v n (a ++ v ++ b) := by
  rw [replaceAll, find_append unbordered nonempty free]
  dsimp only
  rw [← List.length_append, List.drop_left, List.append_assoc a u b, List.take_left]

theorem replaceAll_mono {u v : List α} : ∀ {n m : Nat} {s t : List α}, n ≤ m →
    replaceAll u v n s = some t → replaceAll u v m s = some t
  | n + 1, m + 1, s, t, le, done => by
      rw [replaceAll] at done ⊢
      cases found : find u s with
      | none =>
          rw [found] at done
          exact done
      | some i =>
          rw [found] at done
          exact replaceAll_mono (Nat.le_of_succ_le_succ le) done

/-- A word that occurs in its own replacement is never used up. -/
theorem replaceAll_diverges {u v : List α} (inside : u <:+: v) :
    ∀ (n : Nat) {s : List α}, u <:+: s → replaceAll u v n s = none
  | 0, _, _ => rfl
  | n + 1, s, occurs => by
      rw [replaceAll]
      cases found : find u s with
      | none => exact absurd occurs (find_eq_none_iff.mp found)
      | some i =>
          apply replaceAll_diverges inside n
          exact List.infix_append_of_infix_left (List.infix_append_of_infix_right inside)

/-- The replacement is in the text that comes out. -/
theorem replaceAll_shows {u v : List α} : ∀ {n : Nat} {s t : List α}, u <:+: s →
    replaceAll u v n s = some t → v <:+: t
  | n + 1, s, t, occurs, done => by
      rw [replaceAll] at done
      cases found : find u s with
      | none => exact absurd occurs (find_eq_none_iff.mp found)
      | some i =>
          rw [found] at done
          dsimp only at done
          by_cases again : u <:+: s.take i ++ v ++ s.drop (i + u.length)
          · exact replaceAll_shows again done
          · cases n with
            | zero => cases done
            | succ n =>
                rw [replaceAll_free again] at done
                obtain rfl := Option.some.inj done
                exact ⟨_, _, rfl⟩

/-! ## Letters that words do not have -/

/-- A word without the letter is looked for on its left first. -/
theorem find_append_cons {u b : List α} {c : α} (foreign : c ∉ u) (nonempty : u ≠ []) :
    ∀ a : List α, find u (a ++ c :: b) =
      (find u a).orElse fun _ => (find u b).map (a.length + 1 + ·)
  | [] => by
      have notHere : ¬ u <+: c :: b := fun starts =>
        nonempty (List.prefix_nil.mp (prefix_of_prefix_cons (a := []) foreign starts))
      have shift : (fun i => i + 1) = (([] : List α).length + 1 + ·) := by
        funext i
        exact Nat.add_comm i 1
      show find u (c :: b) = _
      simp only [find, if_neg notHere, if_neg nonempty, shift]
      rfl
  | d :: a => by
      have rest := find_append_cons (b := b) foreign nonempty a
      show find u (d :: (a ++ c :: b)) = _
      by_cases starts : u <+: d :: a
      · have here : u <+: d :: (a ++ c :: b) := starts.trans (List.prefix_append (d :: a) _)
        simp only [find, if_pos starts, if_pos here]
        rfl
      · have notHere : ¬ u <+: d :: (a ++ c :: b) := fun across =>
          starts (prefix_of_prefix_cons (a := d :: a) foreign across)
        have shift : ∀ i, a.length + 1 + i + 1 = (d :: a).length + 1 + i := by
          intro i
          rw [List.length_cons]
          omega
        simp only [find, if_neg starts, if_neg notHere, rest]
        cases find u a with
        | some i => rfl
        | none =>
            cases find u b with
            | some j => exact congrArg some (shift j)
            | none => rfl

/-- A loop goes through the two sides of a letter that its word does not have
as if each was a text of its own. -/
theorem replaceAll_across {u v : List α} {c : α} (foreign : c ∉ u) (nonempty : u ≠ []) :
    ∀ {n : Nat} {a b t : List α}, replaceAll u v n (a ++ c :: b) = some t →
      ∃ a' b', t = a' ++ c :: b' ∧ replaceAll u v n a = some a' ∧ replaceAll u v n b = some b'
  | n + 1, a, b, t, done => by
      rw [replaceAll, find_append_cons foreign nonempty] at done
      cases inLeft : find u a with
      | some i =>
          rw [inLeft] at done
          obtain ⟨p, q, rfl, rfl⟩ := find_eq_some inLeft
          have shape : p ++ u ++ q ++ c :: b = p ++ u ++ (q ++ c :: b) := by simp
          dsimp only [Option.orElse] at done
          rw [shape, ← List.length_append, List.drop_left, List.append_assoc p, List.take_left,
            ← List.append_assoc] at done
          obtain ⟨a', b', rfl, left, right⟩ := replaceAll_across foreign nonempty done
          refine ⟨a', b', rfl, ?_, replaceAll_mono (Nat.le_succ n) right⟩
          rw [replaceAll, inLeft]
          dsimp only
          rw [← List.length_append, List.drop_left, List.append_assoc p, List.take_left]
          exact left
      | none =>
          rw [inLeft] at done
          have free := find_eq_none_iff.mp inLeft
          cases inRight : find u b with
          | none =>
              rw [inRight] at done
              obtain rfl := Option.some.inj done
              exact ⟨a, b, rfl, replaceAll_free free v n, by rw [replaceAll, inRight]⟩
          | some j =>
              rw [inRight] at done
              obtain ⟨p, q, rfl, rfl⟩ := find_eq_some inRight
              have shape : a ++ c :: (p ++ u ++ q) = (a ++ c :: p) ++ (u ++ q) := by simp
              have offset : a.length + 1 + p.length = (a ++ c :: p).length := by
                rw [List.length_append, List.length_cons]
                omega
              dsimp only [Option.orElse, Option.map] at done
              rw [shape, offset, List.take_left, ← List.length_append, ← List.append_assoc _ u,
                List.drop_left, List.append_assoc, List.append_assoc, List.cons_append] at done
              obtain ⟨a', b', rfl, left, right⟩ := replaceAll_across foreign nonempty done
              refine ⟨a', b', rfl, replaceAll_mono (Nat.le_succ n) left, ?_⟩
              rw [replaceAll, inRight]
              dsimp only
              rw [← List.length_append, List.drop_left, List.append_assoc p, List.take_left,
                List.append_assoc]
              exact right
/-- The word alone becomes its replacement. -/
theorem replaceAll_self {u v t : List α} {n : Nat} (nonempty : u ≠ [])
    (done : replaceAll u v n u = some t) : t = v ∧ Free u v := by
  have free : Free u v := fun inside =>
    Option.some_ne_none t (done.symm.trans (replaceAll_diverges inside n List.infix_rfl))
  refine ⟨?_, free⟩
  cases n with
  | zero => cases done
  | succ n =>
      obtain ⟨c, w, rfl⟩ := List.exists_cons_of_ne_nil nonempty
      have found : find (c :: w) (c :: w) = some 0 := by rw [find, if_pos List.prefix_rfl]
      rw [replaceAll, found] at done
      dsimp only at done
      rw [List.take_zero, List.nil_append, Nat.zero_add, List.drop_length, List.append_nil] at done
      cases n with
      | zero => cases done
      | succ n =>
          rw [replaceAll_free free] at done
          exact (Option.some.inj done).symm

theorem replaceAll_eq {u v s t : List α} {n : Nat} (free : Free u s)
    (done : replaceAll u v n s = some t) : t = s := by
  cases n with
  | zero => cases done
  | succ n =>
      rw [replaceAll_free free] at done
      exact (Option.some.inj done).symm

/-! ## Loops that fill -/

variable {η : Type} [DecidableEq η]

/-- **One loop fills one hole**, wherever it is in the template, if its word does
not occur in what comes out. -/
theorem replaceAll_fill {g : η → List α} {h : η} (unbordered : Unbordered (g h))
    (nonempty : g h ≠ []) (v : List α) : ∀ (T : Template α η) (a : List α),
    Free (g h) (a ++ fill (Function.update g h v) T) →
      ∃ n, replaceAll (g h) v n (a ++ fill g T) = some (a ++ fill (Function.update g h v) T)
  | [], a, free => ⟨1, replaceAll_free free v 0⟩
  | .text s :: T, a, free => by
      rw [fill_text, fill_text, ← List.append_assoc, ← List.append_assoc]
      rw [fill_text, ← List.append_assoc] at free
      exact replaceAll_fill unbordered nonempty v T (a ++ s) free
  | .hole k :: T, a, free => by
      rw [fill_hole, ← List.append_assoc] at free
      rw [fill_hole, fill_hole, ← List.append_assoc, ← List.append_assoc]
      by_cases same : k = h
      · subst same
        obtain ⟨n, done⟩ := replaceAll_fill unbordered nonempty v T _ free
        rw [Function.update_self] at free done ⊢
        refine ⟨n + 1, ?_⟩
        rw [replaceAll_step unbordered nonempty free.left.left]
        exact done
      · rw [Function.update_of_ne same] at free ⊢
        exact replaceAll_fill unbordered nonempty v T (a ++ g k) free

/-! ## Sequences of loops -/

/-- The words that stand for the holes of templates: none has a border, occurs in
another one or overlaps it, and none has a letter that is a fence. -/
structure Words (α η : Type) where
  spell : η → List α
  fence : α → Bool
  nonempty : ∀ h, spell h ≠ []
  unbordered : ∀ h, Unbordered (spell h)
  foreign : ∀ h, ∀ c ∈ spell h, fence c = false
  apart : ∀ h k, h ≠ k → Free (spell h) (spell k)
  separate : ∀ h k, h ≠ k → ∀ x, x <:+ spell h → x <+: spell k → x = []

/-- The replacements of a list put in for the holes. -/
def subst (rs : List (η × List α)) (g : η → List α) (h : η) : List α := (rs.lookup h).getD (g h)

omit [DecidableEq α] in
theorem subst_cons {r : η × List α} {rs : List (η × List α)} (new : r.1 ∉ rs.map Prod.fst)
    (g : η → List α) : subst (r :: rs) g = subst rs (Function.update g r.1 r.2) := by
  funext h
  unfold subst
  by_cases same : h = r.1
  · subst same
    rw [List.lookup_cons, beq_self_eq_true, Function.update_self, lookup_eq_none_iff.mpr new]
    rfl
  · rw [List.lookup_cons, beq_eq_false_iff_ne.mpr same, Function.update_of_ne same]

namespace Words

variable (W : Words α η)

/-- The loops for a list of holes and replacements, one after the other. -/
def replaceEach (rs : List (η × List α)) (n : Nat) (s : List α) : Option (List α) :=
  rs.foldlM (fun s r => replaceAll (W.spell r.1) r.2 n s) s

omit [DecidableEq η] in
theorem replaceEach_append (rs qs : List (η × List α)) (n : Nat) (s : List α) :
    W.replaceEach (rs ++ qs) n s = W.replaceEach rs n s >>= W.replaceEach qs n :=
  List.foldlM_append

/-- No loop leaves its word in the text. -/
def FreeEach (T : Template α η) : (η → List α) → List (η × List α) → Prop
  | _, [] => True
  | g, r :: rs => Free (W.spell r.1) (fill (Function.update g r.1 r.2) T) ∧
      FreeEach T (Function.update g r.1 r.2) rs

variable {W}

/-- **A sequence of loops is one substitution**, if no loop leaves its word. -/
theorem replaceEach_fill {T : Template α η} : ∀ {rs : List (η × List α)} {g : η → List α},
    (∀ r ∈ rs, g r.1 = W.spell r.1) → (rs.map Prod.fst).Nodup → W.FreeEach T g rs →
      ∃ N, ∀ n, N ≤ n → W.replaceEach rs n (fill g T) = some (fill (subst rs g) T)
  | [], g, _, _, _ => ⟨0, fun _ _ => rfl⟩
  | r :: rs, g, spelled, distinct, free => by
      obtain ⟨new, distinct⟩ := List.nodup_cons.mp distinct
      have word := spelled r List.mem_cons_self
      have later : ∀ q ∈ rs, Function.update g r.1 r.2 q.1 = W.spell q.1 := by
        intro q mem
        have ne : q.1 ≠ r.1 := fun same => new (same ▸ List.mem_map_of_mem mem)
        rw [Function.update_of_ne ne]
        exact spelled q (List.mem_cons_of_mem _ mem)
      obtain ⟨N, settled⟩ := replaceEach_fill later distinct free.2
      have first := free.1
      rw [← word] at first
      obtain ⟨m, done⟩ := replaceAll_fill (word ▸ W.unbordered r.1) (word ▸ W.nonempty r.1)
        r.2 T [] first
      refine ⟨max N m, fun n le => ?_⟩
      have enough := replaceAll_mono (le_trans (le_max_right N m) le) done
      rw [List.nil_append, List.nil_append, word] at enough
      have rest := settled n (le_trans (le_max_left N m) le)
      rw [subst_cons new, ← rest]
      show (replaceAll (W.spell r.1) r.2 n (fill g T) >>= _) = _
      rw [enough]
      rfl

/-- No loop finds its word in what it puts in itself, or what an earlier one did. -/
structure Clear (W : Words α η) (T : Template α η) (rs : List (η × List α)) : Prop where
  own : ∀ r ∈ rs, Piece.hole r.1 ∈ T → Free (W.spell r.1) r.2
  earlier : rs.Pairwise fun q r => Piece.hole q.1 ∈ T → Free (W.spell r.1) q.2

/-- The template itself: pieces fenced off, and no word in its text. -/
structure Tidy (W : Words α η) (T : Template α η) : Prop where
  fenced : fenced W.fence T = true
  texts : ∀ h s, Piece.text s ∈ T → Free (W.spell h) s

omit [DecidableEq α] [DecidableEq η] in
theorem Clear.tail {T : Template α η} {r : η × List α} {rs : List (η × List α)}
    (clear : W.Clear T (r :: rs)) : W.Clear T rs :=
  ⟨fun q mem => clear.own q (List.mem_cons_of_mem _ mem), (List.pairwise_cons.mp clear.earlier).2⟩

omit [DecidableEq α] in
theorem freeEach_of_clear {T : Template α η} (tidy : W.Tidy T) :
    ∀ {rs : List (η × List α)} {g : η → List α}, W.Clear T rs →
      (∀ r ∈ rs, ∀ h, Piece.hole h ∈ T → h ≠ r.1 → Free (W.spell r.1) (g h)) → W.FreeEach T g rs
  | [], _, _, _ => trivial
  | r :: rs, g, clear, others => by
      refine ⟨?_, freeEach_of_clear tidy clear.tail ?_⟩
      · apply free_fill (W.foreign r.1) (W.nonempty r.1) _ tidy.fenced (tidy.texts r.1)
        intro h mem
        by_cases same : h = r.1
        · subst same
          rw [Function.update_self]
          exact clear.own r List.mem_cons_self mem
        · rw [Function.update_of_ne same]
          exact others r List.mem_cons_self h mem same
      · intro q later h mem ne
        by_cases same : h = r.1
        · subst same
          rw [Function.update_self]
          exact (List.pairwise_cons.mp clear.earlier).1 q later mem
        · rw [Function.update_of_ne same]
          exact others q (List.mem_cons_of_mem _ later) h mem ne

/-- The loops on a template that is tidy fill it, if they are clear of each other. -/
theorem replaceEach_clear {T : Template α η} (tidy : W.Tidy T) {rs : List (η × List α)}
    (distinct : (rs.map Prod.fst).Nodup) (clear : W.Clear T rs) :
    ∃ N, ∀ n, N ≤ n → W.replaceEach rs n (fill W.spell T) = some (fill (subst rs W.spell) T) :=
  replaceEach_fill (fun _ _ => rfl) distinct (freeEach_of_clear tidy clear fun r _ h _ ne =>
    W.apart r.1 h ne.symm)

/-! ### Fences -/

omit [DecidableEq η] in
/-- A sequence of loops goes through the two sides of a fence by themselves. -/
theorem replaceEach_across {c : α} (isFence : W.fence c = true) {n : Nat} :
    ∀ {rs : List (η × List α)} {a b t : List α}, W.replaceEach rs n (a ++ c :: b) = some t →
      ∃ a' b', t = a' ++ c :: b' ∧ W.replaceEach rs n a = some a' ∧
        W.replaceEach rs n b = some b'
  | [], a, b, t, done => ⟨a, b, (Option.some.inj done).symm, rfl, rfl⟩
  | r :: rs, a, b, t, done => by
      have foreign : c ∉ W.spell r.1 := by
        intro mem
        rw [W.foreign r.1 c mem] at isFence
        cases isFence
      obtain ⟨s, first, rest⟩ := Option.bind_eq_some_iff.mp done
      obtain ⟨a₁, b₁, rfl, left, right⟩ := replaceAll_across foreign (W.nonempty r.1) first
      obtain ⟨a', b', rfl, left', right'⟩ := replaceEach_across isFence rest
      exact ⟨a', b', rfl, Option.bind_eq_some_iff.mpr ⟨a₁, left, left'⟩,
        Option.bind_eq_some_iff.mpr ⟨b₁, right, right'⟩⟩

omit [DecidableEq η] in
theorem replaceEach_eq {n : Nat} : ∀ {rs : List (η × List α)} {s t : List α},
    (∀ r ∈ rs, Free (W.spell r.1) s) → W.replaceEach rs n s = some t → t = s
  | [], s, t, _, done => (Option.some.inj done).symm
  | r :: rs, s, t, free, done => by
      obtain ⟨s', first, rest⟩ := Option.bind_eq_some_iff.mp done
      obtain rfl := replaceAll_eq (free r List.mem_cons_self) first
      exact replaceEach_eq (fun q mem => free q (List.mem_cons_of_mem _ mem)) rest

/-! ### What is in the text that comes out -/

omit [DecidableEq η] in
/-- A word stays where it is in the loops for others. -/
theorem replaceAll_keeps {h k : η} (ne : k ≠ h) {v : List α} : ∀ {n : Nat} {s t : List α},
    W.spell h <:+: s → replaceAll (W.spell k) v n s = some t → W.spell h <:+: t
  | n + 1, s, t, occurs, done => by
      rw [replaceAll] at done
      cases found : find (W.spell k) s with
      | none =>
          rw [found] at done
          exact Option.some.inj done ▸ occurs
      | some i =>
          rw [found] at done
          obtain ⟨a, b, rfl, rfl⟩ := find_eq_some found
          dsimp only at done
          rw [← List.length_append, List.drop_left, List.append_assoc a, List.take_left] at done
          apply replaceAll_keeps ne _ done
          rcases infix_append_word (W.apart k h ne) (W.apart h k ne.symm) (W.separate k h ne)
              (W.separate h k ne.symm) occurs with front | behind
          · exact List.infix_append_of_infix_left (List.infix_append_of_infix_left front)
          · exact List.infix_append_of_infix_right behind

omit [DecidableEq η] in
theorem replaceEach_keeps {h : η} {n : Nat} : ∀ {rs : List (η × List α)} {s t : List α},
    h ∉ rs.map Prod.fst → W.spell h <:+: s → W.replaceEach rs n s = some t → W.spell h <:+: t
  | [], s, t, _, occurs, done => Option.some.inj done ▸ occurs
  | r :: rs, s, t, absent, occurs, done => by
      rw [List.map_cons, List.mem_cons, not_or] at absent
      obtain ⟨s', first, rest⟩ := Option.bind_eq_some_iff.mp done
      exact replaceEach_keeps absent.2 (replaceAll_keeps (Ne.symm absent.1) occurs first) rest

omit [DecidableEq η] in
/-- **When the loops have ended**, none has found its word in what it puts in, and
what a loop has put in is there but for the words of the loops. -/
theorem replaceEach_shows {h : η} {v : List α} {n : Nat} : ∀ {rs : List (η × List α)}
    {s t : List α}, (rs.map Prod.fst).Nodup → (h, v) ∈ rs → W.spell h <:+: s →
      W.replaceEach rs n s = some t → Free (W.spell h) v ∧
        ∀ k, k ∉ rs.map Prod.fst → W.spell k <:+: v → W.spell k <:+: t
  | r :: rs, s, t, distinct, mem, occurs, done => by
      obtain ⟨new, distinct⟩ := List.nodup_cons.mp distinct
      obtain ⟨s', first, rest⟩ := Option.bind_eq_some_iff.mp done
      rcases List.mem_cons.mp mem with rfl | later
      · constructor
        · intro inside
          exact Option.some_ne_none s' (first.symm.trans (replaceAll_diverges inside n occurs))
        · intro k absent inside
          rw [List.map_cons, List.mem_cons, not_or] at absent
          exact replaceEach_keeps absent.2 (inside.trans (replaceAll_shows occurs first)) rest
      · have ne : r.1 ≠ h := by
          intro same
          have again := List.mem_map_of_mem (f := Prod.fst) later
          exact new (same ▸ again)
        have occurs := replaceAll_keeps ne occurs first
        obtain ⟨own, kept⟩ := replaceEach_shows distinct later occurs rest
        refine ⟨own, fun k absent inside => kept k (fun key => absent ?_) inside⟩
        exact List.mem_cons_of_mem _ key

end Words

end LaliRpc.Theory.Substitution
