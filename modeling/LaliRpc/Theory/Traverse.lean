/-
# Theory.Traverse — lists taken through fallible steps

`mapM` and `foldlM` over a list in `Except`: what the results of a `mapM` are
(`mapM_ok_iff`), when there are any (`mapM_total_iff`), the invariant rule of a
`foldlM` (`foldlM_invariant`), the element that a `foldlM` fails at (`foldlM_stops`,
with `all_or_first` to find it), and two computations compared by what they return
(`Renders`).
-/
import LaliRpc.Theory.Fueled
import Mathlib.Data.List.Forall2

namespace LaliRpc.Theory

set_option autoImplicit false

variable {φ α β : Type}

/-- A `mapM` succeeds when every step does. -/
theorem mapM_ok_iff {f : α → Except φ β} {as : List α} {bs : List β} :
    as.mapM f = .ok bs ↔ List.Forall₂ (fun a b => f a = .ok b) as bs := by
  induction as generalizing bs with
  | nil =>
      rw [List.mapM_nil, List.forall₂_nil_left_iff]
      exact ⟨fun h => (Except.ok.inj h).symm, fun h => congrArg Except.ok h.symm⟩
  | cons a as ih =>
      rw [List.mapM_cons, except_bind_eq_ok]
      constructor
      · rintro ⟨b, first, rest⟩
        obtain ⟨later, mapped, same⟩ := except_bind_eq_ok.mp rest
        obtain rfl := Except.ok.inj same
        exact .cons first (ih.mp mapped)
      · intro all
        cases all with
        | cons first rest => exact ⟨_, first, by rw [ih.mpr rest]; rfl⟩

/-- The step that made an element of the result. -/
theorem mapM_ok_mem {f : α → Except φ β} {as : List α} {bs : List β} (ok : as.mapM f = .ok bs)
    {a : α} (mem : a ∈ as) : ∃ b ∈ bs, f a = .ok b := by
  have all := mapM_ok_iff.mp ok
  clear ok
  induction all with
  | nil => cases mem
  | cons first rest ih =>
      rcases List.mem_cons.mp mem with rfl | later
      · exact ⟨_, List.mem_cons_self, first⟩
      · obtain ⟨b, hb, eq⟩ := ih later
        exact ⟨b, List.mem_cons_of_mem _ hb, eq⟩

/-- The element that an element of the result was made from. -/
theorem mapM_ok_source {f : α → Except φ β} {as : List α} {bs : List β} (ok : as.mapM f = .ok bs)
    {b : β} (mem : b ∈ bs) : ∃ a ∈ as, f a = .ok b := by
  have all := mapM_ok_iff.mp ok
  clear ok
  induction all with
  | nil => cases mem
  | cons first rest ih =>
      rcases List.mem_cons.mp mem with rfl | later
      · exact ⟨_, List.mem_cons_self, first⟩
      · obtain ⟨a, ha, eq⟩ := ih later
        exact ⟨a, List.mem_cons_of_mem _ ha, eq⟩

/-- The results stand where the elements do that they were made from. -/
theorem mapM_ok_getElem? {f : α → Except φ β} {as : List α} {bs : List β}
    (ok : as.mapM f = .ok bs) {i : Nat} {a : α} (at_i : as[i]? = some a) :
    ∃ b, bs[i]? = some b ∧ f a = .ok b := by
  have all := mapM_ok_iff.mp ok
  clear ok
  induction all generalizing i with
  | nil => cases at_i
  | cons first rest ih =>
      cases i with
      | zero =>
          obtain rfl := Option.some.inj at_i
          exact ⟨_, rfl, first⟩
      | succ i => exact ih at_i

theorem mapM_total_iff {f : α → Except φ β} {as : List α} :
    (∃ bs, as.mapM f = .ok bs) ↔ ∀ a ∈ as, ∃ b, f a = .ok b := by
  constructor
  · rintro ⟨bs, ok⟩ a mem
    obtain ⟨b, -, made⟩ := mapM_ok_mem ok mem
    exact ⟨b, made⟩
  · intro all
    induction as with
    | nil => exact ⟨[], rfl⟩
    | cons a as ih =>
        obtain ⟨b, first⟩ := all a List.mem_cons_self
        obtain ⟨bs, rest⟩ := ih fun c mem => all c (List.mem_cons_of_mem a mem)
        exact ⟨b :: bs, mapM_ok_iff.mpr (.cons first (mapM_ok_iff.mp rest))⟩

/-- The steps of a `mapM`, each with enough fuel. -/
theorem settles_mapM {stuck : φ} {f : Nat → α → Except φ β} {g : α → Except φ β} {P : β → Prop}
    {as : List α} (each : ∀ a ∈ as, Settles stuck (fun n => f n a) (g a) P) :
    Settles stuck (fun n => as.mapM (f n)) (as.mapM g) fun bs => ∀ b ∈ bs, P b := by
  induction as with
  | nil => exact settles_ok fun b mem => absurd mem List.not_mem_nil
  | cons a as ih =>
      simp only [List.mapM_cons]
      refine (each a List.mem_cons_self).bind fun b holds => ?_
      refine (ih fun c mem => each c (List.mem_cons_of_mem a mem)).bind fun bs all => ?_
      exact settles_ok (List.forall_mem_cons.mpr ⟨holds, all⟩)

/-- The steps of a `mapM`, each with whatever it comes to. -/
theorem limit_mapM {stuck : φ} {f : Nat → α → Except φ β} {g : α → Except φ β}
    (each : ∀ a, Limit stuck (fun n => f n a) (g a)) (as : List α) :
    Limit stuck (fun n => as.mapM (f n)) (as.mapM g) := by
  induction as with
  | nil => exact limit_const stuck _
  | cons a as ih =>
      simp only [List.mapM_cons]
      exact (each a).bind fun b => ih.bind fun bs => limit_const stuck _

theorem mapM_congr {f g : α → Except φ β} {as : List α} (same : ∀ a ∈ as, f a = g a) :
    as.mapM f = as.mapM g := by
  induction as with
  | nil => rfl
  | cons a as ih =>
      have rest := ih fun c mem => same c (List.mem_cons_of_mem a mem)
      rw [List.mapM_cons, List.mapM_cons, same a List.mem_cons_self, rest]

/-- A sequence fails in no way that none of its parts does. -/
theorem bind_ne_error {x : Except φ α} {k : α → Except φ β} {f : φ} (first : x ≠ .error f)
    (rest : ∀ a, x = .ok a → k a ≠ .error f) : x >>= k ≠ .error f := by
  cases outcome : x with
  | error g => exact fun stops => first (outcome.trans (congrArg _ (Except.error.inj stops)))
  | ok a => exact rest a outcome

theorem mapM_ne_error {f : φ} {step : α → Except φ β} {as : List α}
    (each : ∀ a ∈ as, step a ≠ .error f) : as.mapM step ≠ .error f := by
  induction as with
  | nil => exact nofun
  | cons a as ih =>
      rw [List.mapM_cons]
      refine bind_ne_error (each a List.mem_cons_self) fun b _ => ?_
      exact bind_ne_error (ih fun c mem => each c (List.mem_cons_of_mem a mem)) fun _ _ => nofun

/-- A `mapM` whose steps keep what `g` and `h` show of the elements. -/
theorem mapM_map_eq {γ : Type} {f : α → Except φ β} {as : List α} {bs : List β}
    (ok : as.mapM f = .ok bs) (g : α → γ) (h : β → γ)
    (same : ∀ a b, f a = .ok b → h b = g a) : bs.map h = as.map g := by
  have all := mapM_ok_iff.mp ok
  clear ok
  induction all with
  | nil => rfl
  | cons first rest ih => rw [List.map_cons, List.map_cons, ih, same _ _ first]

/-- **The invariant rule of a loop**: what every step that succeeds keeps holds of
the result. -/
theorem foldlM_invariant {I : β → Prop} {f : β → α → Except φ β}
    (kept : ∀ b a b', I b → f b a = .ok b' → I b') :
    ∀ {as : List α} {b b' : β}, I b → as.foldlM f b = .ok b' → I b'
  | [], b, b', start, ok => by
      obtain rfl := Except.ok.inj ok
      exact start
  | a :: as, b, b', start, ok => by
      rw [List.foldlM_cons] at ok
      obtain ⟨next, first, rest⟩ := except_bind_eq_ok.mp ok
      exact foldlM_invariant kept (kept b a next start first) rest

section

variable {χ γ δ ε : Type}

/-- The first computation returns what the second one does, rendered. How they fail
is not compared. -/
def Renders (render : γ → β) (x : Except φ β) (y : Except χ γ) : Prop :=
  ∀ b, x = .ok b ↔ ∃ c, y = .ok c ∧ render c = b

theorem renders_ok {render : γ → β} (c : γ) :
    Renders render (.ok (render c) : Except φ β) (.ok c : Except χ γ) := by
  intro b
  constructor
  · exact fun same => ⟨c, rfl, Except.ok.inj same⟩
  · rintro ⟨d, same, rfl⟩
    rw [Except.ok.inj same]

theorem renders_error {render : γ → β} (e : φ) (f : χ) :
    Renders render (.error e) (.error f) := by
  intro b
  constructor
  · exact nofun
  · rintro ⟨c, fails, -⟩
    cases fails

theorem Renders.bind {render : γ → β} {render' : ε → δ} {x : Except φ β} {y : Except χ γ}
    {k : β → Except φ δ} {l : γ → Except χ ε} (first : Renders render x y)
    (rest : ∀ c, Renders render' (k (render c)) (l c)) : Renders render' (x >>= k) (y >>= l) := by
  intro d
  constructor
  · intro ok
    obtain ⟨b, made, ok⟩ := except_bind_eq_ok.mp ok
    obtain ⟨c, shown, rfl⟩ := (first b).mp made
    obtain ⟨e, ok, same⟩ := (rest c d).mp ok
    exact ⟨e, except_bind_eq_ok.mpr ⟨c, shown, ok⟩, same⟩
  · rintro ⟨e, ok, rfl⟩
    obtain ⟨c, shown, ok⟩ := except_bind_eq_ok.mp ok
    exact except_bind_eq_ok.mpr
      ⟨render c, (first _).mpr ⟨c, shown, rfl⟩, (rest c _).mpr ⟨e, ok, rfl⟩⟩

/-- What is made of the text afterwards is part of the rendering. -/
theorem Renders.map {render : γ → β} {x : Except φ β} {y : Except χ γ}
    (renders : Renders render x y) (h : β → δ) :
    Renders (fun c => h (render c)) (x >>= fun b => pure (h b)) y := by
  intro d
  constructor
  · intro ok
    obtain ⟨b, made, same⟩ := except_bind_eq_ok.mp ok
    obtain ⟨c, shown, rfl⟩ := (renders b).mp made
    exact ⟨c, shown, Except.ok.inj same⟩
  · rintro ⟨c, shown, rfl⟩
    exact except_bind_eq_ok.mpr ⟨render c, (renders _).mpr ⟨c, shown, rfl⟩, rfl⟩

theorem renders_mapM {render : γ → β} {f : α → Except φ β} {g : α → Except χ γ} {as : List α}
    (each : ∀ a ∈ as, Renders render (f a) (g a)) :
    Renders (List.map render) (as.mapM f) (as.mapM g) := by
  induction as with
  | nil => exact renders_ok  []
  | cons a as ih =>
      rw [List.mapM_cons, List.mapM_cons]
      refine (each a List.mem_cons_self).bind fun c => ?_
      refine (ih fun b mem => each b (List.mem_cons_of_mem a mem)).bind fun cs => ?_
      exact renders_ok  (c :: cs)

end

end LaliRpc.Theory
