/-
# Theory.Framing — reassembling framed streams from arbitrary reads

A sender concatenates the encodings `enc b` of its payloads (`stream`); the
network hands the receiver the same symbols cut into reads. A `Receiver` holds
the symbols it has not used yet (`pending`), and each read appends to them and
makes it deliver some payloads. `Delivers` is the specification: after every
read exactly the payloads whose encodings have wholly arrived (`arrived`) have
been delivered, and nothing is pending at the end.

A receiver may look only at the front of what is pending and then take
everything (`Drains`): it keeps an incomplete frame, but a complete frame is
delivered together with whatever follows it. Such a receiver meets the
specification exactly on the cuts that break the stream at every frame boundary
(`delivers_iff_aligned`).
-/
import Mathlib.Data.List.Basic
import Mathlib.Data.List.Infix

namespace LaliRpc.Theory.Framing

set_option autoImplicit false

variable {α β γ σ : Type}

/-- The encodings of `bs`, one after another. -/
def stream (enc : β → List α) (bs : List β) : List α := bs.flatMap enc

/-- The payloads whose encodings lie within the first `n` symbols. -/
def arrived (enc : β → List α) : List β → Nat → List β
  | [], _ => []
  | b :: bs, n => if (enc b).length ≤ n then b :: arrived enc bs (n - (enc b).length) else []

/-- A receiver: what a read of some symbols does to its state and delivers, the
symbols it holds, and the states it can be in. -/
structure Receiver (σ α γ : Type) where
  read : σ → List α → σ × List γ
  pending : σ → List α
  Ok : σ → Prop

/-- One read after another: what each delivered, and the state at the end. -/
def feed (r : Receiver σ α γ) : σ → List (List α) → List (List γ) × σ
  | s, [] => ([], s)
  | s, c :: cs =>
      let now := r.read s c
      let later := feed r now.1 cs
      (now.2 :: later.1, later.2)

/-- The number of symbols before read `j`, `n` of which were pending at the start. -/
def cut (n : Nat) (cs : List (List α)) (j : Nat) : Nat := n + (cs.take j).flatten.length

@[simp] theorem cut_zero (n : Nat) (cs : List (List α)) : cut n cs 0 = n := by simp [cut]

@[simp] theorem cut_succ (n : Nat) (c : List α) (cs : List (List α)) (j : Nat) :
    cut n (c :: cs) (j + 1) = cut (n + c.length) cs j := by simp [cut]; omega

theorem le_cut (n : Nat) (cs : List (List α)) (j : Nat) : n ≤ cut n cs j := Nat.le_add_right _ _

/-- After every read exactly the payloads that have arrived were delivered, and
nothing is left over. -/
structure Delivers (enc : β → List α) (good : β → γ) (bs : List β) (cs : List (List α))
    (out : List (List γ)) (left : List α) : Prop where
  onTime : ∀ j ≤ cs.length, (out.take j).flatten = (arrived enc bs (cut 0 cs j)).map good
  drained : left = []

/-- Every frame boundary is also a boundary between two reads. -/
def Aligned (enc : β → List α) (bs : List β) (cs : List (List α)) : Prop :=
  ∀ i ≤ bs.length, ∃ j ≤ cs.length, cut 0 cs j = (stream enc (bs.take i)).length

/-- A receiver that keeps an incomplete frame, and delivers a complete one with
everything that follows it, which is right only when nothing does. -/
structure Drains (enc : β → List α) (good : β → γ) (r : Receiver σ α γ) : Prop where
  nonempty : ∀ b, enc b ≠ []
  ok : ∀ s c, r.Ok s → r.Ok (r.read s c).1
  idle : ∀ s c, r.Ok s → r.pending s ++ c = [] →
    (r.read s c).2 = [] ∧ r.pending (r.read s c).1 = []
  keeps : ∀ s c b, r.Ok s → r.pending s ++ c <+: enc b → r.pending s ++ c ≠ enc b →
    (r.read s c).2 = [] ∧ r.pending (r.read s c).1 = r.pending s ++ c
  takes : ∀ s c b rest, r.Ok s → r.pending s ++ c = enc b ++ rest →
    ∃ x, (r.read s c).2 = [x] ∧ r.pending (r.read s c).1 = [] ∧ (x = good b ↔ rest = [])

@[simp] theorem stream_nil (enc : β → List α) : stream enc [] = [] := rfl

@[simp] theorem stream_cons (enc : β → List α) (b : β) (bs : List β) :
    stream enc (b :: bs) = enc b ++ stream enc bs := rfl

theorem arrived_of_lt {enc : β → List α} {b : β} {n : Nat} (short : n < (enc b).length)
    (bs : List β) : arrived enc (b :: bs) n = [] := by
  simp [arrived, short]

theorem arrived_add (enc : β → List α) (b : β) (bs : List β) (n : Nat) :
    arrived enc (b :: bs) ((enc b).length + n) = b :: arrived enc bs n := by
  simp [arrived]

/-- `Delivers` from a pending prefix `p` of the stream. -/
def OnTime (enc : β → List α) (good : β → γ) (bs : List β) (n : Nat) (cs : List (List α))
    (out : List (List γ)) : Prop :=
  ∀ j ≤ cs.length, (out.take j).flatten = (arrived enc bs (cut n cs j)).map good

/-- `Aligned` from a pending prefix of `n` symbols; the boundary before the
first frame is behind it. -/
def AlignedFrom (enc : β → List α) (bs : List β) (n : Nat) (cs : List (List α)) : Prop :=
  ∀ i < bs.length, ∃ j ≤ cs.length, cut n cs j = (stream enc (bs.take (i + 1))).length

/-- A read that does not complete the first frame delivers nothing and moves no
boundary. -/
theorem onTime_keep {enc : β → List α} {good : β → γ} {b : β} {bs : List β} {n : Nat}
    {c : List α} {cs : List (List α)} {out : List (List γ)} (short : n < (enc b).length) :
    OnTime enc good (b :: bs) n (c :: cs) ([] :: out) ↔
      OnTime enc good (b :: bs) (n + c.length) cs out := by
  constructor
  · intro h j hj
    simpa using h (j + 1) (by simpa using hj)
  · intro h j hj
    cases j with
    | zero => simp [arrived_of_lt short]
    | succ j => simpa using h j (by simpa using hj)

theorem alignedFrom_keep {enc : β → List α} {b : β} {bs : List β} {n : Nat} {c : List α}
    {cs : List (List α)} (short : n < (enc b).length) :
    AlignedFrom enc (b :: bs) n (c :: cs) ↔ AlignedFrom enc (b :: bs) (n + c.length) cs := by
  constructor
  · intro h i hi
    obtain ⟨j, hj, hcut⟩ := h i hi
    cases j with
    | zero =>
        simp only [cut_zero, List.take_succ_cons, stream_cons, List.length_append] at hcut
        omega
    | succ j => exact ⟨j, by simpa using hj, by simpa using hcut⟩
  · intro h i hi
    obtain ⟨j, hj, hcut⟩ := h i hi
    exact ⟨j + 1, by simpa using hj, by simpa using hcut⟩

/-- A read that ends exactly at the first frame's boundary moves on to the next. -/
theorem onTime_take {enc : β → List α} {good : β → γ} {b : β} {bs : List β} {n : Nat}
    {c : List α} {cs : List (List α)} {out : List (List γ)} (short : n < (enc b).length)
    (full : n + c.length = (enc b).length) :
    OnTime enc good (b :: bs) n (c :: cs) ([good b] :: out) ↔ OnTime enc good bs 0 cs out := by
  have shift : ∀ j, cut (n + c.length) cs j = (enc b).length + cut 0 cs j := by
    intro j
    simp [cut, full]
  constructor
  · intro h j hj
    have := h (j + 1) (by simpa using hj)
    rw [cut_succ, shift, arrived_add] at this
    simpa using this
  · intro h j hj
    cases j with
    | zero => simp [arrived_of_lt short]
    | succ j =>
        have := h j (by simpa using hj)
        rw [cut_succ, shift, arrived_add]
        simpa using this

theorem alignedFrom_take {enc : β → List α} {b : β} {bs : List β} {n : Nat} {c : List α}
    {cs : List (List α)} (short : n < (enc b).length) (full : n + c.length = (enc b).length) :
    AlignedFrom enc (b :: bs) n (c :: cs) ↔ AlignedFrom enc bs 0 cs := by
  have shift : ∀ j, cut n (c :: cs) (j + 1) = (enc b).length + cut 0 cs j := by
    intro j
    simp [cut]
    omega
  constructor
  · intro h i hi
    obtain ⟨j, hj, hcut⟩ := h (i + 1) (by simpa using hi)
    rw [List.take_succ_cons, stream_cons, List.length_append] at hcut
    cases j with
    | zero =>
        rw [cut_zero] at hcut
        omega
    | succ j =>
        rw [shift] at hcut
        exact ⟨j, by simpa using hj, by omega⟩
  · intro h i hi
    cases i with
    | zero => exact ⟨1, by simp, by rw [shift]; simp⟩
    | succ i =>
        obtain ⟨j, hj, hcut⟩ := h i (by simpa using hi)
        refine ⟨j + 1, by simpa using hj, ?_⟩
        rw [shift, hcut]
        simp

/-- A read that goes past the first frame's boundary leaves no read boundary on it. -/
theorem not_alignedFrom_of_lt {enc : β → List α} {b : β} {bs : List β} {n : Nat} {c : List α}
    {cs : List (List α)} (short : n < (enc b).length) (past : (enc b).length < n + c.length) :
    ¬ AlignedFrom enc (b :: bs) n (c :: cs) := by
  intro h
  obtain ⟨j, -, hcut⟩ := h 0 (by simp)
  rw [List.take_succ_cons, List.take_zero, stream_cons, stream_nil, List.append_nil] at hcut
  cases j with
  | zero =>
      rw [cut_zero] at hcut
      omega
  | succ j =>
      rw [cut_succ] at hcut
      have := le_cut (n + c.length) cs j
      omega

/-- Such a read is not on time unless it delivers the first payload. -/
theorem not_onTime_of_lt {enc : β → List α} {good : β → γ} {b : β} {bs : List β} {n : Nat}
    {c : List α} {cs : List (List α)} {out : List (List γ)} {x : γ}
    (past : (enc b).length < n + c.length) (wrong : x ≠ good b) :
    ¬ OnTime enc good (b :: bs) n (c :: cs) ([x] :: out) := by
  intro onTime
  have first := onTime 1 (by simp)
  have reach : cut n (c :: cs) 1 = (enc b).length + (n + c.length - (enc b).length) := by
    rw [cut_succ, cut_zero]
    omega
  rw [reach, arrived_add] at first
  simp only [List.take_succ_cons, List.take_zero, List.flatten_cons, List.flatten_nil,
    List.append_nil, List.map_cons, List.cons.injEq] at first
  exact wrong first.1

/-- The invariant of `feed` on a stream: what is pending is a proper prefix of
the first frame not yet delivered. -/
def Pending (enc : β → List α) (bs : List β) (p : List α) : Prop :=
  match bs with
  | [] => p = []
  | b :: _ => p.length < (enc b).length

theorem pending_nil {enc : β → List α} (nonempty : ∀ b, enc b ≠ []) (bs : List β) :
    Pending enc bs [] := by
  cases bs with
  | nil => rfl
  | cons b bs => exact List.length_pos_iff.mpr (nonempty b)

/-- One read is decided by where it ends: inside the first frame, at its
boundary, or behind it. -/
theorem delivers_iff_alignedFrom {enc : β → List α} {good : β → γ} {r : Receiver σ α γ}
    (d : Drains enc good r) :
    ∀ (cs : List (List α)) (bs : List β) (s : σ), r.Ok s →
      r.pending s ++ cs.flatten = stream enc bs → Pending enc bs (r.pending s) →
      ((OnTime enc good bs (r.pending s).length cs (feed r s cs).1 ∧
          r.pending (feed r s cs).2 = []) ↔
        AlignedFrom enc bs (r.pending s).length cs)
  | [], [], s, _, _, pending => by
      have empty : r.pending s = [] := pending
      simp [OnTime, AlignedFrom, feed, arrived, empty]
  | [], b :: bs, s, _, whole, pending => by
      have := congrArg List.length whole
      simp only [Pending] at pending
      simp at this
      omega
  | c :: cs, [], s, ok, whole, pending => by
      have empty : r.pending s = [] := pending
      rw [empty] at whole
      obtain ⟨rfl, rest⟩ : c = [] ∧ cs.flatten = [] := by simpa using whole
      obtain ⟨quiet, still⟩ := d.idle s [] ok (by simp [empty])
      have ih := delivers_iff_alignedFrom d cs [] (r.read s []).1 (d.ok s [] ok)
        (by simpa [still] using rest) still
      simp only [AlignedFrom, List.length_nil, Nat.not_lt_zero, false_implies, implies_true,
        iff_true, still] at ih ⊢
      refine ⟨fun j hj => ?_, ih.2⟩
      cases j with
      | zero => simp [arrived]
      | succ j => simpa [arrived, feed, quiet] using ih.1 j (by simpa using hj)
  | c :: cs, b :: bs, s, ok, whole, pending => by
      have whole' : (r.pending s ++ c) ++ cs.flatten = enc b ++ stream enc bs := by
        simpa using whole
      have short : (r.pending s).length < (enc b).length := pending
      have ok' := d.ok s c ok
      simp only [feed]
      rcases Nat.lt_trichotomy (r.pending s ++ c).length (enc b).length with lt | eq | gt
      · have isPrefix : r.pending s ++ c <+: enc b :=
          List.prefix_of_prefix_length_le ⟨_, whole'⟩ (List.prefix_append _ _) (Nat.le_of_lt lt)
        have ne : r.pending s ++ c ≠ enc b := fun h => by rw [h] at lt; omega
        obtain ⟨quiet, kept⟩ := d.keeps s c b ok isPrefix ne
        have ih := delivers_iff_alignedFrom d cs (b :: bs) _ ok' (by rw [kept]; simpa using whole')
          (by rw [kept]; exact lt)
        rw [quiet, onTime_keep short, alignedFrom_keep short]
        simpa [kept] using ih
      · obtain ⟨full, rest⟩ := List.append_inj whole' eq
        obtain ⟨x, took, empty, right⟩ := d.takes s c b [] ok (by simpa using full)
        have ih := delivers_iff_alignedFrom d cs bs _ ok' (by rw [empty]; simpa using rest)
          (by rw [empty]; exact pending_nil d.nonempty bs)
        rw [took, right.mpr rfl, onTime_take short (by simpa using eq),
          alignedFrom_take short (by simpa using eq)]
        simpa [empty] using ih
      · obtain ⟨rest, hrest⟩ : enc b <+: r.pending s ++ c :=
          List.prefix_of_prefix_length_le ⟨_, whole'.symm⟩ (List.prefix_append _ _)
            (Nat.le_of_lt gt)
        have restNe : rest ≠ [] := by
          rintro rfl
          rw [← hrest] at gt
          simp at gt
        obtain ⟨x, took, -, right⟩ := d.takes s c b rest ok hrest.symm
        have past : (enc b).length < (r.pending s).length + c.length := by simpa using gt
        rw [took]
        refine iff_of_false ?_ (not_alignedFrom_of_lt short past)
        rintro ⟨onTime, -⟩
        exact not_onTime_of_lt past (fun same => restNe (right.mp same)) onTime

theorem aligned_iff_from {enc : β → List α} {bs : List β} {cs : List (List α)} :
    Aligned enc bs cs ↔ AlignedFrom enc bs 0 cs := by
  constructor
  · intro h i hi
    exact h (i + 1) hi
  · intro h i hi
    cases i with
    | zero => exact ⟨0, by simp, by simp⟩
    | succ i => exact h i hi

/-- **A draining receiver meets the specification exactly on the cuts that break
the stream at every frame boundary.** -/
theorem delivers_iff_aligned {enc : β → List α} {good : β → γ} {r : Receiver σ α γ}
    (d : Drains enc good r) {s : σ} (ok : r.Ok s) (empty : r.pending s = []) {bs : List β}
    {cs : List (List α)} (whole : cs.flatten = stream enc bs) :
    Delivers enc good bs cs (feed r s cs).1 (r.pending (feed r s cs).2) ↔ Aligned enc bs cs := by
  have fromStart := delivers_iff_alignedFrom d cs bs s ok (by simpa [empty] using whole)
    (by rw [empty]; exact pending_nil d.nonempty bs)
  rw [empty, List.length_nil] at fromStart
  rw [aligned_iff_from, ← fromStart]
  exact ⟨fun h => ⟨h.onTime, h.drained⟩, fun h => ⟨h.1, h.2⟩⟩

end LaliRpc.Theory.Framing
