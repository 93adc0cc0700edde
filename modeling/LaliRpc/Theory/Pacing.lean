/-
# Theory.Pacing — receivers that deliver one frame per read

A receiver may look at its pending symbols once per read and deliver at most one
frame, keeping what follows. If it begins a frame as soon as a first part of it,
its head, is there, and forgets that it has begun when the frame is not
complete, the frame is lost: `loses` says that this shows sooner or later.

`Paced` walks along the reads. Each must end before the head of the first frame
not yet delivered is complete, or contain that frame to its end; and every
frame needs a read of its own. Such a receiver delivers exactly the frames on
exactly the paced cuts (`delivers_iff_paced`).
-/
import LaliRpc.Theory.Framing

namespace LaliRpc.Theory.Framing

set_option autoImplicit false

variable {α β γ σ : Type}

/-- The reads `cs` serve the frames `bs`, `n` symbols of which are pending. -/
def Paced (enc : β → List α) (head : β → Nat) : List β → Nat → List (List α) → Prop
  | [], _, _ => True
  | _ :: _, _, [] => False
  | b :: bs, n, c :: cs =>
      if n + c.length < head b then Paced enc head (b :: bs) (n + c.length) cs
      else (enc b).length ≤ n + c.length ∧ Paced enc head bs (n + c.length - (enc b).length) cs

/-- A receiver that keeps a frame whose head is incomplete, delivers a complete
one, and loses one it has begun but cannot complete. -/
structure OnePerRead (enc : β → List α) (head : β → Nat) (good : β → γ) (r : Receiver σ α γ) :
    Prop where
  head_le : ∀ b, head b ≤ (enc b).length
  idle : ∀ s c, r.Ok s → r.pending s ++ c = [] →
    (r.read s c).2 = [] ∧ r.Ok (r.read s c).1 ∧ r.pending (r.read s c).1 = []
  keeps : ∀ s c b, r.Ok s → r.pending s ++ c <+: enc b → (r.pending s ++ c).length < head b →
    (r.read s c).2 = [] ∧ r.Ok (r.read s c).1 ∧ r.pending (r.read s c).1 = r.pending s ++ c
  takes : ∀ s c b rest, r.Ok s → r.pending s ++ c = enc b ++ rest →
    (r.read s c).2 = [good b] ∧ r.Ok (r.read s c).1 ∧ r.pending (r.read s c).1 = rest
  loses : ∀ s c b tail, r.Ok s → r.pending s ++ c ++ tail = enc b → tail ≠ [] →
    head b ≤ (r.pending s ++ c).length → ∀ cs rest, cs.flatten = tail ++ rest →
      ∃ x ∈ (feed r (r.read s c).1 cs).1.flatten, ∀ b', x ≠ good b'

theorem feed_cons (r : Receiver σ α γ) (s : σ) (c : List α) (cs : List (List α)) :
    (feed r s (c :: cs)).1.flatten =
      (r.read s c).2 ++ (feed r (r.read s c).1 cs).1.flatten := by
  simp [feed]

/-- A frame that is lost leaves something that is no frame in the output. -/
theorem ne_map_of_mem {good : β → γ} {out : List γ} {x : γ} (mem : x ∈ out)
    (strange : ∀ b, x ≠ good b) (bs : List β) : out ≠ bs.map good := by
  rintro rfl
  obtain ⟨b, -, same⟩ := List.mem_map.mp mem
  exact strange b same.symm

/-- **One frame per read delivers the frames exactly on the paced cuts.** The
induction is along the reads, each decided by where it ends: before the head of
the first frame is complete, inside that frame, or at its end or behind it. -/
theorem delivers_iff_paced {enc : β → List α} {head : β → Nat} {good : β → γ}
    {r : Receiver σ α γ} (one : OnePerRead enc head good r) {s : σ} (ok : r.Ok s) {bs : List β}
    {cs : List (List α)} (whole : r.pending s ++ cs.flatten = stream enc bs) :
    (feed r s cs).1.flatten = bs.map good ↔ Paced enc head bs (r.pending s).length cs := by
  induction cs generalizing s bs with
  | nil =>
      cases bs with
      | nil => simp [feed, Paced]
      | cons b bs => simp [feed, Paced]
  | cons c cs ih =>
      rw [feed_cons]
      rw [List.flatten_cons, ← List.append_assoc] at whole
      cases bs with
      | nil =>
          obtain ⟨none, rest⟩ := List.append_eq_nil_iff.mp whole
          obtain ⟨quiet, ok', still⟩ := one.idle s c ok none
          have whole' : r.pending (r.read s c).1 ++ cs.flatten = stream enc [] := by
            rw [still, rest, stream_nil, List.append_nil]
          have := ih ok' whole'
          simpa [quiet, Paced] using this
      | cons b bs =>
          rw [stream_cons] at whole
          have le := one.head_le b
          have size : (r.pending s ++ c).length = (r.pending s).length + c.length :=
            List.length_append
          rw [Paced]
          by_cases before : (r.pending s).length + c.length < head b
          · have isPrefix : r.pending s ++ c <+: enc b :=
              List.prefix_of_prefix_length_le ⟨_, whole⟩ (List.prefix_append _ _) (by omega)
            obtain ⟨quiet, ok', kept⟩ := one.keeps s c b ok isPrefix (by omega)
            have whole' : r.pending (r.read s c).1 ++ cs.flatten = stream enc (b :: bs) := by
              rw [kept]
              exact whole
            have := ih ok' whole'
            rw [if_pos before, quiet, List.nil_append, this, kept, size]
          · rw [if_neg before]
            by_cases inside : (r.pending s).length + c.length < (enc b).length
            · obtain ⟨tail, split⟩ : r.pending s ++ c <+: enc b :=
                List.prefix_of_prefix_length_le ⟨_, whole⟩ (List.prefix_append _ _) (by omega)
              have more : tail ≠ [] := by
                intro none
                rw [none, List.append_nil] at split
                rw [← split] at inside
                omega
              have later : cs.flatten = tail ++ stream enc bs := by
                rw [← split, List.append_assoc _ tail] at whole
                exact List.append_cancel_left whole
              obtain ⟨x, mem, strange⟩ :=
                one.loses s c b tail ok split more (by omega) cs _ later
              refine iff_of_false ?_ (by omega)
              exact ne_map_of_mem (List.mem_append_right _ mem) strange (b :: bs)
            · obtain ⟨rest, split⟩ : enc b <+: r.pending s ++ c :=
                List.prefix_of_prefix_length_le ⟨_, whole.symm⟩ (List.prefix_append _ _) (by omega)
              obtain ⟨took, ok', kept⟩ := one.takes s c b rest ok split.symm
              have whole' : rest ++ cs.flatten = stream enc bs := by
                rw [← split, List.append_assoc] at whole
                exact List.append_cancel_left whole
              have := ih ok' (by rw [kept]; exact whole')
              have count : (r.pending s).length + c.length - (enc b).length = rest.length := by
                rw [← size, ← split, List.length_append]
                omega
              rw [took, List.map_cons, List.singleton_append, List.cons.injEq, this, kept, count]
              constructor
              · rintro ⟨-, paced⟩
                exact ⟨by omega, paced⟩
              · rintro ⟨-, paced⟩
                exact ⟨rfl, paced⟩

end LaliRpc.Theory.Framing
