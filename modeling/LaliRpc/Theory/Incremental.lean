/-
# Theory.Incremental — parsers that are given their input in pieces

A `Scanner` looks at the symbols that have come in and are not used yet. It
waits for more of them, uses some and goes on, or uses some and is finished with
a result. What it decides does not change when more symbols follow (`stable`);
only waiting may. `scan` runs it to where it waits or is finished, and `resume`
runs it on from there when more symbols have come in.

Such a parser does not notice how its input was cut: resuming it after every
piece ends as scanning the whole does (`scan_append`, `foldl_resume`).
-/
import Mathlib.Data.List.Basic

namespace LaliRpc.Theory

set_option autoImplicit false

/-- What a scanner makes of the unused symbols. -/
inductive Verdict (σ ρ : Type) where
  | wait
  | next (s : σ) (used : Nat)
  | done (r : ρ) (s : σ) (used : Nat)

structure Scanner (σ α ρ : Type) where
  step : σ → List α → Verdict σ ρ
  uses : ∀ {s p s' n}, step s p = .next s' n → 0 < n ∧ n ≤ p.length
  fits : ∀ {s p r s' n}, step s p = .done r s' n → n ≤ p.length
  stable : ∀ {s p}, step s p ≠ .wait → ∀ q, step s (p ++ q) = step s p

/-- Where a scanner has got to: its state, the symbols it has not used, and its
result once it is finished. -/
structure Scanned (σ α ρ : Type) where
  state : σ
  rest : List α
  result : Option ρ

namespace Scanner

variable {σ α ρ : Type} (m : Scanner σ α ρ)

def scan (s : σ) (p : List α) : Scanned σ α ρ :=
  match _h : m.step s p with
  | .wait => ⟨s, p, none⟩
  | .next s' n => scan s' (p.drop n)
  | .done r s' n => ⟨s', p.drop n, some r⟩
termination_by p.length
decreasing_by
  have := m.uses _h
  simp only [List.length_drop]
  omega

/-- What holds of the state while unfinished, and of result and state in the end. -/
def Meets (I : σ → Prop) (R : ρ → σ → Prop) (w : Scanned σ α ρ) : Prop :=
  match w.result with
  | none => I w.state
  | some r => R r w.state

/-- More symbols have come in; a finished scanner leaves them alone. -/
def resume (w : Scanned σ α ρ) (q : List α) : Scanned σ α ρ :=
  match w.result with
  | none => m.scan w.state (w.rest ++ q)
  | some _ => { w with rest := w.rest ++ q }

variable {m} {s s' : σ} {p : List α} {n : Nat} {r : ρ}

theorem scan_wait (h : m.step s p = .wait) : m.scan s p = ⟨s, p, none⟩ := by
  rw [scan]
  split <;> simp_all

theorem scan_next (h : m.step s p = .next s' n) : m.scan s p = m.scan s' (p.drop n) := by
  rw [scan]
  split <;> simp_all

theorem scan_done (h : m.step s p = .done r s' n) : m.scan s p = ⟨s', p.drop n, some r⟩ := by
  rw [scan]
  split <;> simp_all

/-- **Scanning more symbols is scanning the first of them and resuming.** The
induction is on the symbols left; the step taken on `p` is taken on `p ++ q`. -/
theorem scan_append (s : σ) (p q : List α) : m.scan s (p ++ q) = m.resume (m.scan s p) q := by
  induction hp : p.length using Nat.strongRecOn generalizing s p with
  | _ len ih =>
      cases h : m.step s p with
      | wait => simp [scan_wait h, resume]
      | next s' n =>
          obtain ⟨pos, le⟩ := m.uses h
          have same : m.step s (p ++ q) = .next s' n := by
            rw [m.stable (by simp [h]), h]
          have shorter : (p.drop n).length < len := by
            simp only [List.length_drop]
            omega
          rw [scan_next same, scan_next h, List.drop_append_of_le_length le]
          exact ih _ shorter s' (p.drop n) rfl
      | done r s' n =>
          have same : m.step s (p ++ q) = .done r s' n := by
            rw [m.stable (by simp [h]), h]
          rw [scan_done same, scan_done h, List.drop_append_of_le_length (m.fits h)]
          rfl

/-- What every step keeps holds where the scan has got to. -/
theorem meets_scan {I : σ → Prop} {R : ρ → σ → Prop}
    (next : ∀ {s p s' n}, I s → m.step s p = .next s' n → I s')
    (done : ∀ {s p r s' n}, I s → m.step s p = .done r s' n → R r s')
    (start : I s) (p : List α) : Meets I R (m.scan s p) := by
  induction hp : p.length using Nat.strongRecOn generalizing s p with
  | _ len ih =>
      cases h : m.step s p with
      | wait =>
          rw [scan_wait h]
          exact start
      | next s' n =>
          obtain ⟨pos, le⟩ := m.uses h
          rw [scan_next h]
          apply ih (p.drop n).length ?_ (next start h) (p.drop n) rfl
          simp only [List.length_drop]
          omega
      | done r s' n =>
          rw [scan_done h]
          exact done start h

/-- An unfinished scanner is where it has to wait. -/
def Waits (m : Scanner σ α ρ) (w : Scanned σ α ρ) : Prop :=
  w.result = none → m.step w.state w.rest = .wait

theorem waits_scan (s : σ) (p : List α) : m.Waits (m.scan s p) := by
  induction hp : p.length using Nat.strongRecOn generalizing s p with
  | _ len ih =>
      cases h : m.step s p with
      | wait =>
          intro _
          simpa [scan_wait h] using h
      | next s' n =>
          obtain ⟨pos, le⟩ := m.uses h
          rw [scan_next h]
          apply ih (p.drop n).length ?_ s' (p.drop n) rfl
          simp only [List.length_drop]
          omega
      | done r s' n =>
          intro unfinished
          simp [scan_done h] at unfinished

variable {w : Scanned σ α ρ}

theorem waits_resume (w : Scanned σ α ρ) (q : List α) : m.Waits (m.resume w q) := by
  unfold resume
  split
  · exact waits_scan _ _
  · rename_i finished
    intro unfinished
    simp [finished] at unfinished

theorem resume_nil (waits : m.Waits w) : m.resume w [] = w := by
  obtain ⟨s, p, result⟩ := w
  cases result with
  | none => simp [resume, scan_wait (waits rfl)]
  | some r => simp [resume]

theorem resume_resume (w : Scanned σ α ρ) (q q' : List α) :
    m.resume (m.resume w q) q' = m.resume w (q ++ q') := by
  obtain ⟨s, p, result⟩ := w
  cases result with
  | none =>
      show m.resume (m.scan s (p ++ q)) q' = m.scan s (p ++ (q ++ q'))
      rw [← scan_append, List.append_assoc]
  | some r => simp [resume]

/-- **The cut does not matter**: one piece after another is as good as all of
them at once. -/
theorem foldl_resume (waits : m.Waits w) (pieces : List (List α)) :
    pieces.foldl m.resume w = m.resume w pieces.flatten := by
  induction pieces generalizing w with
  | nil => exact (resume_nil waits).symm
  | cons q pieces ih =>
      rw [List.foldl_cons, ih (waits_resume w q), resume_resume, List.flatten_cons]

end Scanner

end LaliRpc.Theory
