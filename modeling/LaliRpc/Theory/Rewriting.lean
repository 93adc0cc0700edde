/-
# Theory.Rewriting — whether search and replace ends

To replace a word `u` by `v` as long as there is one is to rewrite a text by one
rule. Does it end? For words without borders the order of the replacements does
not matter (`Step.diamond`), so the loop `replaceAll` ends if and only if no
sequence of replacements goes on for ever (`replaceAll_ends_iff`).

For a word in brackets that has no brackets in between there is an exact answer
(`halts_iff`). A loop that has something to replace ends if `u` does not occur in
`v`, and the text does not feed the rule (`Sustains`): a replacement puts ends of
`u` in front and beginnings behind, and two replacements side by side make up a
new `u` of the end of the one and the beginning of the other. To go on like this
for ever, `v` has to begin with two ends and to end with two beginnings that fit
(`Regrows`), and the text has to begin it with a broken word next to a whole one
(`Fed`).

* If the text feeds the rule, so does what a replacement leaves (`Fed.step`).
* If `v` is of that form and the text does not feed it, the replacements leave
  nothing new to replace (`rests_of_quiet`).
* If `v` is not of that form, all texts are rewritten to an end. A text is built up
  from its last letter (`halts_all`); the brackets of `v` in front of the last one
  are dead, or locked by those behind them (`halts_of_calm`).
-/
import LaliRpc.Theory.Substitution

namespace LaliRpc.Theory.Rewriting

open Substitution

set_option autoImplicit false

variable {α : Type} {u v s t : List α}

/-- One occurrence of `u` is replaced. -/
inductive Step (u v : List α) : List α → List α → Prop where
  | replace (a b : List α) : Step u v (a ++ u ++ b) (a ++ v ++ b)

/-- No sequence of replacements goes on for ever. -/
def Halts (u v s : List α) : Prop := Acc (fun t s => Step u v s t) s

theorem Step.occurs (step : Step u v s t) : u <:+: s := by
  cases step with
  | replace a b => exact ⟨a, b, rfl⟩

theorem Step.append_left (step : Step u v s t) (p : List α) : Step u v (p ++ s) (p ++ t) := by
  cases step with
  | replace a b =>
      have moved := Step.replace (u := u) (v := v) (p ++ a) b
      simp only [List.append_assoc] at moved ⊢
      exact moved

theorem halts_of_free (free : Free u s) : Halts u v s :=
  ⟨_, fun _ step => absurd step.occurs free⟩

theorem halts_of_suffix {p : List α} (halts : Halts u v (p ++ s)) : Halts u v s := by
  generalize whole : p ++ s = r at halts
  induction halts generalizing s with
  | intro r _ ih =>
      subst whole
      exact ⟨_, fun t step => ih _ (step.append_left p) rfl⟩

/-- A word that is put in again is never used up. -/
theorem not_halts_of_infix (again : u <:+: v) (occurs : u <:+: s) : ¬ Halts u v s := by
  intro halts
  induction halts with
  | intro s _ ih =>
      obtain ⟨a, b, rfl⟩ := occurs
      apply ih _ (.replace a b)
      exact List.infix_append_of_infix_left (List.infix_append_of_infix_right again)

/-! ## The order of the replacements -/

/-- Two occurrences of a word without borders are the same, or one is in front of
the other. -/
theorem occurrence_ahead {b b' d : List α} (unbordered : Unbordered u)
    (same : u ++ b = d ++ (u ++ b')) :
    (d = [] ∧ b = b') ∨ ∃ e, d = u ++ e ∧ b = e ++ u ++ b' := by
  rcases List.append_eq_append_iff.mp same with ⟨e, rfl, rest⟩ | ⟨e, split, rest⟩
  · exact .inr ⟨e, rfl, by rw [rest, List.append_assoc]⟩
  · have ends : e <:+ u := ⟨d, split.symm⟩
    have starts : e <+: u :=
      List.prefix_of_prefix_length_le ⟨b, rest.symm⟩ (List.prefix_append u b') ends.length_le
    rcases unbordered e ends starts with rfl | rfl
    · rw [List.append_nil] at split
      exact .inr ⟨[], by rw [List.append_nil, split], by simpa using rest.symm⟩
    · have lengths := congrArg List.length split
      rw [List.length_append] at lengths
      have empty : d = [] := List.length_eq_zero_iff.mp (by omega)
      exact .inl ⟨empty, (List.append_cancel_left rest).symm⟩

/-- Different replacements are made up for by each other. -/
theorem Step.diamond {t' : List α} (unbordered : Unbordered u) (step : Step u v s t)
    (step' : Step u v s t') : t = t' ∨ ∃ w, Step u v t w ∧ Step u v t' w := by
  have apart : ∀ a e b : List α, ∃ w, Step u v (a ++ v ++ (e ++ u ++ b)) w ∧
      Step u v (a ++ u ++ e ++ v ++ b) w := by
    intro a e b
    refine ⟨a ++ v ++ e ++ v ++ b, ?_, ?_⟩
    · have later := Step.replace (u := u) (v := v) (a ++ v ++ e) b
      simpa only [List.append_assoc] using later
    · have early := Step.replace (u := u) (v := v) a (e ++ v ++ b)
      simpa only [List.append_assoc] using early
  generalize same : s = s' at step'
  cases step with
  | replace a b =>
      cases step' with
      | replace a' b' =>
          rw [List.append_assoc, List.append_assoc] at same
          rcases List.append_eq_append_iff.mp same with ⟨d, rfl, rest⟩ | ⟨d, rfl, rest⟩
          · rcases occurrence_ahead unbordered rest with ⟨rfl, rfl⟩ | ⟨e, rfl, rfl⟩
            · exact .inl (by rw [List.append_nil])
            · obtain ⟨w, first, second⟩ := apart a e b'
              exact .inr ⟨w, first, by simpa only [List.append_assoc] using second⟩
          · rcases occurrence_ahead unbordered rest with ⟨rfl, rfl⟩ | ⟨e, rfl, rfl⟩
            · exact .inl (by rw [List.append_nil])
            · obtain ⟨w, first, second⟩ := apart a' e b
              exact .inr ⟨w, by simpa only [List.append_assoc] using second, first⟩

/-- After so many replacements nothing is left to replace. -/
inductive Rests (u v : List α) : Nat → List α → Prop where
  | done {s : List α} (free : Free u s) : Rests u v 0 s
  | step {k : Nat} {s t : List α} (first : Step u v s t) (rest : Rests u v k t) :
      Rests u v (k + 1) s

/-- Whatever is replaced first, one replacement less is left. -/
theorem Rests.after (unbordered : Unbordered u) : ∀ {k : Nat} {s t : List α},
    Rests u v (k + 1) s → Step u v s t → Rests u v k t
  | 0, s, t, .step first (.done free), other => by
      rcases first.diamond unbordered other with rfl | ⟨w, again, -⟩
      · exact .done free
      · exact absurd again.occurs free
  | k + 1, s, t, .step first rest, other => by
      rcases first.diamond unbordered other with rfl | ⟨w, here, there⟩
      · exact rest
      · exact .step there (rest.after unbordered here)

theorem Rests.halts (unbordered : Unbordered u) : ∀ {k : Nat} {s : List α},
    Rests u v k s → Halts u v s
  | 0, _, .done free => halts_of_free free
  | _ + 1, _, rests => ⟨_, fun _ step => (rests.after unbordered step).halts unbordered⟩

section Loop

variable [DecidableEq α]

theorem rests_of_replaceAll : ∀ {k : Nat} {s : List α}, (replaceAll u v k s).isSome →
    ∃ m, Rests u v m s
  | k + 1, s, ends => by
      rw [replaceAll] at ends
      cases found : find u s with
      | none => exact ⟨0, .done (find_eq_none_iff.mp found)⟩
      | some i =>
          rw [found] at ends
          obtain ⟨a, b, rfl, rfl⟩ := find_eq_some found
          dsimp only at ends
          rw [← List.length_append, List.drop_left, List.append_assoc a, List.take_left] at ends
          obtain ⟨m, rests⟩ := rests_of_replaceAll ends
          exact ⟨m + 1, .step (.replace a b) rests⟩

theorem replaceAll_of_halts (halts : Halts u v s) : ∃ k, (replaceAll u v k s).isSome := by
  induction halts with
  | intro s _ ih =>
      cases found : find u s with
      | none => exact ⟨1, by rw [replaceAll, found]; rfl⟩
      | some i =>
          obtain ⟨a, b, rfl, rfl⟩ := find_eq_some found
          obtain ⟨k, ends⟩ := ih _ (.replace a b)
          refine ⟨k + 1, ?_⟩
          rw [replaceAll, found]
          dsimp only
          rw [← List.length_append, List.drop_left, List.append_assoc a, List.take_left]
          exact ends

/-- **The loop ends if and only if no sequence of replacements goes on for ever.** -/
theorem replaceAll_ends_iff (unbordered : Unbordered u) :
    (∃ k, (replaceAll u v k s).isSome) ↔ Halts u v s := by
  constructor
  · rintro ⟨k, ends⟩
    obtain ⟨m, rests⟩ := rests_of_replaceAll ends
    exact rests.halts unbordered
  · exact replaceAll_of_halts

/-- The text that the loop leaves, if it ends. -/
noncomputable def residue (u v s : List α) : List α :=
  Classical.epsilon fun t => ∃ k, replaceAll u v k s = some t

theorem replaceAll_residue (ends : ∃ k, (replaceAll u v k s).isSome) :
    ∃ k, replaceAll u v k s = some (residue u v s) := by
  obtain ⟨k, found⟩ := ends
  obtain ⟨t, done⟩ := Option.isSome_iff_exists.mp found
  exact Classical.epsilon_spec (p := fun t => ∃ k, replaceAll u v k s = some t) ⟨t, k, done⟩

end Loop

/-! ## Words in brackets -/

/-- The brackets of the word `o :: n ++ [c]`. -/
structure Brackets (o c : α) (n : List α) : Prop where
  ne : c ≠ o
  noOpen : o ∉ n
  noClose : c ∉ n

/-- A text without brackets. -/
def Letters (o c : α) (t : List α) : Prop := o ∉ t ∧ c ∉ t

variable {o c : α} {n a b w z : List α}

theorem Brackets.reverse (brackets : Brackets o c n) : Brackets c o n.reverse :=
  ⟨brackets.ne.symm, fun mem => brackets.noClose (List.mem_reverse.mp mem),
    fun mem => brackets.noOpen (List.mem_reverse.mp mem)⟩

theorem Letters.reverse (letters : Letters o c t) : Letters c o t.reverse :=
  ⟨fun mem => letters.2 (List.mem_reverse.mp mem), fun mem => letters.1 (List.mem_reverse.mp mem)⟩

theorem Brackets.unbordered (brackets : Brackets o c n) : Unbordered (o :: n ++ [c]) :=
  unbordered_brackets brackets.ne brackets.noClose

theorem word_nonempty : o :: n ++ [c] ≠ [] := List.cons_ne_nil _ _

/-- The first occurrence of a letter is in one place. -/
theorem first_unique {d : α} : ∀ {a a' b b' : List α}, d ∉ a → d ∉ a' →
    a ++ d :: b = a' ++ d :: b' → a = a' ∧ b = b'
  | [], [], _, _, _, _, same => ⟨rfl, (List.cons.inj same).2⟩
  | [], _ :: _, _, _, _, new, same => absurd ((List.cons.inj same).1 ▸ List.mem_cons_self) new
  | _ :: _, [], _, _, new, _, same =>
      absurd ((List.cons.inj same).1.symm ▸ List.mem_cons_self) new
  | _ :: _, _ :: _, _, _, new, new', same => by
      obtain ⟨rfl, rest⟩ := List.cons.inj same
      obtain ⟨rfl, rfl⟩ := first_unique (fun mem => new (List.mem_cons_of_mem _ mem))
        (fun mem => new' (List.mem_cons_of_mem _ mem)) rest
      exact ⟨rfl, rfl⟩

/-- The first bracket of a text. -/
theorem first_bracket (o c : α) (s : List α) : Letters o c s ∨
    ∃ z s', Letters o c z ∧ (s = z ++ o :: s' ∨ s = z ++ c :: s') := by
  induction s with
  | nil => exact .inl ⟨List.not_mem_nil, List.not_mem_nil⟩
  | cons d s ih =>
      by_cases opens : d = o
      · exact .inr ⟨[], s, ⟨List.not_mem_nil, List.not_mem_nil⟩, .inl (by rw [opens]; rfl)⟩
      by_cases closes : d = c
      · exact .inr ⟨[], s, ⟨List.not_mem_nil, List.not_mem_nil⟩, .inr (by rw [closes]; rfl)⟩
      have letter : ∀ {t : List α}, Letters o c t → Letters o c (d :: t) := fun letters =>
        ⟨List.not_mem_cons_of_ne_of_not_mem (Ne.symm opens) letters.1,
          List.not_mem_cons_of_ne_of_not_mem (Ne.symm closes) letters.2⟩
      rcases ih with letters | ⟨z, s', letters, rfl | rfl⟩
      · exact .inl (letter letters)
      · exact .inr ⟨d :: z, s', letter letters, .inl rfl⟩
      · exact .inr ⟨d :: z, s', letter letters, .inr rfl⟩

/-- And the last one. -/
theorem last_bracket (o c : α) (s : List α) : Letters o c s ∨
    ∃ s' z, Letters o c z ∧ (s = s' ++ o :: z ∨ s = s' ++ c :: z) := by
  rcases first_bracket c o s.reverse with letters | ⟨z, s', letters, split⟩
  · exact .inl (List.reverse_reverse s ▸ letters.reverse)
  · refine .inr ⟨s'.reverse, z.reverse, letters.reverse, ?_⟩
    rw [← List.reverse_inj, ← @List.reverse_inj _ s]
    simpa [or_comm] using split

/-! ### Where a word can be -/

/-- A word is not across a closing bracket. -/
theorem behind_closer (brackets : Brackets o c n) (free : Free (o :: n ++ [c]) (w ++ [c]))
    (same : w ++ c :: s = a ++ (o :: n ++ [c]) ++ b) :
    ∃ a', a = w ++ c :: a' ∧ s = a' ++ (o :: n ++ [c]) ++ b := by
  rw [List.append_assoc] at same
  rcases List.append_eq_append_iff.mp same with ⟨d, rfl, rest⟩ | ⟨d, rfl, rest⟩
  · cases d with
    | nil => exact absurd (List.cons.inj rest).1 brackets.ne
    | cons e d =>
        obtain ⟨rfl, rfl⟩ := List.cons.inj rest
        exact ⟨d, rfl, (List.append_assoc _ _ _).symm⟩
  · have foreign : c ∉ o :: n :=
      List.not_mem_cons_of_ne_of_not_mem brackets.ne brackets.noClose
    rw [List.append_assoc, List.singleton_append] at rest
    exfalso
    rcases List.append_eq_append_iff.mp rest with ⟨e, rfl, cut⟩ | ⟨e, split, cut⟩
    · cases e with
      | nil => exact free ⟨a, [], by simp⟩
      | cons f e =>
          obtain ⟨rfl, rfl⟩ := List.cons.inj cut
          exact free ⟨a, e ++ [c], by simp⟩
    · cases e with
      | nil =>
          rw [List.append_nil] at split
          exact free ⟨a, [], by simp [split]⟩
      | cons f e =>
          obtain ⟨rfl, -⟩ := List.cons.inj cut
          exact foreign (split ▸ List.mem_append_right d List.mem_cons_self)

/-- A word is not across an opening bracket. -/
theorem around_opener (brackets : Brackets o c n) (free : Free (o :: n ++ [c]) w)
    (same : w ++ o :: s = a ++ (o :: n ++ [c]) ++ b) :
    ∃ a', a = w ++ a' ∧ o :: s = a' ++ (o :: n ++ [c]) ++ b := by
  rw [List.append_assoc] at same
  rcases List.append_eq_append_iff.mp same with ⟨d, rfl, rest⟩ | ⟨d, rfl, rest⟩
  · exact ⟨d, rfl, rest.trans (List.append_assoc _ _ _).symm⟩
  · cases d with
    | nil => exact ⟨[], by rw [List.append_nil, List.append_nil], rest.symm⟩
    | cons e d =>
        obtain rfl := (List.cons.inj rest).1
        have rest : n ++ c :: b = d ++ o :: s := by simpa using rest
        exfalso
        rcases List.append_eq_append_iff.mp rest with ⟨f, rfl, cut⟩ | ⟨f, split, cut⟩
        · cases f with
          | nil => exact brackets.ne (List.cons.inj cut).1
          | cons g f =>
              obtain ⟨rfl, rfl⟩ := List.cons.inj cut
              exact free ⟨a, f, by simp⟩
        · cases f with
          | nil => exact brackets.ne (List.cons.inj cut).1.symm
          | cons g f =>
              obtain ⟨rfl, -⟩ := List.cons.inj cut
              exact brackets.noOpen (split ▸ List.mem_append_right d List.mem_cons_self)

/-- A word begins with its bracket. -/
theorem behind_letters (noOpen : o ∉ z) (same : z ++ s = a ++ (o :: n ++ [c]) ++ b) :
    ∃ a', a = z ++ a' ∧ s = a' ++ (o :: n ++ [c]) ++ b := by
  rw [List.append_assoc] at same
  rcases List.append_eq_append_iff.mp same with ⟨d, rfl, rest⟩ | ⟨d, rfl, rest⟩
  · exact ⟨d, rfl, rest.trans (List.append_assoc _ _ _).symm⟩
  · cases d with
    | nil => exact ⟨[], by rw [List.append_nil, List.append_nil], rest.symm⟩
    | cons e d =>
        obtain ⟨rfl, -⟩ := List.cons.inj rest
        exact absurd (List.mem_append_right a List.mem_cons_self) noOpen

theorem free_of_noOpen (noOpen : o ∉ s) : Free (o :: n ++ [c]) s :=
  fun occurs => noOpen (occurs.subset List.mem_cons_self)

/-! ### What a step does -/

theorem Step.behind_closer (brackets : Brackets o c n) (free : Free (o :: n ++ [c]) (w ++ [c]))
    (step : Step (o :: n ++ [c]) v (w ++ c :: s) t) :
    ∃ s', t = w ++ c :: s' ∧ Step (o :: n ++ [c]) v s s' := by
  generalize same : w ++ c :: s = r at step
  cases step with
  | replace a b =>
      obtain ⟨a', rfl, rfl⟩ := Rewriting.behind_closer brackets free same
      exact ⟨a' ++ v ++ b, by simp, .replace a' b⟩

theorem Step.around_opener (brackets : Brackets o c n) (free : Free (o :: n ++ [c]) w)
    (step : Step (o :: n ++ [c]) v (w ++ o :: s) t) :
    ∃ s', t = w ++ s' ∧ Step (o :: n ++ [c]) v (o :: s) s' := by
  generalize same : w ++ o :: s = r at step
  cases step with
  | replace a b =>
      obtain ⟨a', rfl, rest⟩ := Rewriting.around_opener brackets free same
      rw [rest]
      exact ⟨a' ++ v ++ b, by simp, .replace a' b⟩

theorem Step.behind_letters (noOpen : o ∉ z) (step : Step (o :: n ++ [c]) v (z ++ s) t) :
    ∃ s', t = z ++ s' ∧ Step (o :: n ++ [c]) v s s' := by
  generalize same : z ++ s = r at step
  cases step with
  | replace a b =>
      obtain ⟨a', rfl, rfl⟩ := Rewriting.behind_letters noOpen same
      exact ⟨a' ++ v ++ b, by simp, .replace a' b⟩

/-- Behind an opening bracket, or of the word that begins with it. -/
theorem Step.at_opener (step : Step (o :: n ++ [c]) v (o :: s) t) :
    (∃ s', t = o :: s' ∧ Step (o :: n ++ [c]) v s s') ∨ ∃ b, s = n ++ c :: b ∧ t = v ++ b := by
  generalize same : o :: s = r at step
  cases step with
  | replace a b =>
      cases a with
      | nil =>
          obtain ⟨-, rfl⟩ := List.cons.inj same
          exact .inr ⟨b, by simp, rfl⟩
      | cons d a =>
          obtain ⟨rfl, rfl⟩ := List.cons.inj same
          exact .inl ⟨a ++ v ++ b, rfl, .replace a b⟩

/-! ### Dead brackets -/

theorem halts_behind_closer (brackets : Brackets o c n) (free : Free (o :: n ++ [c]) (w ++ [c]))
    (halts : Halts (o :: n ++ [c]) v s) : Halts (o :: n ++ [c]) v (w ++ c :: s) := by
  induction halts with
  | intro s _ ih =>
      refine ⟨_, fun t step => ?_⟩
      obtain ⟨s', rfl, later⟩ := step.behind_closer brackets free
      exact ih s' later

theorem halts_behind_letters (noOpen : o ∉ z) (halts : Halts (o :: n ++ [c]) v s) :
    Halts (o :: n ++ [c]) v (z ++ s) := by
  induction halts with
  | intro s _ ih =>
      refine ⟨_, fun t step => ?_⟩
      obtain ⟨s', rfl, later⟩ := step.behind_letters noOpen
      exact ih s' later

/-- Brackets in front of one that never closes are never closed either. -/
theorem halts_around_opener (brackets : Brackets o c n) (Locked : List α → Prop)
    (free : Free (o :: n ++ [c]) w)
    (kept : ∀ s s', Locked s → Step (o :: n ++ [c]) v s s' → Locked s')
    (blocked : ∀ b, ¬ Locked (n ++ c :: b)) (locked : Locked s)
    (halts : Halts (o :: n ++ [c]) v s) : Halts (o :: n ++ [c]) v (w ++ o :: s) := by
  induction halts with
  | intro s _ ih =>
      refine ⟨_, fun t step => ?_⟩
      obtain ⟨s', rfl, here⟩ := step.around_opener brackets free
      rcases here.at_opener with ⟨s', rfl, later⟩ | ⟨b, rfl, -⟩
      · exact ih s' later (kept s s' locked later)
      · exact absurd locked (blocked b)

/-! ### From the last letter to the first -/

/-- **Texts are built up from behind.** It is enough if what is put in halts in
front of any text that does, whatever opening bracket stands there. -/
theorem halts_all
    (builds : ∀ b, Halts (o :: n ++ [c]) v b →
      (∀ z, Letters o c z → Halts (o :: n ++ [c]) v (o :: (z ++ b))) →
        Halts (o :: n ++ [c]) v (v ++ b)) (letters : Letters o c n) (s : List α) :
    Halts (o :: n ++ [c]) v s := by
  -- the outer induction is for replacements in `r`, the inner one for those that use up its front
  have opener : ∀ r, Halts (o :: n ++ [c]) v r → ∀ p b, r = p ++ b → ∀ z, Letters o c z →
      Halts (o :: n ++ [c]) v (o :: (z ++ b)) := by
    intro r halts
    induction halts with
    | intro r halts ih =>
        intro p b
        induction hlen : b.length using Nat.strong_induction_on generalizing p b with
        | _ k inner =>
            intro split z letters
            subst split
            refine ⟨_, fun t step => ?_⟩
            rcases step.at_opener with ⟨s', rfl, later⟩ | ⟨b', split, rfl⟩
            · obtain ⟨b', rfl, behind⟩ := later.behind_letters letters.1
              exact ih (p ++ b') (behind.append_left p) p b' rfl z letters
            · obtain ⟨d, rfl⟩ : ∃ d, b = d ++ c :: b' := by
                rcases List.append_eq_append_iff.mp split with ⟨d, -, rfl⟩ | ⟨d, rfl, cut⟩
                · exact ⟨d, rfl⟩
                · cases d with
                  | nil => exact ⟨[], cut.symm⟩
                  | cons e d =>
                      obtain ⟨rfl, -⟩ := List.cons.inj cut
                      exact absurd (List.mem_append_right n List.mem_cons_self) letters.2
              have whole : p ++ (d ++ c :: b') = (p ++ d ++ [c]) ++ b' := by simp
              have here : Halts (o :: n ++ [c]) v (p ++ (d ++ c :: b')) := ⟨_, halts⟩
              apply builds b'
              · exact halts_of_suffix (whole ▸ here)
              · intro z' letters'
                refine inner b'.length ?_ (p ++ d ++ [c]) b' rfl whole z' letters'
                rw [← hlen, List.length_append, List.length_cons]
                omega
  induction s with
  | nil => exact halts_of_free (free_nil word_nonempty)
  | cons d s ih =>
      by_cases opens : d = o
      · subst opens
        exact opener s ih [] s rfl [] ⟨List.not_mem_nil, List.not_mem_nil⟩
      · exact halts_behind_letters (z := [d]) (by simpa using Ne.symm opens) ih

theorem Brackets.letters (brackets : Brackets o c n) : Letters o c n :=
  ⟨brackets.noOpen, brackets.noClose⟩

/-- Behind the last closing bracket of what is put in, nothing opens. -/
theorem halts_of_closed (brackets : Brackets o c n)
    (free : Free (o :: n ++ [c]) (w ++ c :: z)) (noOpen : o ∉ z) (s : List α) :
    Halts (o :: n ++ [c]) (w ++ c :: z) s := by
  refine halts_all (fun b halts _ => ?_) brackets.letters s
  rw [List.append_assoc, List.cons_append]
  apply halts_behind_closer brackets
  · rw [List.append_cons w] at free
    exact free.left
  · exact halts_behind_letters noOpen halts

/-- In front of the text is another opening bracket, or a closing one that does not
fit. -/
def Locked (o c : α) (y z s : List α) : Prop :=
  (∃ r, s = y ++ o :: r) ∨ ∃ r, s = y ++ z ++ c :: r

theorem Locked.step {y r : List α} (brackets : Brackets o c n) (inY : Letters o c y)
    (inZ : Letters o c z) (locked : Locked o c y z s)
    (step : Step (o :: n ++ [c]) (z ++ c :: r) s t) : Locked o c y z t := by
  rcases locked with ⟨q, rfl⟩ | ⟨q, rfl⟩
  · obtain ⟨s', rfl, later⟩ := step.behind_letters inY.1
    rcases later.at_opener with ⟨q', rfl, -⟩ | ⟨b, -, rfl⟩
    · exact .inl ⟨q', rfl⟩
    · exact .inr ⟨r ++ b, by simp⟩
  · have noOpen : o ∉ y ++ z ++ [c] := by
      simp [inY.1, inZ.1, brackets.ne.symm]
    obtain ⟨q', rfl, -⟩ := step.behind_closer brackets (free_of_noOpen noOpen)
    exact .inr ⟨q', rfl⟩

theorem not_locked {y : List α} (brackets : Brackets o c n) (inY : Letters o c y)
    (inZ : Letters o c z) (other : y ++ z ≠ n) : ¬ Locked o c y z (n ++ c :: b) := by
  rintro (⟨r, same⟩ | ⟨r, same⟩)
  · rcases List.append_eq_append_iff.mp same with ⟨d, rfl, cut⟩ | ⟨d, rfl, cut⟩
    · cases d with
      | nil => exact brackets.ne (List.cons.inj cut).1
      | cons e d =>
          obtain ⟨rfl, -⟩ := List.cons.inj cut
          exact inY.2 (List.mem_append_right n List.mem_cons_self)
    · cases d with
      | nil => exact brackets.ne (List.cons.inj cut).1.symm
      | cons e d =>
          obtain ⟨rfl, -⟩ := List.cons.inj cut
          exact brackets.noOpen (List.mem_append_right y List.mem_cons_self)
  · have noClose : c ∉ y ++ z := by simp [inY.2, inZ.2]
    exact other (first_unique brackets.noClose noClose same).1.symm

/-- Between the last two brackets of what is put in, and in front of the first one,
is not what is between the brackets of the word. -/
theorem halts_of_calm {v' : List α} (brackets : Brackets o c n)
    (free : Free (o :: n ++ [c]) v) (first : v = z ++ c :: v') (inZ : Letters o c z)
    (last : v = w ++ o :: t) (inT : Letters o c t)
    (calm : ∀ w' y, w = w' ++ o :: y → Letters o c y → y ++ z ≠ n) (s : List α) :
    Halts (o :: n ++ [c]) v s := by
  refine halts_all (fun b _ opened => ?_) brackets.letters s
  have behind := opened t inT
  have closes : c ∈ w := by
    have mem : c ∈ w ++ o :: t := last ▸ first ▸ List.mem_append_right z List.mem_cons_self
    simpa [brackets.ne, inT.2] using mem
  rcases last_bracket o c w with letters | ⟨w', y, inY, rfl | rfl⟩
  · exact absurd closes letters.2
  · -- the bracket in front of the last one
    have shape : v ++ b = w' ++ o :: (y ++ o :: (t ++ b)) := by simp [last]
    rw [shape]
    apply halts_around_opener brackets (Locked o c y z)
    · rw [last, List.append_assoc] at free
      exact free.left
    · intro s s' locked step
      exact locked.step brackets inY inZ (first ▸ step)
    · exact fun b => not_locked brackets inY inZ (calm w' y rfl inY)
    · exact .inl ⟨t ++ b, rfl⟩
    · exact halts_behind_letters inY.1 behind
  · have shape : v ++ b = w' ++ c :: (y ++ o :: (t ++ b)) := by simp [last]
    rw [shape]
    apply halts_behind_closer brackets
    · have split : v = (w' ++ [c]) ++ (y ++ o :: t) := by simp [last]
      rw [split] at free
      exact free.left
    · exact halts_behind_letters inY.1 behind

/-! ### Read backwards -/

theorem Step.reverse (step : Step u v s t) : Step u.reverse v.reverse s.reverse t.reverse := by
  cases step with
  | replace a b =>
      have mirrored := Step.replace (u := u.reverse) (v := v.reverse) b.reverse a.reverse
      simpa only [List.reverse_append, List.append_assoc] using mirrored

theorem halts_of_reverse (halts : Halts u.reverse v.reverse s.reverse) : Halts u v s := by
  generalize mirrored : s.reverse = r at halts
  induction halts generalizing s with
  | intro r _ ih =>
      subst mirrored
      exact ⟨_, fun t step => ih _ step.reverse rfl⟩

theorem word_reverse : (o :: n ++ [c]).reverse = c :: n.reverse ++ [o] := by simp

theorem free_reverse (free : Free (o :: n ++ [c]) s) : Free (c :: n.reverse ++ [o]) s.reverse := by
  rw [← word_reverse]
  exact fun occurs => free (List.reverse_infix.mp occurs)

theorem halts_of_mirrored {r : List α} (mirrored : r = v.reverse)
    (halts : ∀ s, Halts (c :: n.reverse ++ [o]) r s) (s : List α) :
    Halts (o :: n ++ [c]) v s := by
  apply halts_of_reverse
  rw [word_reverse, ← mirrored]
  exact halts s.reverse

/-! ## Rules that go on -/

/-- Two ways to break the word, such that the replacement begins with the two ends
and ends with the two beginnings. -/
structure Regrows (u v x x' y y' m : List α) : Prop where
  broken : u = x ++ x'
  broken' : u = y' ++ y
  nonempty : ∀ p ∈ [x, x', y, y'], p ≠ []
  shape : v = y ++ x' ++ m ++ y' ++ x

/-- A rule of another form rewrites all texts to an end. -/
theorem halts_of_not_regrows (brackets : Brackets o c n) (free : Free (o :: n ++ [c]) v)
    (other : ∀ x x' y y' m, ¬ Regrows (o :: n ++ [c]) v x x' y y' m) (s : List α) :
    Halts (o :: n ++ [c]) v s := by
  rcases last_bracket o c v with letters | ⟨w, t, inT, last | rfl⟩
  · exact halts_all (fun b halts _ => halts_behind_letters letters.1 halts) brackets.letters s
  swap
  · exact halts_of_closed brackets free inT.1 s
  rcases first_bracket o c v with letters | ⟨z, v', inZ, rfl | first⟩
  · exact absurd (last ▸ List.mem_append_right w List.mem_cons_self) letters.1
  · have mirrored : v'.reverse ++ o :: z.reverse = (z ++ o :: v').reverse := by simp
    refine halts_of_mirrored mirrored (halts_of_closed brackets.reverse ?_ inZ.reverse.1) s
    exact mirrored ▸ free_reverse free
  by_cases calm : ∀ w' y, w = w' ++ o :: y → Letters o c y → y ++ z ≠ n
  · exact halts_of_calm brackets free first inZ last inT calm s
  by_cases calm' : ∀ v'' y, v' = y ++ c :: v'' → Letters o c y → t ++ y ≠ n
  · have first' : v.reverse = t.reverse ++ o :: w.reverse := by simp [last]
    have last' : v.reverse = v'.reverse ++ c :: z.reverse := by simp [first]
    refine halts_of_mirrored rfl (halts_of_calm brackets.reverse (free_reverse free) first'
      inT.reverse last' inZ.reverse ?_) s
    intro w' y split inY same
    apply calm' w'.reverse y.reverse _ inY.reverse
    · simpa using congrArg List.reverse same
    · simpa using congrArg List.reverse split
  · push Not at calm calm'
    obtain ⟨w', y, rfl, inY, same⟩ := calm
    obtain ⟨v'', y', rfl, inY', same'⟩ := calm'
    have noOpen : o ∉ z ++ c :: (y' ++ [c]) := by
      simp [inZ.1, inY'.1, brackets.ne.symm]
    obtain ⟨m, rfl⟩ : ∃ m, w' = z ++ c :: (y' ++ [c]) ++ m := by
      have both : (z ++ c :: (y' ++ [c])) ++ v'' = w' ++ o :: (y ++ o :: t) := by
        have twice := first.symm.trans last
        simpa using twice
      rcases List.append_eq_append_iff.mp both with ⟨m, rfl, -⟩ | ⟨m, split, cut⟩
      · exact ⟨m, rfl⟩
      · cases m with
        | nil => exact ⟨[], by rw [List.append_nil, split, List.append_nil]⟩
        | cons e m =>
            obtain ⟨rfl, -⟩ := List.cons.inj cut
            exact absurd (split ▸ List.mem_append_right w' List.mem_cons_self) noOpen
    refine absurd ⟨?_, ?_, ?_, ?_⟩ (other (o :: t) (y' ++ [c]) (z ++ [c]) (o :: y) m)
    · simp [← same']
    · simp [← same]
    · simp
    · simp [last]

/-- The text has one of the broken words next to a whole one, or a piece between
two whole ones that is what the two breaks leave of it. -/
def Fed (u x x' y y' s : List α) : Prop :=
  y' ++ u <:+: s ∨ u ++ x' <:+: s ∨ ∃ g, x ++ g ++ y = u ∧ u ++ g ++ u <:+: s

/-- There is always something to replace. -/
def Sustains (u v s : List α) : Prop :=
  ∃ x x' y y' m, Regrows u v x x' y y' m ∧ Fed u x x' y y' s

section Regrows

variable {x x' y y' m : List α}

theorem Fed.occurs (fed : Fed u x x' y y' s) : u <:+: s := by
  rcases fed with front | behind | ⟨g, -, both⟩
  · exact (List.suffix_append y' u).isInfix.trans front
  · exact (List.prefix_append u x').isInfix.trans behind
  · exact (List.suffix_append (u ++ g) u).isInfix.trans both

/-- The broken word that a replacement completes has another one beside it. -/
theorem Fed.step (regrows : Regrows u v x x' y y' m) (fed : Fed u x x' y y' s) :
    ∃ t, Step u v s t ∧ Fed u x x' y y' t := by
  rcases fed with ⟨a, b, rfl⟩ | ⟨a, b, rfl⟩ | ⟨g, whole, a, b, rfl⟩
  · have step := Step.replace (u := u) (v := v) (a ++ y') b
    refine ⟨_, by simpa only [List.append_assoc] using step, .inr (.inl ⟨a, m ++ y' ++ x ++ b, ?_⟩)⟩
    rw [regrows.shape, regrows.broken']
    simp only [List.append_assoc]
  · have step := Step.replace (u := u) (v := v) a (x' ++ b)
    refine ⟨_, by simpa only [List.append_assoc] using step, .inl ⟨a ++ y ++ x' ++ m, b, ?_⟩⟩
    rw [regrows.shape, regrows.broken]
    simp only [List.append_assoc]
  · have fits : y' = x ++ g := List.append_cancel_right (regrows.broken'.symm.trans whole.symm)
    have step := Step.replace (u := u) (v := v) a (g ++ u ++ b)
    refine ⟨_, by simpa only [List.append_assoc] using step,
      .inl ⟨a ++ y ++ x' ++ m ++ y', b, ?_⟩⟩
    rw [regrows.shape, fits]
    simp only [List.append_assoc]

theorem not_halts_of_fed (regrows : Regrows u v x x' y y' m) (fed : Fed u x x' y y' s) :
    ¬ Halts u v s := by
  intro halts
  induction halts with
  | intro s _ ih =>
      obtain ⟨t, step, again⟩ := fed.step regrows
      exact ih t step again

/-- What a word in brackets is broken into. -/
theorem broken_word (same : o :: n ++ [c] = x ++ x') (first : x ≠ []) (second : x' ≠ []) :
    ∃ d e, n = d ++ e ∧ x = o :: d ∧ x' = e ++ [c] := by
  obtain ⟨f, d, rfl⟩ := List.exists_cons_of_ne_nil first
  obtain ⟨e, g, rfl⟩ := (List.eq_nil_or_concat x').resolve_left second
  rw [List.cons_append, List.cons_append] at same
  obtain ⟨rfl, rest⟩ := List.cons.inj same
  rw [List.concat_eq_append, ← List.append_assoc] at rest
  obtain ⟨rfl, last⟩ := List.append_inj' rest rfl
  obtain rfl := List.singleton_inj.mp last
  exact ⟨d, e, rfl, rfl, List.concat_eq_append⟩

theorem free_append_letters (noClose : c ∉ z) (free : Free (o :: n ++ [c]) a) :
    Free (o :: n ++ [c]) (a ++ z) := by
  rintro ⟨p, q, same⟩
  apply free
  have mirrored : z.reverse ++ a.reverse = q.reverse ++ (c :: n.reverse ++ [o]) ++ p.reverse := by
    simpa using congrArg List.reverse same.symm
  obtain ⟨r, -, there⟩ := Rewriting.behind_letters (by simpa using noClose) mirrored
  exact ⟨p, r.reverse, by simpa using (congrArg List.reverse there).symm⟩

/-- **In a text that does not feed the rule**, what has been put in for the first
word is in front of all words that are left. -/
theorem only_behind {q p : List α} (brackets : Brackets o c n)
    (regrows : Regrows (o :: n ++ [c]) v x x' y y' m) (free : Free (o :: n ++ [c]) v)
    (early : Free (o :: n ++ [c]) a)
    (quiet : ¬ Fed (o :: n ++ [c]) x x' y y' (a ++ (o :: n ++ [c]) ++ b))
    (same : a ++ v ++ b = p ++ (o :: n ++ [c]) ++ q) :
    ∃ p', p = a ++ v ++ p' ∧ b = p' ++ (o :: n ++ [c]) ++ q := by
  obtain ⟨d, e, split, rfl, rfl⟩ := broken_word regrows.broken
    (regrows.nonempty _ (by simp)) (regrows.nonempty _ (by simp))
  obtain ⟨f, g, split', rfl, rfl⟩ := broken_word regrows.broken'
    (regrows.nonempty _ (by simp)) (regrows.nonempty _ (by simp))
  have shape := regrows.shape
  have inD : o ∉ d := fun mem => brackets.noOpen (split ▸ List.mem_append_left e mem)
  have inG : c ∉ g := fun mem => brackets.noClose (split' ▸ List.mem_append_right f mem)
  -- no word ends where the first end of a word has been put in
  have front : Free (o :: n ++ [c]) (a ++ g ++ [c]) := by
    intro occurs
    rcases List.infix_concat_iff.mp occurs with ends | inside
    · obtain ⟨r, ends⟩ := ends
      have broken : r ++ o :: f ++ (g ++ [c]) = a ++ (g ++ [c]) := by simpa [split'] using ends
      obtain rfl := List.append_cancel_right broken
      exact quiet (.inl ⟨r, b, by simp⟩)
    · exact free_append_letters inG early inside
  have middle : Free (o :: n ++ [c]) (e ++ [c] ++ m ++ o :: f) := by
    intro occurs
    apply free
    rw [shape]
    exact occurs.trans ⟨g ++ [c], o :: d, by simp⟩
  have whole : (a ++ g) ++ c :: ((e ++ [c] ++ m ++ o :: f) ++ o :: (d ++ b)) =
      p ++ (o :: n ++ [c]) ++ q := by
    rw [← same, shape]
    simp
  obtain ⟨p, rfl, rest⟩ := Rewriting.behind_closer brackets front whole
  obtain ⟨p, rfl, here⟩ := Rewriting.around_opener brackets middle rest
  cases p with
  | nil =>
      -- the last beginning of a word is completed by what is behind
      have completed : d ++ b = d ++ (e ++ c :: q) := by simpa [split] using here
      obtain rfl := List.append_cancel_left completed
      exact absurd (.inr (.inl ⟨a, q, by simp⟩)) quiet
  | cons h p =>
      obtain ⟨rfl, further⟩ := List.cons.inj here
      obtain ⟨p', rfl, rfl⟩ := Rewriting.behind_letters inD further
      exact ⟨p', by simp [shape], rfl⟩

/-- The last occurrence of a letter is in one place. -/
theorem last_unique {h : α} {r r' : List α} (absent : h ∉ b) (absent' : h ∉ r')
    (same : a ++ h :: b = r ++ h :: r') : b = r' := by
  have mirrored : b.reverse ++ h :: a.reverse = r'.reverse ++ h :: r.reverse := by
    simpa using congrArg List.reverse same
  obtain ⟨tails, -⟩ := first_unique (by simpa using absent) (by simpa using absent') mirrored
  exact List.reverse_inj.mp tails

/-- A replacement does not begin to feed the rule. -/
theorem quiet_step (brackets : Brackets o c n) (regrows : Regrows (o :: n ++ [c]) v x x' y y' m)
    (free : Free (o :: n ++ [c]) v) (early : Free (o :: n ++ [c]) a)
    (quiet : ¬ Fed (o :: n ++ [c]) x x' y y' (a ++ (o :: n ++ [c]) ++ b)) :
    ¬ Fed (o :: n ++ [c]) x x' y y' (a ++ v ++ b) := by
  have behind : ∀ {p q : List α}, a ++ v ++ b = p ++ (o :: n ++ [c]) ++ q → _ :=
    fun same => only_behind brackets regrows free early quiet same
  rintro (⟨p, q, same⟩ | ⟨p, q, same⟩ | ⟨g, whole, p, q, same⟩)
  · rw [← List.append_assoc p] at same
    obtain ⟨p', place, rfl⟩ := behind same.symm
    rcases List.append_eq_append_iff.mp place with ⟨r, front, rfl⟩ | ⟨r, rfl, rfl⟩
    · -- the broken word reaches back into what has been put in
      cases r with
      | nil => exact quiet (.inl ⟨a ++ (o :: n ++ [c]), q, by simp⟩)
      | cons h r =>
          obtain ⟨d, e, split, rfl, -⟩ := broken_word regrows.broken
            (regrows.nonempty _ (by simp)) (regrows.nonempty _ (by simp))
          obtain ⟨f, g, split', opens, -⟩ := broken_word regrows.broken'
            (regrows.nonempty _ (by simp)) (regrows.nonempty _ (by simp))
          obtain ⟨rfl, rfl⟩ := List.cons.inj opens
          have inD : h ∉ d := fun mem => brackets.noOpen (split ▸ List.mem_append_left e mem)
          have inR : h ∉ r := fun mem =>
            brackets.noOpen (split' ▸ List.mem_append_left g (List.mem_append_left p' mem))
          have last : (a ++ y ++ x' ++ m ++ h :: (r ++ p')) ++ h :: d = p ++ h :: r := by
            rw [← front, regrows.shape]
            simp
          obtain rfl := last_unique inD inR last
          have whole := regrows.broken'
          exact quiet (.inr (.inr ⟨p', by simpa using whole.symm, a, q, by simp⟩))
    · exact quiet (.inl ⟨a ++ (o :: n ++ [c]) ++ r, q, by simp⟩)
  · have same : p ++ (o :: n ++ [c]) ++ (x' ++ q) = a ++ v ++ b := by simpa using same
    obtain ⟨p', rfl, rfl⟩ := behind same.symm
    exact quiet (.inr (.inl ⟨a ++ (o :: n ++ [c]) ++ p', q, by simp⟩))
  · have same : p ++ (o :: n ++ [c]) ++ (g ++ (o :: n ++ [c]) ++ q) = a ++ v ++ b := by
      simpa using same
    obtain ⟨p', rfl, rfl⟩ := behind same.symm
    exact quiet (.inr (.inr ⟨g, whole, a ++ (o :: n ++ [c]) ++ p', q, by simp⟩))

/-- The first occurrence, with none in what is in front of it. -/
theorem exists_first (nonempty : u ≠ []) (occurs : u <:+: s) :
    ∃ a b, s = a ++ u ++ b ∧ Free u a := by
  obtain ⟨a, b, rfl⟩ := occurs
  induction hlen : a.length using Nat.strong_induction_on generalizing a b with
  | _ k ih =>
      by_cases free : Free u a
      · exact ⟨a, b, rfl, free⟩
      · obtain ⟨a', b', rfl⟩ := not_not.mp free
        have shorter : a'.length < k := by
          have positive := List.length_pos_iff.mpr nonempty
          simp only [List.length_append] at hlen
          omega
        have earlier := ih a'.length shorter a' (b' ++ u ++ b) rfl
        simpa only [List.append_assoc] using earlier

/-- A text that does not feed the rule is rewritten from the front, one word after
the other. -/
theorem rests_of_quiet (brackets : Brackets o c n)
    (regrows : Regrows (o :: n ++ [c]) v x x' y y' m) (free : Free (o :: n ++ [c]) v)
    {p b : List α} (behind : ∀ a q, p ++ b = a ++ (o :: n ++ [c]) ++ q → p <+: a)
    (quiet : ¬ Fed (o :: n ++ [c]) x x' y y' (p ++ b)) :
    ∃ k, Rests (o :: n ++ [c]) v k (p ++ b) := by
  induction hlen : b.length using Nat.strong_induction_on generalizing p b with
  | _ k ih =>
      by_cases none : Free (o :: n ++ [c]) (p ++ b)
      · exact ⟨0, .done none⟩
      obtain ⟨a, q, split, early⟩ := exists_first word_nonempty (not_not.mp none)
      obtain ⟨r, rfl⟩ := behind a q split
      have shorter : q.length < k := by
        have lengths := congrArg List.length split
        simp only [List.length_append, List.length_cons] at lengths
        omega
      rw [split] at quiet ⊢
      obtain ⟨j, rests⟩ := ih q.length shorter (p := p ++ r ++ v) (b := q)
        (fun a' q' same => by
          obtain ⟨p', rfl, -⟩ := only_behind brackets regrows free early quiet same
          exact List.prefix_append _ _)
        (quiet_step brackets regrows free early quiet) rfl
      exact ⟨j + 1, .step (.replace (p ++ r) q) rests⟩

end Regrows

/-! ## The criterion -/

/-- **Which texts are rewritten to an end**, for a word in brackets. -/
theorem halts_iff (brackets : Brackets o c n) : Halts (o :: n ++ [c]) v s ↔
    Free (o :: n ++ [c]) s ∨
      Free (o :: n ++ [c]) v ∧ ¬ Sustains (o :: n ++ [c]) v s := by
  constructor
  · intro halts
    refine or_iff_not_imp_left.mpr fun occurs => ⟨fun again => ?_, ?_⟩
    · exact not_halts_of_infix again (not_not.mp occurs) halts
    · rintro ⟨x, x', y, y', m, regrows, fed⟩
      exact not_halts_of_fed regrows fed halts
  · rintro (free | ⟨free, quiet⟩)
    · exact halts_of_free free
    · by_cases some : ∃ x x' y y' m, Regrows (o :: n ++ [c]) v x x' y y' m
      · obtain ⟨x, x', y, y', m, regrows⟩ := some
        obtain ⟨k, rests⟩ := rests_of_quiet (p := []) brackets regrows free
          (fun a _ _ => List.nil_prefix) fun fed => quiet ⟨x, x', y, y', m, regrows, fed⟩
        exact rests.halts brackets.unbordered
      · push Not at some
        exact halts_of_not_regrows brackets free some s

/-- **When the loop for a word in brackets ends.** -/
theorem replaceAll_bracketed_iff [DecidableEq α] (brackets : Brackets o c n) :
    (∃ k, (replaceAll (o :: n ++ [c]) v k s).isSome) ↔
      Free (o :: n ++ [c]) s ∨
        Free (o :: n ++ [c]) v ∧ ¬ Sustains (o :: n ++ [c]) v s := by
  rw [replaceAll_ends_iff brackets.unbordered, halts_iff brackets]

end LaliRpc.Theory.Rewriting
