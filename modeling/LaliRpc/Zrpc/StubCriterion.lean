/-
# Zrpc.StubCriterion — which loops of the generators end

Every `replaceAll` of the generators searches for a word in brackets, so the
criterion for such words says of each loop whether it ends, from the text it is
started on and the argument it puts in (`Terminating`). What the text is depends on
the loops before: they may have put in placeholders that this loop uses up, and
they may have used up some of its own.

`checked` runs the loops one after the other, and stops in front of the first one
that does not end. The generators end if and only if it never has to
(`generators_end_iff`); they also end in front of a loop that would not, if an
assertion fails before.
-/
import LaliRpc.Theory.Rewriting
import LaliRpc.Zrpc.StubEnds

namespace LaliRpc.Zrpc.StubText

open LaliRpc.Jackson LaliRpc.Theory LaliRpc.Theory.Substitution LaliRpc.Theory.Rewriting
open StubTemplate

set_option autoImplicit false

theorem brackets (p : Placeholder) : Brackets (chr '[') (chr ']') p.name :=
  ⟨by decide, fun mem => (Placeholder.name_plain mem).2.1 rfl,
    fun mem => (Placeholder.name_plain mem).2.2 rfl⟩

/-! ## Loops -/

/-- Before `replaceAll(str, "[placeholder]", value)`: nothing is to be replaced, or
the value does not contain the placeholder and the text does not feed it. -/
def Terminating (p : Placeholder) (value str : Bytes) : Prop :=
  Free p.spelling str ∨ Free p.spelling value ∧ ¬ Sustains p.spelling value str

/-- **Which loops end.** -/
theorem replaceAll_terminates_iff (p : Placeholder) (value str : Bytes) :
    (∃ fuel, (replaceAll p.spelling value fuel str).isSome) ↔ Terminating p value str :=
  replaceAll_bracketed_iff (brackets p)

open Classical in
/-- One loop, if it ends. -/
noncomputable def checkedLoop (str : Bytes) (r : Placeholder × Bytes) : Except Stop Bytes :=
  if Terminating r.1 r.2 str then .ok (residue r.1.spelling r.2 str) else .error .running

/-- The loops one after the other, as far as they end. -/
noncomputable def checked : Engine := fun T rs =>
  rs.foldlM checkedLoop (fill Placeholder.spelling T)

/-- No generator comes to a loop that does not end. -/
def AllTerminating (info : ServiceInfo) : Prop :=
  Service.getStub checked info ≠ .error .running ∧ Client.getStub checked info ≠ .error .running

def orRunning {α : Type} : Option α → Except Stop α
  | none => .error .running
  | some a => .ok a

theorem orRunning_bind {α β : Type} (x : Option α) (k : α → Option β) :
    orRunning (x >>= k) = orRunning x >>= fun a => orRunning (k a) := by
  cases x with
  | none => rfl
  | some a => rfl

theorem sequential_eq (fuel : Nat) (T : StubTemplate) (rs : List (Placeholder × Bytes)) :
    sequential fuel T rs =
      orRunning (Placeholder.words.replaceEach rs fuel (fill Placeholder.spelling T)) := by
  unfold sequential
  cases Placeholder.words.replaceEach rs fuel (fill Placeholder.spelling T) with
  | none => rfl
  | some str => rfl

theorem limit_loop (p : Placeholder) (value str : Bytes) :
    Limit .running (fun fuel => orRunning (replaceAll p.spelling value fuel str))
      (checkedLoop str (p, value)) := by
  by_cases ends : Terminating p value str
  · rw [checkedLoop, if_pos ends]
    obtain ⟨N, done⟩ := replaceAll_residue ((replaceAll_terminates_iff p value str).mpr ends)
    have enough : ∀ n, N ≤ n → replaceAll p.spelling value n str =
        some (residue p.spelling value str) := fun n le => replaceAll_mono le done
    refine ⟨⟨N, fun n le => congrArg orRunning (enough n le)⟩, fun n ended => ?_⟩
    cases outcome : replaceAll p.spelling value n str with
    | none =>
        rw [outcome] at ended
        exact absurd rfl ended
    | some t =>
        have later := replaceAll_mono (le_max_left n N) outcome
        rw [enough _ (le_max_right n N)] at later
        exact congrArg orRunning later.symm
  · rw [checkedLoop, if_neg ends]
    refine limit_stuck fun n => ?_
    cases outcome : replaceAll p.spelling value n str with
    | none => rfl
    | some t =>
        have found := (replaceAll_terminates_iff p value str).mp ⟨n, by rw [outcome]; rfl⟩
        exact absurd found ends

theorem limit_loops : ∀ (rs : List (Placeholder × Bytes)) (str : Bytes),
    Limit .running (fun fuel => orRunning (Placeholder.words.replaceEach rs fuel str))
      (rs.foldlM checkedLoop str)
  | [], str => limit_const _ _
  | r :: rs, str => by
      have both := (limit_loop r.1 r.2 str).bind fun t => limit_loops rs t
      have split : (fun fuel => orRunning (Placeholder.words.replaceEach (r :: rs) fuel str)) =
          fun fuel => orRunning (replaceAll r.1.spelling r.2 fuel str) >>= fun t =>
            orRunning (Placeholder.words.replaceEach rs fuel t) := by
        funext fuel
        exact orRunning_bind _ _
      rw [split, List.foldlM_cons]
      exact both

theorem limit_checked (T : StubTemplate) (rs : List (Placeholder × Bytes)) :
    Limit .running (fun fuel => sequential fuel T rs) (checked T rs) := by
  have same : (fun fuel => sequential fuel T rs) = fun fuel =>
      orRunning (Placeholder.words.replaceEach rs fuel (fill Placeholder.spelling T)) :=
    funext fun fuel => sequential_eq fuel T rs
  rw [same]
  exact limit_loops rs _

/-! ## Generators -/

section

variable {e : Nat → Engine} {e' : Engine}

/-- The text of a template function, with any engine that comes to another one. -/
def Approaches (e : Nat → Engine) (e' : Engine) : Prop :=
  ∀ T rs, Limit .running (fun n => e n T rs) (e' T rs)

theorem limit_steps {α : Type} {f : Nat → α → Except Stop Bytes} {g : α → Except Stop Bytes}
    (each : ∀ a, Limit .running (fun n => f n a) (g a)) (as : List α) :
    Limit .running (fun n => as.mapM (f n) >>= fun bs => pure bs.flatten)
      (as.mapM g >>= fun bs => pure bs.flatten) :=
  (limit_mapM each as).bind fun _ => limit_const _ _

theorem limit_line {x : Nat → Except Stop Bytes} {y : Except Stop Bytes}
    (limit : Limit .running x y) :
    Limit .running (fun n => x n >>= fun str => pure (str ++ newline))
      (y >>= fun str => pure (str ++ newline)) :=
  limit.bind fun _ => limit_const _ _

namespace Service

theorem limit_argsDefineTemplate (approaches : Approaches e e') (arg index : Bytes)
    (type : ValueType) :
    Limit .running (fun n => argsDefineTemplate (e n) arg index type)
      (argsDefineTemplate e' arg index type) :=
  (limit_const _ (getterText type)).bind fun _ => approaches _ _

theorem limit_getParamsFromJsonArray (approaches : Approaches e e') (params : Value) :
    Limit .running (fun n => getParamsFromJsonArray (e n) params)
      (getParamsFromJsonArray e' params) := by
  refine (limit_const _ (getObject params)).bind fun declared => limit_steps (fun m => ?_) _
  exact limit_line (limit_argsDefineTemplate approaches _ _ m.1.2.getType)

theorem limit_getParamsFromJsonObject (approaches : Approaches e e') (params : Value) :
    Limit .running (fun n => getParamsFromJsonObject (e n) params)
      (getParamsFromJsonObject e' params) := by
  refine (limit_const _ (getObject params)).bind fun declared => limit_steps (fun m => ?_) _
  exact limit_line (limit_argsDefineTemplate approaches _ _ m.2.getType)

theorem limit_procedureBinding (approaches : Approaches e e') (info : ServiceInfo)
    (p : RpcReturn) :
    Limit .running (fun n => procedureBinding (e n) info p) (procedureBinding e' info p) :=
  (limit_const _ (getGenericParams p.params)).bind fun _ => limit_line (approaches _ _)

theorem limit_notifyBinding (approaches : Approaches e e') (info : ServiceInfo) (p : RpcNotify) :
    Limit .running (fun n => notifyBinding (e n) info p) (notifyBinding e' info p) :=
  (limit_const _ (getGenericParams p.params)).bind fun _ => limit_line (approaches _ _)

theorem limit_procedureDefinition (approaches : Approaches e e') (r : RpcReturn) :
    Limit .running (fun n => procedureDefinition (e n) r) (procedureDefinition e' r) := by
  unfold procedureDefinition
  by_cases some : r.params.getSize > 0
  · simp only [if_pos some]
    refine limit_line ((limit_getParamsFromJsonArray approaches r.params).bind fun _ => ?_)
    refine (limit_getParamsFromJsonObject approaches r.params).bind fun _ => ?_
    exact (limit_const _ (getGenericArgs r.params)).bind fun _ => approaches _ _
  · simp only [if_neg some]
    exact limit_line (approaches _ _)

theorem limit_notifyDefinition (approaches : Approaches e e') (r : RpcNotify) :
    Limit .running (fun n => notifyDefinition (e n) r) (notifyDefinition e' r) := by
  unfold notifyDefinition
  by_cases some : r.params.getSize > 0
  · simp only [if_pos some]
    refine limit_line ((limit_getParamsFromJsonArray approaches r.params).bind fun _ => ?_)
    refine (limit_getParamsFromJsonObject approaches r.params).bind fun _ => ?_
    exact (limit_const _ (getGenericArgs r.params)).bind fun _ => approaches _ _
  · simp only [if_neg some]
    exact limit_line (approaches _ _)

theorem limit_getStub (approaches : Approaches e e') (info : ServiceInfo) :
    Limit .running (fun n => getStub (e n) info) (getStub e' info) := by
  refine (limit_steps (fun p => limit_procedureBinding approaches info p) _).bind fun _ => ?_
  refine (limit_steps (fun p => limit_notifyBinding approaches info p) _).bind fun _ => ?_
  refine (limit_steps (fun r => limit_procedureDefinition approaches r) _).bind fun _ => ?_
  refine (limit_steps (fun r => limit_notifyDefinition approaches r) _).bind fun _ => ?_
  exact approaches _ _

end Service

namespace Client

theorem limit_getGenericArgs (approaches : Approaches e e') (params : Value) (append : Bool) :
    Limit .running (fun n => getGenericArgs (e n) params append)
      (getGenericArgs e' params append) := by
  refine (limit_const _ (getObject params)).bind fun declared => ?_
  refine (limit_mapM (fun p => ?_) declared).bind fun ones => limit_const _ _
  exact (limit_const _ (argTypeText p.2.getType)).bind fun _ => approaches _ _

theorem limit_getGenericParamMembers (approaches : Approaches e e') (params : Value) :
    Limit .running (fun n => getGenericParamMembers (e n) params)
      (getGenericParamMembers e' params) :=
  (limit_const _ (getObject params)).bind fun _ => limit_steps (fun _ => approaches _ _) _

theorem limit_getStub (approaches : Approaches e e') (info : ServiceInfo) :
    Limit .running (fun n => getStub (e n) info) (getStub e' info) := by
  refine (limit_steps (fun r => ?_) _).bind fun _ => ?_
  · refine (limit_getGenericArgs approaches r.params true).bind fun _ => ?_
    exact (limit_getGenericParamMembers approaches r.params).bind fun _ => approaches _ _
  refine (limit_steps (fun r => ?_) _).bind fun _ => approaches _ _
  refine (limit_getGenericArgs approaches r.params false).bind fun _ => ?_
  exact (limit_getGenericParamMembers approaches r.params).bind fun _ => approaches _ _

end Client

end

theorem ends_iff_each {info : ServiceInfo} {x y : Except Stop Bytes}
    (server : Limit .running (fun fuel => Service.getStub (sequential fuel) info) x)
    (client : Limit .running (fun fuel => Client.getStub (sequential fuel) info) y) :
    Ends info ↔ x ≠ .error .running ∧ y ≠ .error .running := by
  rw [← server.ended_iff, ← client.ended_iff]
  constructor
  · rintro ⟨fuel, serverEnded, clientEnded⟩
    exact ⟨⟨fuel, serverEnded⟩, fuel, clientEnded⟩
  · rintro ⟨serverEnds, clientEnds⟩
    obtain ⟨N, serverSame⟩ := server.enough
    obtain ⟨M, clientSame⟩ := client.enough
    refine ⟨max N M, ?_, ?_⟩
    · rw [serverSame _ (le_max_left N M)]
      exact server.ended_iff.mp serverEnds
    · rw [clientSame _ (le_max_right N M)]
      exact client.ended_iff.mp clientEnds

section

variable {info : ServiceInfo}

theorem ends_of_terminating (terminating : AllTerminating info) : Ends info :=
  (ends_iff_each (Service.limit_getStub limit_checked info)
    (Client.limit_getStub limit_checked info)).mpr terminating

theorem terminating_of_ends (ends : Ends info) : AllTerminating info :=
  (ends_iff_each (Service.limit_getStub limit_checked info)
    (Client.limit_getStub limit_checked info)).mp ends

end

/-- **The generators end** if and only if they come to no loop that does not. -/
theorem generators_end_iff (info : ServiceInfo) : Ends info ↔ AllTerminating info :=
  ⟨terminating_of_ends, ends_of_terminating⟩

end LaliRpc.Zrpc.StubText
