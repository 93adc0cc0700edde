/-
# Zrpc.StubFilled — the templates are filled, but for one

For names without brackets the loops come to the same as putting in all arguments
at once, and leave no placeholder. The template for notifications with parameters
is the exception: there the name is spelled `[NotifyName]`, which no loop looks
for.
-/
import LaliRpc.Zrpc.StubEnds

namespace LaliRpc.Zrpc.StubText

open LaliRpc.Jackson LaliRpc.Theory LaliRpc.Theory.Substitution StubTemplate

set_option autoImplicit false

/-- The generator ends, and a text that it returns is the one with all arguments put
in at once, without any placeholder. -/
def Filled (getStub : Engine → ServiceInfo → Except Stop Bytes) (info : ServiceInfo) : Prop :=
  ∃ N, ∀ fuel, N ≤ fuel → getStub (sequential fuel) info ≠ .error .running ∧
    ∀ str, getStub (sequential fuel) info = .ok str →
      getStub simultaneous info = .ok str ∧ ∀ p ∈ Placeholder.all, ¬ p.spelling <:+: str

variable {info : ServiceInfo} {proto : Value}

theorem filled_of_settles {getStub : Engine → ServiceInfo → Except Stop Bytes}
    (settles : Settles .running (fun fuel => getStub (sequential fuel) info)
      (getStub asSpelled info) (LacksAll Placeholder.all))
    (same : getStub asSpelled info = getStub simultaneous info) : Filled getStub info := by
  obtain ⟨N, loops⟩ := settles.same
  refine ⟨N, fun fuel enough => ?_⟩
  rw [loops fuel enough]
  exact ⟨settles.done, fun str ok => ⟨same ▸ ok, settles.value str ok⟩⟩

/-! ## Where the spelling is right -/

/-- The engines agree on the templates without the misspelled placeholder. -/
def Agree (e e' : Engine) : Prop := ∀ T, .NotifyName ∉ holes T → e T = e' T

theorem agree_spelled : Agree asSpelled simultaneous := by
  intro T spelled
  funext rs
  refine congrArg Except.ok (fill_congr fun p inside => ?_)
  have means : p.meaning = p := by
    cases p with
    | NotifyName => exact absurd (mem_holes inside) spelled
    | _ => rfl
  rw [means]

theorem Service.getStub_congr {e e' : Engine} (agree : Agree e e')
    (none : ∀ r ∈ info.rpcNotify, ¬ r.params.getSize > 0) :
    Service.getStub e info = Service.getStub e' info := by
  have binding : procedureBinding e info = procedureBinding e' info := by
    funext r
    simp only [procedureBinding, agree stubProcedureBind (by decide)]
  have bindingOfNotify : notifyBinding e info = notifyBinding e' info := by
    funext r
    simp only [notifyBinding, agree stubNotifyBind (by decide)]
  have definition : procedureDefinition e = procedureDefinition e' := by
    funext r
    simp only [procedureDefinition, procedureFromJson, procedureDirect, getParamsFromJsonArray,
      getParamsFromJsonObject, argsDefineTemplate, agree stubProcedureDefine (by decide),
      agree stubProcedureDefineDirect (by decide), agree argsDefine (by decide)]
  have notifyDefinitions : info.rpcNotify.mapM (notifyDefinition e) =
      info.rpcNotify.mapM (notifyDefinition e') := by
    refine mapM_congr fun r mem => ?_
    simp only [notifyDefinition, if_neg (none r mem), notifyDirect,
      agree stubNotifyDefineDirect (by decide)]
  simp only [Service.getStub, getStubProcedureBindings, getStubNotifyBindings,
    getStubProcedureDefinitions, getStubNotifyDefinitions, binding, bindingOfNotify, definition,
    notifyDefinitions, agree servicesStub (by decide)]

theorem Client.getStub_congr {e e' : Engine} (agree : Agree e e') :
    Client.getStub e info = Client.getStub e' info := by
  have args : getGenericArgs e = getGenericArgs e' := by
    funext params append
    simp only [getGenericArgs, argTemplate, agree StubTemplate.arg (by decide)]
  have members : getGenericParamMembers e = getGenericParamMembers e' := by
    funext params
    simp only [getGenericParamMembers, agree paramMember (by decide)]
  have definition : procedureDefinition e info = procedureDefinition e' info := by
    funext r
    simp only [procedureDefinition, args, members, agree procedureDefine (by decide)]
  have definitionOfNotify : notifyDefinition e info = notifyDefinition e' info := by
    funext r
    simp only [notifyDefinition, args, members, agree notifyDefine (by decide)]
  simp only [Client.getStub, getProcedureDefinitions, getNotifyDefinitions, definition,
    definitionOfNotify, agree clientStub (by decide)]

/-- The text of the client is filled, whatever the entries are. -/
theorem Client.filled (plain : PlainNames info) : Filled Client.getStub info :=
  filled_of_settles (Client.settles_getStub plain.clear (plain.allLack _))
    (Client.getStub_congr agree_spelled)

/-! ## Where it is not -/

/-- A notification with parameters leaves its placeholder in the text. -/
theorem Service.misspelled_stays {r : RpcNotify} (mem : r ∈ info.rpcNotify)
    (some : r.params.getSize > 0) {str : Bytes} (ok : Service.getStub asSpelled info = .ok str) :
    Placeholder.NotifyName.spelling <:+: str := by
  obtain ⟨bindings, -, ok⟩ := except_bind_eq_ok.mp ok
  obtain ⟨notifyBindings, -, ok⟩ := except_bind_eq_ok.mp ok
  obtain ⟨definitions, -, ok⟩ := except_bind_eq_ok.mp ok
  obtain ⟨notifyDefinitions, joined, ok⟩ := except_bind_eq_ok.mp ok
  obtain ⟨blocks, made, flat⟩ := except_bind_eq_ok.mp joined
  obtain ⟨b, listed, block⟩ := mapM_ok_mem made mem
  obtain rfl := Except.ok.inj flat
  obtain rfl := Except.ok.inj ok
  have inBlock : Placeholder.NotifyName.spelling <:+: b := by
    unfold notifyDefinition at block
    simp only [if_pos some] at block
    obtain ⟨define, filled, same⟩ := except_bind_eq_ok.mp block
    obtain ⟨array, -, filled⟩ := except_bind_eq_ok.mp filled
    obtain ⟨object, -, filled⟩ := except_bind_eq_ok.mp filled
    obtain ⟨args, -, filled⟩ := except_bind_eq_ok.mp filled
    obtain rfl := Except.ok.inj filled
    obtain rfl := Except.ok.inj same
    have inside : Piece.hole .NotifyName ∈ stubNotifyDefine := by simp [stubNotifyDefine, hole]
    refine List.infix_append_of_infix_left (List.IsInfix.trans ?_ (infix_fill inside))
    exact List.infix_rfl
  have inside : Piece.hole .stubProcedureDefinitions ∈ servicesStub := by simp [servicesStub, hole]
  refine List.IsInfix.trans ?_ (infix_fill inside)
  exact List.infix_append_of_infix_right (inBlock.trans (List.infix_of_mem_flatten listed))

/-- What the server's generator returns then. -/
theorem Service.misspelled_text (plain : PlainNames info) (typed : AllTyped info) {r : RpcNotify}
    (mem : r ∈ info.rpcNotify) (some : r.params.getSize > 0) :
    ∃ N, ∀ fuel, N ≤ fuel → ∃ str, Service.getStub (sequential fuel) info = .ok str ∧
      Placeholder.NotifyName.spelling <:+: str := by
  have settles := Service.settles_of_clear plain.clear
  obtain ⟨N, loops⟩ := settles.same
  refine ⟨N, fun fuel enough => ?_⟩
  have text := loops fuel enough
  have passed := Service.getStub_ne (silent_sequential fuel) typed
  obtain ⟨str, ok⟩ := text_of_ended (text ▸ settles.done) passed
  exact ⟨str, ok, Service.misspelled_stays mem some (text ▸ ok)⟩

theorem Service.not_filled (plain : PlainNames info) (typed : AllTyped info) {r : RpcNotify}
    (mem : r ∈ info.rpcNotify) (some : r.params.getSize > 0) : ¬ Filled Service.getStub info := by
  rintro ⟨N, filled⟩
  obtain ⟨M, left⟩ := Service.misspelled_text plain typed mem some
  obtain ⟨str, ok, stays⟩ := left (max N M) (le_max_right N M)
  obtain ⟨-, complete⟩ := filled (max N M) (le_max_left N M)
  exact (complete str ok).2 .NotifyName (Placeholder.mem_all _) stays

/-- **The templates are filled completely**, except when a notification has
parameters and the text gets as far as its template. -/
theorem filled_iff (accepted : StubGenerator.parseProto proto = .ok info)
    (plain : PlainNames info) :
    Filled Service.getStub info ∧ Filled Client.getStub info ↔
      (∀ r ∈ info.rpcNotify, r.params = .object []) ∨ ¬ AllTyped info := by
  constructor
  · rintro ⟨filled, -⟩
    by_contra! other
    obtain ⟨⟨r, mem, params⟩, typed⟩ := other
    have some : r.params.getSize > 0 := by
      obtain ⟨declared, ⟨shape, -⟩⟩ :=
        (StubGenerator.described_parseProto accepted).rpcNotify r mem
      rw [shape] at params ⊢
      exact List.length_pos_iff.mpr fun empty => params (congrArg Value.object empty)
    exact Service.not_filled plain typed mem some filled
  · intro cases
    refine ⟨?_, Client.filled plain⟩
    rcases cases with none | untyped
    · have empty : ∀ r ∈ info.rpcNotify, ¬ r.params.getSize > 0 := by
        intro r mem
        rw [none r mem]
        decide
      exact filled_of_settles (Service.settles_getStub plain.clear (plain.allLack _)
        fun r mem some => absurd some (empty r mem)) (Service.getStub_congr agree_spelled empty)
    · -- the text is never returned
      have settles := Service.settles_of_clear plain.clear
      obtain ⟨N, loops⟩ := settles.same
      refine ⟨N, fun fuel enough => ?_⟩
      rw [loops fuel enough]
      exact ⟨settles.done, fun str ok => absurd (Service.getStub_typed ok) untyped⟩

/-- `arith`, as it is written down. -/
def arithProto : Value :=
  StubChecks.service [.object [(ascii "name", .string (ascii "add")),
    (ascii "params", .object [(ascii "lhs", .int32 1), (ascii "rhs", .int32 1)]),
    (ascii "returns", .int32 2)], .object [(ascii "name", .string (ascii "hello"))]]

theorem arith_filled : Filled Service.getStub arith ∧ Filled Client.getStub arith := by
  have accepted : StubGenerator.parseProto arithProto = .ok arith := rfl
  refine (filled_iff accepted arith_plain).mpr (.inl fun r mem => ?_)
  obtain rfl := List.mem_singleton.mp mem
  rfl

theorem notify_with_params_unfilled :
    ∃ info, StubGenerator.parseProto (StubChecks.service [StubChecks.entryWith (.object
        [(ascii "x", .int32 0)])]) = .ok info ∧ PlainNames info ∧
      ¬ Filled Service.getStub info ∧
      ∃ N, ∀ fuel, N ≤ fuel → ∃ str, Service.getStub (sequential fuel) info = .ok str ∧
        Placeholder.NotifyName.spelling <:+: str := by
  let r : RpcNotify := ⟨ascii "f", .object [(ascii "x", .int32 0)]⟩
  let info : ServiceInfo := ⟨ascii "S", [], [r]⟩
  have plain : PlainNames info := by
    refine ⟨by decide, nofun, fun q mem => ?_⟩
    obtain rfl := List.mem_singleton.mp mem
    refine ⟨by decide, fun declared same => ?_⟩
    obtain rfl := Value.object.inj same
    decide
  have typed : AllTyped info := by
    refine ⟨nofun, fun q mem => ?_⟩
    obtain rfl := List.mem_singleton.mp mem
    exact ⟨_, rfl, by decide⟩
  have some : r.params.getSize > 0 := Nat.one_pos
  exact ⟨info, rfl, plain, Service.not_filled plain typed List.mem_cons_self some,
    Service.misspelled_text plain typed List.mem_cons_self some⟩

end LaliRpc.Zrpc.StubText
