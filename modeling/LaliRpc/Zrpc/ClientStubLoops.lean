/-
# Zrpc.ClientStubLoops — the loops of the client's generator end

The definitions are put behind each other without a line break, but each template
begins with one.
-/
import LaliRpc.Zrpc.StubLoops

namespace LaliRpc.Zrpc.StubText.Client

open LaliRpc.Jackson LaliRpc.Theory LaliRpc.Theory.Substitution StubTemplate

set_option autoImplicit false

variable {p : Placeholder} {ps qs : List Placeholder}

/-! ## Arguments -/

theorem settles_argTypeText (type : ValueType) :
    Settles .running (fun _ => Client.argTypeText type) (Client.argTypeText type)
      fun s => ∀ ps, LacksAll ps s := by
  cases type with
  | null => exact settles_error (by decide) _
  | bool | int32 | int64 | double | string | object | array =>
      exact settles_ok fun _ _ _ => lacks_ascii rfl (by decide)

theorem settles_argTemplate {argName : Bytes} (own : Lacks .argName argName)
    (lacks : LacksAll ps argName) (type : ValueType) :
    Settles .running (fun fuel => Client.argTemplate (sequential fuel) argName type)
      (Client.argTemplate asSpelled argName type) (LacksAll ps) := by
  refine (settles_argTypeText type).bind fun typeStr lacksType => ?_
  apply settles_clear (by simp [templates])
  · show Fits StubTemplate.arg [.argType, .argName]
    decide
  · exact clear_of_lacksLater _ ⟨lacksType _, List.forall_mem_singleton.mpr own, trivial⟩
  · exact fun mem => absurd mem (by decide)
  · exact ⟨lacksType ps, lacks⟩

theorem lacks_intercalate {blocks : List Bytes} (each : ∀ b ∈ blocks, LacksAll ps b) :
    LacksAll ps (comma.intercalate blocks) := by
  intro p searched
  have middle : Lacks p comma := lacks_of_not_mem (by decide)
  induction blocks with
  | nil => exact lacks_nil
  | cons b blocks ih =>
      have first := each b List.mem_cons_self p searched
      have rest := ih fun c mem => each c (List.mem_cons_of_mem b mem)
      cases blocks with
      | nil =>
          rw [List.intercalate_singleton]
          exact first
      | cons c blocks =>
          rw [List.intercalate_cons_cons]
          have front := lacks_append (.inr rfl) first middle
          exact lacks_append (.inl (closes_append rfl b)) front rest

theorem settles_getGenericArgs (params : Value) (append : Bool) (own : NamesLack [.argName] params)
    (names : NamesLack ps params) :
    Settles .running (fun fuel => Client.getGenericArgs (sequential fuel) params append)
      (Client.getGenericArgs asSpelled params append) (LacksAll ps) := by
  refine (settles_getObject params).bind fun declared shape => ?_
  refine (settles_mapM fun m mem => settles_argTemplate (own declared shape m mem _ (by simp))
    (names declared shape m mem) m.2.getType).bind fun ones each => settles_ok ?_
  have separated := lacks_intercalate each
  by_cases some : append ∧ ones ≠ []
  · rw [if_pos some]
    intro p searched
    exact lacks_append (.inr rfl) (separated p searched) (lacks_of_not_mem (by decide))
  · rw [if_neg some]
    exact separated

theorem settles_getGenericParamMembers {params : Value} (own : NamesLack [.paramName] params)
    (names : NamesLack ps params) :
    Settles .running (fun fuel => Client.getGenericParamMembers (sequential fuel) params)
      (Client.getGenericParamMembers asSpelled params) (LacksAll ps) := by
  refine (settles_getObject params).bind fun declared shape => settles_blocks fun m mem => ?_
  apply settles_opens (begins_ascii rfl (by decide))
  apply settles_clear (T := paramMember) (by simp [templates])
  · show Fits paramMember [.paramName]
    decide
  · exact clear_of_lacksLater _ ⟨own declared shape m mem, trivial⟩
  · exact fun mem => absurd mem (by decide)
  · exact names declared shape m mem

/-! ## Definitions -/

theorem settles_procedureDefinition {info : ServiceInfo} {r : RpcReturn}
    (service : LacksAll [.serviceName, .procedureName, .procedureArgs, .paramMembers] info.name)
    (name : LacksAll [.procedureName, .procedureArgs, .paramMembers] r.name)
    (params : NamesLack [.argName, .paramName, .procedureArgs, .paramMembers] r.params)
    (lacksService : LacksAll ps info.name) (lacksName : LacksAll ps r.name)
    (lacksParams : NamesLack ps r.params) :
    Settles .running (fun fuel => Client.procedureDefinition (sequential fuel) info r)
      (Client.procedureDefinition asSpelled info r)
      fun b => LacksAll ps b ∧ b.head?.any Placeholder.isFence = true := by
  have both := params.append lacksParams
  refine (settles_getGenericArgs r.params true (params.mono (by simp)) both).bind
    fun args lacksArgs => ?_
  refine (settles_getGenericParamMembers (params.mono (by simp)) both).bind
    fun members lacksMembers => ?_
  rw [lacksAll_append] at lacksArgs lacksMembers
  apply settles_opens (begins_ascii rfl (by decide))
  apply settles_clear (T := procedureDefine) (by simp [templates])
  · show Fits procedureDefine [.serviceName, .procedureName, .procedureArgs, .paramMembers]
    decide
  · refine clear_of_lacksLater _ ⟨service, name, lacksArgs.1.mono ?_, lacksMembers.1.mono ?_,
      trivial⟩
    · simp
    · simp
  · exact fun mem => absurd mem (by decide)
  · exact ⟨lacksService, lacksName, lacksArgs.2, lacksMembers.2⟩

/-- The first loop finds nothing to replace. -/
theorem settles_notifyDefinition {info : ServiceInfo} {r : RpcNotify}
    (name : LacksAll [.notifyName, .notifyArgs, .paramMembers] r.name)
    (params : NamesLack [.argName, .paramName, .notifyArgs, .paramMembers] r.params)
    (lacksService : LacksAll ps info.name) (lacksName : LacksAll ps r.name)
    (lacksParams : NamesLack ps r.params) :
    Settles .running (fun fuel => Client.notifyDefinition (sequential fuel) info r)
      (Client.notifyDefinition asSpelled info r)
      fun b => LacksAll ps b ∧ b.head?.any Placeholder.isFence = true := by
  have both := params.append lacksParams
  refine (settles_getGenericArgs r.params false (params.mono (by simp)) both).bind
    fun args lacksArgs => ?_
  refine (settles_getGenericParamMembers (params.mono (by simp)) both).bind
    fun members lacksMembers => ?_
  rw [lacksAll_append] at lacksArgs lacksMembers
  apply settles_opens (begins_ascii rfl (by decide))
  apply settles_clear (T := notifyDefine) (by simp [templates])
  · show Fits notifyDefine [.serviceName, .notifyName, .notifyArgs, .paramMembers]
    decide
  · have absent : Placeholder.serviceName ∉ holes notifyDefine := by decide
    refine clear_cons_absent absent (clear_of_lacksLater _ ⟨name, lacksArgs.1.mono ?_,
      lacksMembers.1.mono ?_, trivial⟩)
    · simp
    · simp
  · exact fun mem => absurd mem (by decide)
  · exact ⟨lacksService, lacksName, lacksArgs.2, lacksMembers.2⟩

/-! ## The whole text -/

section

variable {info : ServiceInfo}

theorem settles_procedureDefinitions (clear : ClearNames info) (all : AllLack ps info) :
    Settles .running (fun fuel => Client.getProcedureDefinitions (sequential fuel) info)
      (Client.getProcedureDefinitions asSpelled info)
      (LacksAll ([.procedureDefinitions, .notifyDefinitions] ++ ps)) := by
  refine settles_blocks fun r mem => ?_
  have service := clear.serviceOfReturn mem
  have name := clear.procedures r mem
  have params := clear.procedureParams r mem
  obtain ⟨lacksName, lacksParams⟩ := all.procedures r mem
  apply settles_procedureDefinition
  · exact service.mono (by decide)
  · exact name.mono (by decide)
  · exact params.mono (by decide)
  · exact lacksAll_append.mpr ⟨clear.service.mono (by decide), all.service⟩
  · exact lacksAll_append.mpr ⟨name.mono (by decide), lacksName⟩
  · exact (params.mono (by decide)).append lacksParams

theorem settles_notifyDefinitions (clear : ClearNames info) (all : AllLack ps info) :
    Settles .running (fun fuel => Client.getNotifyDefinitions (sequential fuel) info)
      (Client.getNotifyDefinitions asSpelled info) (LacksAll ([.notifyDefinitions] ++ ps)) := by
  refine settles_blocks fun r mem => ?_
  have name := clear.notifications r mem
  have params := clear.notifyParams r mem
  obtain ⟨lacksName, lacksParams⟩ := all.notifications r mem
  apply settles_notifyDefinition
  · exact name.mono (by decide)
  · exact params.mono (by decide)
  · exact lacksAll_append.mpr ⟨clear.service.mono (by decide), all.service⟩
  · exact lacksAll_append.mpr ⟨name.mono (by decide), lacksName⟩
  · exact (params.mono (by decide)).append lacksParams

/-- **The generator of the client ends**, if the names are clear. -/
theorem settles_getStub (clear : ClearNames info) (all : AllLack ps info) :
    Settles .running (fun fuel => Client.getStub (sequential fuel) info)
      (Client.getStub asSpelled info) (LacksAll ps) := by
  refine (settles_procedureDefinitions clear all).bind fun definitions first => ?_
  refine (settles_notifyDefinitions clear all).bind fun notifyDefinitions second => ?_
  obtain ⟨own, lacks⟩ := lacksAll_append.mp first
  obtain ⟨ownNotify, lacksNotify⟩ := lacksAll_append.mp second
  have macroName : ∀ {qs}, LacksAll qs (info.name.map toupper) →
      LacksAll qs (Client.getMacroName info) := fun upper => lacksAll_suffix upper rfl (by decide)
  have className : ∀ {qs}, LacksAll qs info.name → LacksAll qs (Client.getStubClassName info) :=
    fun name => lacksAll_suffix name rfl (by decide)
  apply settles_clear (by simp [templates])
  · show Fits clientStub [.macroName, .stubClassName, .procedureDefinitions, .notifyDefinitions]
    decide
  · refine clear_of_lacksLater _ ⟨macroName (lacks_macroName (by simp)),
      className (clear.service.mono ?_), own, ownNotify, trivial⟩
    simp [searchedInService]
  · exact fun mem => absurd mem (by decide)
  · exact ⟨macroName all.macroName, className all.service, lacks, lacksNotify⟩

end

end LaliRpc.Zrpc.StubText.Client
