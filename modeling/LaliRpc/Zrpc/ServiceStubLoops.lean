/-
# Zrpc.ServiceStubLoops — the loops of the server's generator end
-/
import LaliRpc.Zrpc.StubLoops

namespace LaliRpc.Zrpc.StubText.Service

open LaliRpc.Jackson LaliRpc.Theory LaliRpc.Theory.Substitution StubTemplate

set_option autoImplicit false

variable {p : Placeholder} {ps qs : List Placeholder} {s t : Bytes}

/-! ## Bindings and definitions -/

theorem settles_typeName (type : ValueType) :
    Settles .running (fun _ => Service.typeName type) (Service.typeName type) (LacksAll ps) := by
  cases type with
  | null => exact settles_error (by decide) _
  | bool | int32 | int64 | double | string | object | array =>
      exact settles_ok fun p _ => lacks_ascii rfl (by decide)

theorem settles_getGenericParams {params : Value} (names : NamesLack ps params) :
    Settles .running (fun _ => Service.getGenericParams params) (Service.getGenericParams params)
      (LacksAll ps) := by
  refine (settles_getObject params).bind fun declared shape => settles_blocks fun m mem => ?_
  refine (@settles_typeName ps m.2.getType).bind fun type lacks => ?_
  refine settles_ok ⟨fun p searched => ?_, rfl⟩
  have name := lacks_quoted (names declared shape m mem p searched)
  have front : Lacks p (comma ++ newline) := lacks_of_not_mem (by decide)
  have middle : Lacks p comma := lacks_of_not_mem (by decide)
  exact lacks_append (.inl (closes_append rfl _))
    (lacks_append (.inr rfl) (lacks_append (.inr rfl) front name) middle) (lacks p searched)

theorem settles_getGenericArgs {params : Value} (names : NamesLack ps params) :
    Settles .running (fun _ => Service.getGenericArgs params) (Service.getGenericArgs params)
      (LacksAll ps) := by
  refine (settles_getObject params).bind fun declared shape => settles_ok fun p searched => ?_
  apply lacks_flatten_closes
  rw [List.forall_mem_map]
  intro m mem
  have name := names declared shape m mem p searched
  have middle : Lacks p comma := lacks_of_not_mem (by decide)
  exact ⟨lacks_append (.inr rfl) name middle, closes_append rfl _⟩

theorem settles_getParamsFromJsonArray {params : Value}
    (clear : NamesLack [.arg, .index, .method] params) (names : NamesLack ps params) :
    Settles .running (fun fuel => Service.getParamsFromJsonArray (sequential fuel) params)
      (Service.getParamsFromJsonArray asSpelled params) (LacksAll ps) := by
  refine (settles_getObject params).bind fun declared shape => ?_
  refine (settles_lines fun m mem => settles_newline ?_).mono fun _ lines => lines.lacks
  have listed := List.fst_mem_of_mem_zipIdx mem
  exact settles_argsDefine (clear declared shape m.1 listed) (solid_toDecimal m.2)
    (fun _ _ => lacks_toDecimal m.2) (names declared shape m.1 listed)
    (fun _ _ => lacks_toDecimal m.2) m.1.2.getType

theorem settles_getParamsFromJsonObject {params : Value}
    (clear : NamesLack [.arg, .index, .method] params) (names : NamesLack ps params) :
    Settles .running (fun fuel => Service.getParamsFromJsonObject (sequential fuel) params)
      (Service.getParamsFromJsonObject asSpelled params) (LacksAll ps) := by
  refine (settles_getObject params).bind fun declared shape => ?_
  refine (settles_lines fun m mem => settles_newline ?_).mono fun _ lines => lines.lacks
  have own := clear declared shape m mem
  exact settles_argsDefine own (solid_quoted m.1)
    (fun p searched => lacks_quoted (own p (List.mem_cons_of_mem _ searched)))
    (names declared shape m mem)
    (fun p searched => lacks_quoted (names declared shape m mem p searched)) m.2.getType

theorem lacks_getUserClassName {info : ServiceInfo} (lacks : LacksAll ps info.name) :
    LacksAll ps (Service.getUserClassName info) :=
  lacksAll_suffix lacks rfl (by decide)

theorem lacks_getStubClassName {info : ServiceInfo} (lacks : LacksAll ps info.name) :
    LacksAll ps (Service.getStubClassName info) :=
  lacksAll_suffix lacks rfl (by decide)

theorem lacks_getStubGenericName {name : Bytes} (lacks : LacksAll ps name) :
    LacksAll ps (Service.getStubGenericName name) :=
  lacksAll_suffix lacks rfl (by decide)

/-- Both kinds of bindings are put together alike, with other placeholders. -/
def boundText (engine : Engine) (T : StubTemplate) (nameKey stubKey paramsKey : Placeholder)
    (info : ServiceInfo) (name : Bytes) (params : Value) : Except Stop Bytes := do
  let fields ← getGenericParams params
  let binding ← engine T [(nameKey, name), (.stubClassName, getStubClassName info),
    (stubKey, getStubGenericName name), (paramsKey, fields)]
  return binding ++ newline

theorem settles_boundText {T : StubTemplate} {nameKey stubKey paramsKey : Placeholder}
    {info : ServiceInfo} {name : Bytes} {params : Value} (mem : T ∈ templates)
    (fits : Fits T [nameKey, .stubClassName, stubKey, paramsKey]) (spelled : .NotifyName ∉ holes T)
    (service : LacksAll [.stubClassName, stubKey, paramsKey] info.name)
    (own : LacksAll [nameKey, .stubClassName, stubKey, paramsKey] name)
    (fields : NamesLack [paramsKey] params) (lacksService : LacksAll ps info.name)
    (lacksName : LacksAll ps name) (lacksParams : NamesLack ps params) :
    Settles .running
      (fun fuel => boundText (sequential fuel) T nameKey stubKey paramsKey info name params)
      (boundText asSpelled T nameKey stubKey paramsKey info name params)
      fun b => LacksAll ps b ∧ b.getLast?.any Placeholder.isFence = true := by
  refine (settles_getGenericParams (fields.append lacksParams)).bind fun list both =>
    settles_newline ?_
  obtain ⟨lacksOwn, lacks⟩ := lacksAll_append.mp both
  refine settles_clear mem fits ?_ (fun inside => absurd inside spelled) ?_
  · refine clear_of_lacksLater _ ⟨own, lacks_getStubClassName service, ?_, lacksOwn, trivial⟩
    exact lacks_getStubGenericName (own.mono fun q later =>
      List.mem_cons_of_mem _ (List.mem_cons_of_mem _ later))
  · exact ⟨lacksName, lacks_getStubClassName lacksService, lacks_getStubGenericName lacksName,
      lacks⟩

theorem settles_procedureBinding {info : ServiceInfo} {r : RpcReturn}
    (service : LacksAll [.stubClassName, .stubProcedureName, .procedureParams] info.name)
    (name : LacksAll [.procedureName, .stubClassName, .stubProcedureName, .procedureParams] r.name)
    (params : NamesLack [.procedureParams] r.params) (lacksService : LacksAll ps info.name)
    (lacksName : LacksAll ps r.name) (lacksParams : NamesLack ps r.params) :
    Settles .running (fun fuel => Service.procedureBinding (sequential fuel) info r)
      (Service.procedureBinding asSpelled info r)
      fun b => LacksAll ps b ∧ b.getLast?.any Placeholder.isFence = true := by
  have mem : stubProcedureBind ∈ templates := by simp [templates]
  exact settles_boundText mem (by decide) (by decide) service name params lacksService lacksName
    lacksParams

theorem settles_notifyBinding {info : ServiceInfo} {r : RpcNotify}
    (service : LacksAll [.stubClassName, .stubNotifyName, .notifyParams] info.name)
    (name : LacksAll [.notifyName, .stubClassName, .stubNotifyName, .notifyParams] r.name)
    (params : NamesLack [.notifyParams] r.params) (lacksService : LacksAll ps info.name)
    (lacksName : LacksAll ps r.name) (lacksParams : NamesLack ps r.params) :
    Settles .running (fun fuel => Service.notifyBinding (sequential fuel) info r)
      (Service.notifyBinding asSpelled info r)
      fun b => LacksAll ps b ∧ b.getLast?.any Placeholder.isFence = true := by
  have mem : stubNotifyBind ∈ templates := by simp [templates]
  exact settles_boundText mem (by decide) (by decide) service name params lacksService lacksName
    lacksParams

/-- What the loops for a stub function with parameters look for, from those for the
accessors on. -/
def procedureKeys : List Placeholder :=
  [.paramsFromJsonArray, .paramsFromJsonObject, .stubProcedureName, .procedureName, .procedureArgs]

theorem settles_procedureFromJson {r : RpcReturn}
    (name : LacksAll [.stubProcedureName, .procedureName, .procedureArgs] r.name)
    (accessors : NamesLack [.arg, .index, .method] r.params)
    (params : NamesLack procedureKeys r.params) (lacksName : LacksAll ps r.name)
    (lacksParams : NamesLack ps r.params) :
    Settles .running (fun fuel => Service.procedureFromJson (sequential fuel) r)
      (Service.procedureFromJson asSpelled r) (LacksAll ps) := by
  have both := params.append lacksParams
  refine (settles_getParamsFromJsonArray accessors both).bind fun array lacksArray => ?_
  refine (settles_getParamsFromJsonObject accessors both).bind fun object lacksObject => ?_
  refine (settles_getGenericArgs both).bind fun args lacksArgs => ?_
  rw [lacksAll_append] at lacksArray lacksObject lacksArgs
  apply settles_clear (by simp [templates])
  · show Fits stubProcedureDefine procedureKeys
    decide
  · refine clear_of_lacksLater _ ⟨lacksArray.1, lacksObject.1.mono ?_,
      lacks_getStubGenericName name, name.mono ?_, lacksArgs.1.mono ?_, trivial⟩
    · simp [procedureKeys]
    · simp
    · simp [procedureKeys]
  · exact fun mem => absurd mem (by decide)
  · exact ⟨lacksArray.2, lacksObject.2, lacks_getStubGenericName lacksName, lacksName, lacksArgs.2⟩

theorem settles_procedureDirect {r : RpcReturn}
    (name : LacksAll [.stubProcedureName, .procedureName] r.name) (lacksName : LacksAll ps r.name) :
    Settles .running (fun fuel => Service.procedureDirect (sequential fuel) r)
      (Service.procedureDirect asSpelled r) (LacksAll ps) := by
  apply settles_clear (by simp [templates])
  · show Fits stubProcedureDefineDirect [.stubProcedureName, .procedureName]
    decide
  · exact clear_of_lacksLater _ ⟨lacks_getStubGenericName name, name.mono (by simp), trivial⟩
  · exact fun mem => absurd mem (by decide)
  · exact ⟨lacks_getStubGenericName lacksName, lacksName⟩

theorem settles_procedureDefinition {r : RpcReturn}
    (name : LacksAll [.stubProcedureName, .procedureName, .procedureArgs] r.name)
    (accessors : NamesLack [.arg, .index, .method] r.params)
    (params : NamesLack procedureKeys r.params) (lacksName : LacksAll ps r.name)
    (lacksParams : NamesLack ps r.params) :
    Settles .running (fun fuel => Service.procedureDefinition (sequential fuel) r)
      (Service.procedureDefinition asSpelled r)
      fun b => LacksAll ps b ∧ b.getLast?.any Placeholder.isFence = true := by
  unfold Service.procedureDefinition
  by_cases some : r.params.getSize > 0
  · simp only [if_pos some]
    exact settles_newline (settles_procedureFromJson name accessors params lacksName lacksParams)
  · simp only [if_neg some]
    exact settles_newline (settles_procedureDirect (name.mono (by simp)) lacksName)

/-- The same for a notification, where the accessors come last. -/
def notifyKeys : List Placeholder :=
  [.notifyName, .stubNotifyName, .notifyArgs, .paramsFromJsonArray, .paramsFromJsonObject]

theorem settles_notifyFromJson {r : RpcNotify} (name : LacksAll notifyKeys r.name)
    (accessors : NamesLack [.arg, .index, .method] r.params)
    (params : NamesLack [.notifyArgs, .paramsFromJsonArray, .paramsFromJsonObject] r.params)
    (misspelled : .NotifyName ∉ ps) (lacksName : LacksAll ps r.name)
    (lacksParams : NamesLack ps r.params) :
    Settles .running (fun fuel => Service.notifyFromJson (sequential fuel) r)
      (Service.notifyFromJson asSpelled r) (LacksAll ps) := by
  have both := params.append lacksParams
  refine (settles_getParamsFromJsonArray accessors both).bind fun array lacksArray => ?_
  refine (settles_getParamsFromJsonObject accessors both).bind fun object lacksObject => ?_
  refine (settles_getGenericArgs both).bind fun args lacksArgs => ?_
  rw [lacksAll_append] at lacksArray lacksObject lacksArgs
  apply settles_clear (by simp [templates])
  · show Fits stubNotifyDefine notifyKeys
    decide
  · refine clear_of_lacksLater _ ⟨name, lacks_getStubGenericName (name.mono ?_), lacksArgs.1,
      lacksArray.1.mono ?_, lacksObject.1.mono ?_, trivial⟩
    · simp [notifyKeys]
    · simp
    · simp
  · exact fun _ => misspelled
  · exact ⟨lacksName, lacks_getStubGenericName lacksName, lacksArgs.2, lacksArray.2, lacksObject.2⟩

theorem settles_notifyDirect {r : RpcNotify} (name : LacksAll [.notifyName, .stubNotifyName] r.name)
    (lacksName : LacksAll ps r.name) :
    Settles .running (fun fuel => Service.notifyDirect (sequential fuel) r)
      (Service.notifyDirect asSpelled r) (LacksAll ps) := by
  apply settles_clear (by simp [templates])
  · show Fits stubNotifyDefineDirect [.stubNotifyName, .notifyName]
    decide
  · refine clear_of_lacksLater _ ⟨lacks_getStubGenericName (name.mono ?_), name.mono ?_, trivial⟩
    · simp
    · simp
  · exact fun mem => absurd mem (by decide)
  · exact ⟨lacks_getStubGenericName lacksName, lacksName⟩

theorem settles_notifyDefinition {r : RpcNotify}
    (name : LacksAll [.notifyName, .stubNotifyName] r.name)
    (withParams : r.params.getSize > 0 → LacksAll notifyKeys r.name ∧ .NotifyName ∉ ps)
    (accessors : NamesLack [.arg, .index, .method] r.params)
    (params : NamesLack [.notifyArgs, .paramsFromJsonArray, .paramsFromJsonObject] r.params)
    (lacksName : LacksAll ps r.name) (lacksParams : NamesLack ps r.params) :
    Settles .running (fun fuel => Service.notifyDefinition (sequential fuel) r)
      (Service.notifyDefinition asSpelled r)
      fun b => LacksAll ps b ∧ b.getLast?.any Placeholder.isFence = true := by
  unfold Service.notifyDefinition
  by_cases some : r.params.getSize > 0
  · simp only [if_pos some]
    obtain ⟨keys, misspelled⟩ := withParams some
    exact settles_newline
      (settles_notifyFromJson keys accessors params misspelled lacksName lacksParams)
  · simp only [if_neg some]
    exact settles_newline (settles_notifyDirect name lacksName)

/-! ## The whole text -/

section

variable {info : ServiceInfo}

/-- The loops that put in the bindings and the definitions. -/
def nested : List Placeholder := [.stubProcedureBindings, .stubProcedureDefinitions]

theorem settles_procedureBindings (clear : ClearNames info) (all : AllLack ps info) :
    Settles .running (fun fuel => Service.getStubProcedureBindings (sequential fuel) info)
      (Service.getStubProcedureBindings asSpelled info) (Lines (nested ++ ps)) := by
  refine settles_lines fun r mem => ?_
  have service := clear.serviceOfReturn mem
  have name := clear.procedures r mem
  have params := clear.procedureParams r mem
  obtain ⟨lacksName, lacksParams⟩ := all.procedures r mem
  apply settles_procedureBinding
  · exact service.mono (by decide)
  · exact name.mono (by decide)
  · exact params.mono (by decide)
  · exact lacksAll_append.mpr ⟨clear.service.mono (by decide), all.service⟩
  · exact lacksAll_append.mpr ⟨name.mono (by decide), lacksName⟩
  · exact (params.mono (by decide)).append lacksParams

theorem settles_notifyBindings (clear : ClearNames info) (all : AllLack ps info) :
    Settles .running (fun fuel => Service.getStubNotifyBindings (sequential fuel) info)
      (Service.getStubNotifyBindings asSpelled info) (Lines (nested ++ ps)) := by
  refine settles_lines fun r mem => ?_
  have service := clear.serviceOfNotify mem
  have name := clear.notifications r mem
  have params := clear.notifyParams r mem
  obtain ⟨lacksName, lacksParams⟩ := all.notifications r mem
  apply settles_notifyBinding
  · exact service.mono (by decide)
  · exact name.mono (by decide)
  · exact params.mono (by decide)
  · exact lacksAll_append.mpr ⟨clear.service.mono (by decide), all.service⟩
  · exact lacksAll_append.mpr ⟨name.mono (by decide), lacksName⟩
  · exact (params.mono (by decide)).append lacksParams

theorem settles_procedureDefinitions (clear : ClearNames info) (all : AllLack ps info) :
    Settles .running (fun fuel => Service.getStubProcedureDefinitions (sequential fuel) info)
      (Service.getStubProcedureDefinitions asSpelled info)
      (Lines ([.stubProcedureDefinitions] ++ ps)) := by
  refine settles_lines fun r mem => ?_
  have name := clear.procedures r mem
  have params := clear.procedureParams r mem
  obtain ⟨lacksName, lacksParams⟩ := all.procedures r mem
  apply settles_procedureDefinition
  · exact name.mono (by decide)
  · exact params.mono (by decide)
  · exact params.mono (by decide)
  · exact lacksAll_append.mpr ⟨name.mono (by decide), lacksName⟩
  · exact (params.mono (by decide)).append lacksParams

theorem settles_notifyDefinitions (clear : ClearNames info) (all : AllLack ps info)
    (misspelled : ∀ r ∈ info.rpcNotify, r.params.getSize > 0 → .NotifyName ∉ ps) :
    Settles .running (fun fuel => Service.getStubNotifyDefinitions (sequential fuel) info)
      (Service.getStubNotifyDefinitions asSpelled info)
      (Lines ([.stubProcedureDefinitions] ++ ps)) := by
  refine settles_lines fun r mem => ?_
  have name := clear.notifications r mem
  have params := clear.notifyParams r mem
  obtain ⟨lacksName, lacksParams⟩ := all.notifications r mem
  apply settles_notifyDefinition
  · exact name.mono (by decide)
  · intro some
    refine ⟨(clear.notifyWithParams mem some).mono (by decide), ?_⟩
    rw [List.mem_append, not_or]
    exact ⟨by decide, misspelled r mem some⟩
  · exact params.mono (by decide)
  · exact params.mono (by decide)
  · exact lacksAll_append.mpr ⟨name.mono (by decide), lacksName⟩
  · exact (params.mono (by decide)).append lacksParams

/-- **The generator of the server ends**, if the names are clear. -/
theorem settles_getStub (clear : ClearNames info) (all : AllLack ps info)
    (misspelled : ∀ r ∈ info.rpcNotify, r.params.getSize > 0 → .NotifyName ∉ ps) :
    Settles .running (fun fuel => Service.getStub (sequential fuel) info)
      (Service.getStub asSpelled info) (LacksAll ps) := by
  refine (settles_procedureBindings clear all).bind fun bindings first => ?_
  refine (settles_notifyBindings clear all).bind fun notifyBindings second => ?_
  refine (settles_procedureDefinitions clear all).bind fun definitions third => ?_
  refine (settles_notifyDefinitions clear all misspelled).bind fun notifyDefinitions fourth => ?_
  obtain ⟨ownBindings, lacksBindings⟩ := lacksAll_append.mp (first.append second).lacks
  obtain ⟨ownDefinitions, lacksDefinitions⟩ := lacksAll_append.mp (third.append fourth).lacks
  have macroName : ∀ {qs}, LacksAll qs (info.name.map toupper) →
      LacksAll qs (Service.getMacroName info) := fun upper => lacksAll_suffix upper rfl (by decide)
  apply settles_clear (by simp [templates])
  · show Fits servicesStub [.macroName, .userClassName, .stubClassName, .serviceName,
      .stubProcedureBindings, .stubProcedureDefinitions]
    decide
  · refine clear_of_lacksLater _ ⟨macroName (lacks_macroName (by simp)),
      lacks_getUserClassName (clear.service.mono ?_),
      lacks_getStubClassName (clear.service.mono ?_), clear.service.mono ?_, ownBindings,
      ownDefinitions, trivial⟩
    · simp [searchedInService]
    · simp [searchedInService]
    · simp [searchedInService]
  · exact fun mem => absurd mem (by decide)
  · exact ⟨macroName all.macroName, lacks_getUserClassName all.service,
      lacks_getStubClassName all.service, all.service, lacksBindings, lacksDefinitions⟩

end

end LaliRpc.Zrpc.StubText.Service
