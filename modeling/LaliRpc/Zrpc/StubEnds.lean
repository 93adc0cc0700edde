/-
# Zrpc.StubEnds — whether the generators end

For clear names every loop ends (`ends_of_clearNames`). A name that has in it the
placeholder of an argument that the name is part of is put in for ever
(`grounded_of_ends`). In between, for names with placeholders of other arguments,
a loop rewrites what earlier loops have put together out of several names, and it
may end or not.
-/
import LaliRpc.Zrpc.ClientStubLoops
import LaliRpc.Zrpc.ServiceStubLoops
import LaliRpc.Zrpc.StubAsserts

namespace LaliRpc.Zrpc.StubText

open LaliRpc.Jackson LaliRpc.Theory LaliRpc.Theory.Substitution StubTemplate

set_option autoImplicit false

/-- Every loop that the two generators run has ended after so many searches. -/
def Ends (info : ServiceInfo) : Prop :=
  ∃ fuel, Service.getStub (sequential fuel) info ≠ .error .running ∧
    Client.getStub (sequential fuel) info ≠ .error .running

variable {p : Placeholder} {ps : List Placeholder} {info : ServiceInfo} {s t : Bytes}

theorem lacksAll_none (s : Bytes) : LacksAll [] s := fun _ mem => absurd mem List.not_mem_nil

theorem allLack_none (info : ServiceInfo) : AllLack [] info :=
  ⟨lacksAll_none _, lacksAll_none _, fun _ _ => ⟨lacksAll_none _, fun _ _ _ _ => lacksAll_none _⟩,
    fun _ _ => ⟨lacksAll_none _, fun _ _ _ _ => lacksAll_none _⟩⟩

/-- For clear names there is a number of searches that is enough for the server. -/
theorem Service.settles_of_clear (clear : ClearNames info) :
    Settles .running (fun fuel => Service.getStub (sequential fuel) info)
      (Service.getStub asSpelled info) (LacksAll []) :=
  Service.settles_getStub clear (allLack_none info) fun _ _ _ => List.not_mem_nil

/-- And one for the client. -/
theorem Client.settles_of_clear (clear : ClearNames info) :
    Settles .running (fun fuel => Client.getStub (sequential fuel) info)
      (Client.getStub asSpelled info) (LacksAll []) :=
  Client.settles_getStub clear (allLack_none info)

theorem ends_of_clearNames (clear : ClearNames info) : Ends info := by
  have server := Service.settles_of_clear clear
  have client := Client.settles_of_clear clear
  obtain ⟨N, server_eq⟩ := server.same
  obtain ⟨M, client_eq⟩ := client.same
  refine ⟨max N M, ?_, ?_⟩
  · rw [server_eq _ (le_max_left N M)]
    exact server.done
  · rw [client_eq _ (le_max_right N M)]
    exact client.done

/-! ## What a text that came out says of the names -/

theorem LacksAll.within (lacks : LacksAll ps t) (inside : s <:+: t) : LacksAll ps s :=
  fun p searched occurs => lacks p searched (occurs.trans inside)

/-- The loops for the keys do not search for the other placeholders. -/
def Apart (keys ps : List Placeholder) : Prop := keys.Nodup ∧ ∀ q ∈ ps, q ∉ keys

instance (keys ps : List Placeholder) : Decidable (Apart keys ps) :=
  inferInstanceAs (Decidable (_ ∧ _))

/-- What a template function has put in lacks its placeholder, and those that the
text lacks, but for the ones that were searched for. -/
theorem lacks_arguments {fuel : Nat} {T : StubTemplate} {rs : List (Placeholder × Bytes)}
    (keys : List Placeholder) (ok : sequential fuel T rs = .ok s) (same : rs.map Prod.fst = keys)
    (apart : Apart keys ps) (lacks : LacksAll ps s) :
    rs.Forall fun (p, v) => p ∈ holes T → LacksAll (p :: ps) v := by
  rw [List.forall_iff_forall_mem]
  rintro ⟨p, v⟩ listed inside
  have spelled : p.spelling <:+: fill Placeholder.spelling T := by
    obtain ⟨piece, mem, shape⟩ := List.mem_filterMap.mp inside
    cases piece with
    | text _ => cases shape
    | hole q => exact Option.some.inj shape ▸ infix_fill mem
  unfold sequential at ok
  cases loops : Placeholder.words.replaceEach rs fuel (fill Placeholder.spelling T) with
  | none =>
      rw [loops] at ok
      cases ok
  | some str =>
      rw [loops] at ok
      obtain rfl := Except.ok.inj ok
      obtain ⟨distinct, others⟩ := apart
      obtain ⟨own, kept⟩ := Words.replaceEach_shows (same ▸ distinct) listed spelled loops
      refine List.forall_mem_cons.mpr ⟨own, fun q searched occurs => ?_⟩
      exact lacks q searched (kept q (same ▸ others q searched) occurs)

theorem lacks_of_suffix {suffix : Bytes} (lacks : LacksAll ps (s ++ suffix)) : LacksAll ps s :=
  lacks.within (List.prefix_append s suffix).isInfix

theorem lacks_step {α : Type} {as : List α} {f : α → Except Stop Bytes}
    (ok : (as.mapM f >>= fun bs => pure bs.flatten) = .ok s) (lacks : LacksAll ps s) {a : α}
    (mem : a ∈ as) : ∃ b, f a = .ok b ∧ LacksAll ps b := by
  obtain ⟨blocks, made, same⟩ := except_bind_eq_ok.mp ok
  obtain rfl := Except.ok.inj same
  obtain ⟨b, listed, step⟩ := mapM_ok_mem made mem
  exact ⟨b, step, lacks.within (List.infix_of_mem_flatten listed)⟩

theorem lacks_line {x : Except Stop Bytes} (ok : (x >>= fun str => pure (str ++ newline)) = .ok s)
    (lacks : LacksAll ps s) : ∃ b, x = .ok b ∧ LacksAll ps b := by
  obtain ⟨b, made, same⟩ := except_bind_eq_ok.mp ok
  obtain rfl := Except.ok.inj same
  exact ⟨b, made, lacks_of_suffix lacks⟩

theorem lacks_of_quoted (lacks : LacksAll ps (quoted s)) : LacksAll ps s :=
  lacks.within ⟨[chr '"'], [chr '"'], rfl⟩

namespace Service

variable {fuel : Nat} {params : Value}

theorem lacks_getGenericParams (ok : getGenericParams params = .ok s) (lacks : LacksAll ps s) :
    NamesLack ps params := by
  rintro declared rfl m mem
  obtain ⟨field, made, lacksField⟩ := lacks_step ok lacks mem
  obtain ⟨type, -, same⟩ := except_bind_eq_ok.mp made
  obtain rfl := Except.ok.inj same
  apply lacks_of_quoted
  exact lacksField.within ⟨comma ++ newline, comma ++ type, by simp⟩

theorem lacks_getGenericArgs (ok : getGenericArgs params = .ok s) (lacks : LacksAll ps s) :
    NamesLack ps params := by
  rintro declared rfl m mem
  obtain rfl := Except.ok.inj ok
  have listed : m.1 ++ comma ∈ declared.map fun m => m.1 ++ comma := List.mem_map_of_mem mem
  exact lacks_of_suffix (lacks.within (List.infix_of_mem_flatten listed))

theorem lacks_argsDefine {arg index : Bytes} {type : ValueType}
    (ok : argsDefineTemplate (sequential fuel) arg index type = .ok s)
    (apart : Apart [.arg, .index, .method] ps) (lacks : LacksAll ps s) :
    LacksAll (.arg :: ps) arg ∧ LacksAll (.index :: ps) index := by
  obtain ⟨method, -, ok⟩ := except_bind_eq_ok.mp ok
  obtain ⟨argLacks, indexLacks, -⟩ := lacks_arguments _ ok rfl apart lacks
  exact ⟨argLacks (by decide), indexLacks (by decide)⟩

theorem lacks_getParamsFromJsonArray
    (ok : getParamsFromJsonArray (sequential fuel) params = .ok s)
    (apart : Apart [.arg, .index, .method] ps) (lacks : LacksAll ps s) : NamesLack ps params := by
  rintro declared rfl m mem
  obtain ⟨i, at_i⟩ := List.getElem?_of_mem mem
  have listed : (m, i) ∈ declared.zipIdx := List.mk_mem_zipIdx_iff_getElem?.mpr at_i
  obtain ⟨line, made, lacksLine⟩ := lacks_step ok lacks listed
  obtain ⟨accessor, made, lacksAccessor⟩ := lacks_line made lacksLine
  exact (lacks_argsDefine made apart lacksAccessor).1.mono fun q => List.mem_cons_of_mem _

theorem lacks_getParamsFromJsonObject
    (ok : getParamsFromJsonObject (sequential fuel) params = .ok s)
    (apart : Apart [.arg, .index, .method] ps) (lacks : LacksAll ps s) :
    NamesLack (.arg :: .index :: ps) params := by
  rintro declared rfl m mem
  obtain ⟨line, made, lacksLine⟩ := lacks_step ok lacks mem
  obtain ⟨accessor, made, lacksAccessor⟩ := lacks_line made lacksLine
  obtain ⟨arg, index⟩ := lacks_argsDefine made apart lacksAccessor
  exact List.forall_mem_cons.mpr ⟨arg .arg List.mem_cons_self, lacks_of_quoted index⟩

theorem lacks_boundText {T : StubTemplate} {nameKey stubKey paramsKey : Placeholder} {name : Bytes}
    (ok : boundText (sequential fuel) T nameKey stubKey paramsKey info name params = .ok s)
    (fill : ∀ q ∈ [nameKey, .stubClassName, stubKey, paramsKey], q ∈ holes T)
    (apart : Apart [nameKey, .stubClassName, stubKey, paramsKey] ps) (lacks : LacksAll ps s) :
    LacksAll ps info.name ∧ LacksAll (nameKey :: stubKey :: ps) name ∧
      NamesLack (paramsKey :: ps) params := by
  obtain ⟨fields, made, ok⟩ := except_bind_eq_ok.mp ok
  obtain ⟨binding, bound, lacks⟩ := lacks_line ok lacks
  obtain ⟨own, className, stubName, list⟩ := lacks_arguments _ bound rfl apart lacks
  refine ⟨?_, ?_, lacks_getGenericParams made (list (fill _ (by simp)))⟩
  · exact (lacks_of_suffix (className (fill _ (by simp)))).mono fun q => List.mem_cons_of_mem _
  · exact List.forall_mem_cons.mpr ⟨own (fill _ (by simp)) _ List.mem_cons_self,
      lacks_of_suffix (stubName (fill _ (by simp)))⟩

theorem lacks_procedureBinding {r : RpcReturn}
    (ok : procedureBinding (sequential fuel) info r = .ok s)
    (lacks : LacksAll [.stubProcedureBindings] s) :
    LacksAll [.stubProcedureBindings] info.name ∧
      LacksAll [.procedureName, .stubProcedureName, .stubProcedureBindings] r.name ∧
      NamesLack [.procedureParams, .stubProcedureBindings] r.params :=
  lacks_boundText ok (by decide) (by decide) lacks

theorem lacks_notifyBinding {r : RpcNotify} (ok : notifyBinding (sequential fuel) info r = .ok s)
    (lacks : LacksAll [.stubProcedureBindings] s) :
    LacksAll [.stubProcedureBindings] info.name ∧
      LacksAll [.notifyName, .stubNotifyName, .stubProcedureBindings] r.name ∧
      NamesLack [.notifyParams, .stubProcedureBindings] r.params :=
  lacks_boundText ok (by decide) (by decide) lacks

theorem namesLack_of_size (none : ¬ params.getSize > 0) : NamesLack ps params := by
  rintro declared rfl m mem
  exact absurd (List.length_pos_of_mem mem) none

theorem lacks_procedureDefinition {r : RpcReturn}
    (ok : procedureDefinition (sequential fuel) r = .ok s)
    (lacks : LacksAll [.stubProcedureDefinitions] s) :
    LacksAll [.stubProcedureName, .stubProcedureDefinitions] r.name ∧
      NamesLack [.arg, .index, .paramsFromJsonArray, .paramsFromJsonObject, .procedureArgs,
        .stubProcedureDefinitions] r.params := by
  unfold procedureDefinition at ok
  by_cases some : r.params.getSize > 0
  · simp only [if_pos some] at ok
    obtain ⟨define, made, lacks⟩ := lacks_line ok lacks
    obtain ⟨array, fromArray, made⟩ := except_bind_eq_ok.mp made
    obtain ⟨object, fromObject, made⟩ := except_bind_eq_ok.mp made
    obtain ⟨args, fromArgs, made⟩ := except_bind_eq_ok.mp made
    obtain ⟨arrayLacks, objectLacks, stubName, -, argsLacks⟩ := lacks_arguments
      procedureKeys made rfl (by decide) lacks
    refine ⟨lacks_of_suffix (stubName (by decide)), ?_⟩
    have inArray := lacks_getParamsFromJsonArray fromArray (by decide) (arrayLacks (by decide))
    have inObject := lacks_getParamsFromJsonObject fromObject (by decide) (objectLacks (by decide))
    have inArgs := lacks_getGenericArgs fromArgs (argsLacks (by decide))
    exact ((inArray.append inObject).append inArgs).mono (by decide)
  · simp only [if_neg some] at ok
    obtain ⟨define, made, lacks⟩ := lacks_line ok lacks
    obtain ⟨stubName, -⟩ := lacks_arguments [.stubProcedureName, .procedureName] made rfl
      (by decide) lacks
    exact ⟨lacks_of_suffix (stubName (by decide)), namesLack_of_size some⟩

theorem lacks_notifyDefinition {r : RpcNotify}
    (ok : notifyDefinition (sequential fuel) r = .ok s)
    (lacks : LacksAll [.stubProcedureDefinitions] s) :
    LacksAll [.stubNotifyName, .stubProcedureDefinitions] r.name ∧
      NamesLack [.arg, .index, .paramsFromJsonArray, .paramsFromJsonObject, .notifyArgs,
        .stubProcedureDefinitions] r.params := by
  unfold notifyDefinition at ok
  by_cases some : r.params.getSize > 0
  · simp only [if_pos some] at ok
    obtain ⟨define, made, lacks⟩ := lacks_line ok lacks
    obtain ⟨array, fromArray, made⟩ := except_bind_eq_ok.mp made
    obtain ⟨object, fromObject, made⟩ := except_bind_eq_ok.mp made
    obtain ⟨args, fromArgs, made⟩ := except_bind_eq_ok.mp made
    obtain ⟨-, stubName, argsLacks, arrayLacks, objectLacks⟩ := lacks_arguments
      notifyKeys made rfl (by decide) lacks
    refine ⟨lacks_of_suffix (stubName (by decide)), ?_⟩
    have inArray := lacks_getParamsFromJsonArray fromArray (by decide) (arrayLacks (by decide))
    have inObject := lacks_getParamsFromJsonObject fromObject (by decide) (objectLacks (by decide))
    have inArgs := lacks_getGenericArgs fromArgs (argsLacks (by decide))
    exact ((inArray.append inObject).append inArgs).mono (by decide)
  · simp only [if_neg some] at ok
    obtain ⟨define, made, lacks⟩ := lacks_line ok lacks
    obtain ⟨stubName, -⟩ := lacks_arguments [.stubNotifyName, .notifyName] made rfl
      (by decide) lacks
    exact ⟨lacks_of_suffix (stubName (by decide)), namesLack_of_size some⟩

end Service

namespace Client

variable {fuel : Nat} {params : Value}

theorem infix_intercalate {sep b : Bytes} : ∀ {blocks : List Bytes}, b ∈ blocks →
    b <:+: sep.intercalate blocks
  | c :: blocks, mem => by
      cases blocks with
      | nil =>
          obtain rfl := List.mem_singleton.mp mem
          rw [List.intercalate_singleton]
      | cons d blocks =>
          rw [List.intercalate_cons_cons]
          rcases List.mem_cons.mp mem with rfl | later
          · exact ⟨[], sep ++ sep.intercalate (d :: blocks), by simp⟩
          · exact List.infix_append_of_infix_right (infix_intercalate later)

theorem lacks_getGenericArgs {append : Bool}
    (ok : getGenericArgs (sequential fuel) params append = .ok s)
    (apart : Apart [.argType, .argName] ps) (lacks : LacksAll ps s) :
    NamesLack (.argName :: ps) params := by
  rintro declared rfl m mem
  obtain ⟨members, object, ok⟩ := except_bind_eq_ok.mp ok
  obtain rfl := Except.ok.inj object
  obtain ⟨ones, made, same⟩ := except_bind_eq_ok.mp ok
  obtain ⟨one, listed, made⟩ := mapM_ok_mem made mem
  obtain ⟨type, -, made⟩ := except_bind_eq_ok.mp made
  have separated : LacksAll ps (comma.intercalate ones) := by
    obtain rfl := Except.ok.inj same
    by_cases some : append ∧ ones ≠ []
    · rw [if_pos some] at lacks
      exact lacks_of_suffix lacks
    · rw [if_neg some] at lacks
      exact lacks
  obtain ⟨-, name⟩ := lacks_arguments _ made rfl apart
    (separated.within (infix_intercalate listed))
  exact name (by decide)

theorem lacks_getGenericParamMembers
    (ok : getGenericParamMembers (sequential fuel) params = .ok s) (apart : Apart [.paramName] ps)
    (lacks : LacksAll ps s) : NamesLack (.paramName :: ps) params := by
  rintro declared rfl m mem
  obtain ⟨member, made, lacksMember⟩ := lacks_step ok lacks mem
  have name := lacks_arguments _ made rfl apart lacksMember
  exact name (by decide)

theorem lacks_procedureDefinition {r : RpcReturn}
    (ok : procedureDefinition (sequential fuel) info r = .ok s)
    (lacks : LacksAll [.procedureDefinitions] s) :
    LacksAll [.serviceName, .procedureDefinitions] info.name ∧
      LacksAll [.procedureName, .procedureDefinitions] r.name ∧
      NamesLack [.argName, .procedureArgs, .paramName, .paramMembers, .procedureDefinitions]
        r.params := by
  obtain ⟨args, fromArgs, made⟩ := except_bind_eq_ok.mp ok
  obtain ⟨members, fromMembers, made⟩ := except_bind_eq_ok.mp made
  obtain ⟨service, name, argsLacks, membersLacks⟩ := lacks_arguments [.serviceName,
    .procedureName, .procedureArgs, .paramMembers] made rfl (by decide) lacks
  refine ⟨service (by decide), name (by decide), ?_⟩
  have inArgs := lacks_getGenericArgs fromArgs (by decide) (argsLacks (by decide))
  have inMembers := lacks_getGenericParamMembers fromMembers (by decide) (membersLacks (by decide))
  exact (inArgs.append inMembers).mono (by decide)

theorem lacks_notifyDefinition {r : RpcNotify}
    (ok : notifyDefinition (sequential fuel) info r = .ok s)
    (lacks : LacksAll [.notifyDefinitions] s) :
    LacksAll [.notifyName, .notifyDefinitions] r.name ∧
      NamesLack [.argName, .notifyArgs, .paramName, .paramMembers, .notifyDefinitions]
        r.params := by
  obtain ⟨args, fromArgs, made⟩ := except_bind_eq_ok.mp ok
  obtain ⟨members, fromMembers, made⟩ := except_bind_eq_ok.mp made
  obtain ⟨-, name, argsLacks, membersLacks⟩ := lacks_arguments [.serviceName,
    .notifyName, .notifyArgs, .paramMembers] made rfl (by decide) lacks
  refine ⟨name (by decide), ?_⟩
  have inArgs := lacks_getGenericArgs fromArgs (by decide) (argsLacks (by decide))
  have inMembers := lacks_getGenericParamMembers fromMembers (by decide) (membersLacks (by decide))
  exact (inArgs.append inMembers).mono (by decide)

end Client

/-! ## Names that are put into themselves -/

/-- The placeholders that are filled with texts that have the name of the service in
them. -/
def filledWithService : List Placeholder := [.userClassName, .stubClassName, .serviceName]

/-- Those for the name of a procedure. -/
def filledWithProcedure : List Placeholder :=
  [.procedureName, .stubProcedureName, .stubProcedureBindings, .stubProcedureDefinitions,
    .procedureDefinitions]

/-- Those for the name of a parameter of a procedure. -/
def filledWithProcedureParam : List Placeholder :=
  [.procedureParams, .stubProcedureBindings, .arg, .index, .paramsFromJsonArray,
    .paramsFromJsonObject, .procedureArgs, .stubProcedureDefinitions, .argName, .paramName,
    .paramMembers, .procedureDefinitions]

/-- Those for the name of a notification. -/
def filledWithNotify : List Placeholder :=
  [.notifyName, .stubNotifyName, .stubProcedureBindings, .stubProcedureDefinitions,
    .notifyDefinitions]

/-- Those for the name of a parameter of a notification. -/
def filledWithNotifyParam : List Placeholder :=
  [.notifyParams, .stubProcedureBindings, .arg, .index, .paramsFromJsonArray,
    .paramsFromJsonObject, .notifyArgs, .stubProcedureDefinitions, .argName, .paramName,
    .paramMembers, .notifyDefinitions]

/-- No name has a placeholder that is filled with a text with that name in it. -/
structure Grounded (info : ServiceInfo) : Prop where
  service : LacksAll filledWithService info.name
  withProcedures : info.rpcReturn ≠ [] →
    LacksAll [.stubProcedureBindings, .procedureDefinitions] info.name
  withNotifications : info.rpcNotify ≠ [] → LacksAll [.stubProcedureBindings] info.name
  procedures : ∀ r ∈ info.rpcReturn,
    LacksAll filledWithProcedure r.name ∧ NamesLack filledWithProcedureParam r.params
  notifications : ∀ r ∈ info.rpcNotify,
    LacksAll filledWithNotify r.name ∧ NamesLack filledWithNotifyParam r.params

theorem Service.lacks_getStub {fuel : Nat} {str : Bytes}
    (ok : Service.getStub (sequential fuel) info = .ok str) :
    LacksAll filledWithService info.name ∧
      (∀ r ∈ info.rpcReturn, LacksAll [.stubProcedureBindings] info.name ∧
        LacksAll [.procedureName, .stubProcedureName, .stubProcedureBindings,
          .stubProcedureDefinitions] r.name ∧
        NamesLack [.procedureParams, .stubProcedureBindings, .arg, .index, .paramsFromJsonArray,
          .paramsFromJsonObject, .procedureArgs, .stubProcedureDefinitions] r.params) ∧
      ∀ r ∈ info.rpcNotify, LacksAll [.stubProcedureBindings] info.name ∧
        LacksAll [.notifyName, .stubNotifyName, .stubProcedureBindings,
          .stubProcedureDefinitions] r.name ∧
        NamesLack [.notifyParams, .stubProcedureBindings, .arg, .index, .paramsFromJsonArray,
          .paramsFromJsonObject, .notifyArgs, .stubProcedureDefinitions] r.params := by
  obtain ⟨bindings, first, ok⟩ := except_bind_eq_ok.mp ok
  obtain ⟨notifyBindings, second, ok⟩ := except_bind_eq_ok.mp ok
  obtain ⟨definitions, third, ok⟩ := except_bind_eq_ok.mp ok
  obtain ⟨notifyDefinitions, fourth, ok⟩ := except_bind_eq_ok.mp ok
  obtain ⟨-, userClass, stubClass, name, inBindings, inDefinitions⟩ := lacks_arguments
    [.macroName, .userClassName, .stubClassName, .serviceName, .stubProcedureBindings,
      .stubProcedureDefinitions] ok rfl (by decide) (lacksAll_none str)
  have inBindings := inBindings (by decide)
  have inDefinitions := inDefinitions (by decide)
  refine ⟨?_, fun r mem => ?_, fun r mem => ?_⟩
  · have own := lacks_of_suffix (userClass (by decide))
    have stub := lacks_of_suffix (stubClass (by decide))
    exact (lacksAll_append.mpr ⟨own, lacksAll_append.mpr ⟨stub, name (by decide)⟩⟩).mono (by decide)
  · obtain ⟨b, binding, lacks⟩ := lacks_step first (lacks_of_suffix inBindings) mem
    obtain ⟨service, bound, params⟩ := lacks_procedureBinding binding lacks
    obtain ⟨d, definition, lacks⟩ := lacks_step third (lacks_of_suffix inDefinitions) mem
    obtain ⟨defined, accessors⟩ := lacks_procedureDefinition definition lacks
    exact ⟨service, (lacksAll_append.mpr ⟨bound, defined⟩).mono (by decide),
      (params.append accessors).mono (by decide)⟩
  · have behind := inBindings.within (List.suffix_append bindings _).isInfix
    obtain ⟨b, binding, lacks⟩ := lacks_step second behind mem
    obtain ⟨service, bound, params⟩ := lacks_notifyBinding binding lacks
    have behind := inDefinitions.within (List.suffix_append definitions _).isInfix
    obtain ⟨d, definition, lacks⟩ := lacks_step fourth behind mem
    obtain ⟨defined, accessors⟩ := lacks_notifyDefinition definition lacks
    exact ⟨service, (lacksAll_append.mpr ⟨bound, defined⟩).mono (by decide),
      (params.append accessors).mono (by decide)⟩

theorem Client.lacks_getStub {fuel : Nat} {str : Bytes}
    (ok : Client.getStub (sequential fuel) info = .ok str) :
    (∀ r ∈ info.rpcReturn, LacksAll [.serviceName, .procedureDefinitions] info.name ∧
        LacksAll [.procedureName, .procedureDefinitions] r.name ∧
        NamesLack [.argName, .procedureArgs, .paramName, .paramMembers, .procedureDefinitions]
          r.params) ∧
      ∀ r ∈ info.rpcNotify, LacksAll [.notifyName, .notifyDefinitions] r.name ∧
        NamesLack [.argName, .notifyArgs, .paramName, .paramMembers, .notifyDefinitions]
          r.params := by
  obtain ⟨methods, first, ok⟩ := except_bind_eq_ok.mp ok
  obtain ⟨notifyMethods, second, ok⟩ := except_bind_eq_ok.mp ok
  obtain ⟨-, -, inMethods, inNotifyMethods⟩ := lacks_arguments
    [.macroName, .stubClassName, .procedureDefinitions, .notifyDefinitions] ok rfl
    (by decide) (lacksAll_none str)
  refine ⟨fun r mem => ?_, fun r mem => ?_⟩
  · obtain ⟨m, method, lacks⟩ := lacks_step first (inMethods (by decide)) mem
    exact lacks_procedureDefinition method lacks
  · obtain ⟨m, method, lacks⟩ := lacks_step second (inNotifyMethods (by decide)) mem
    exact lacks_notifyDefinition method lacks

theorem grounded_of_text {fuel : Nat} {server client : Bytes}
    (serverOk : Service.getStub (sequential fuel) info = .ok server)
    (clientOk : Client.getStub (sequential fuel) info = .ok client) : Grounded info := by
  obtain ⟨service, procedures, notifies⟩ := Service.lacks_getStub serverOk
  obtain ⟨methods, notifyMethods⟩ := Client.lacks_getStub clientOk
  refine ⟨service, fun some => ?_, fun some => ?_, fun r mem => ?_, fun r mem => ?_⟩
  · obtain ⟨r, mem⟩ := List.exists_mem_of_ne_nil _ some
    exact (lacksAll_append.mpr ⟨(procedures r mem).1, (methods r mem).1⟩).mono (by decide)
  · obtain ⟨r, mem⟩ := List.exists_mem_of_ne_nil _ some
    exact (notifies r mem).1
  · obtain ⟨-, name, params⟩ := procedures r mem
    obtain ⟨-, name', params'⟩ := methods r mem
    exact ⟨(lacksAll_append.mpr ⟨name, name'⟩).mono (by decide),
      (params.append params').mono (by decide)⟩
  · obtain ⟨-, name, params⟩ := notifies r mem
    obtain ⟨name', params'⟩ := notifyMethods r mem
    exact ⟨(lacksAll_append.mpr ⟨name, name'⟩).mono (by decide),
      (params.append params').mono (by decide)⟩

theorem grounded_of_ends (typed : AllTyped info) (ends : Ends info) : Grounded info := by
  obtain ⟨fuel, server, client⟩ := ends
  obtain ⟨_, serverOk⟩ := text_of_ended server (Service.getStub_ne (silent_sequential fuel) typed)
  obtain ⟨_, clientOk⟩ := text_of_ended client (Client.getStub_ne (silent_sequential fuel) typed)
  exact grounded_of_text serverOk clientOk

/-- The procedure `add(lhs, rhs)` and the notification `hello`. -/
def arith : ServiceInfo where
  name := ascii "S"
  rpcReturn := [⟨ascii "add", .object [(ascii "lhs", .int32 1), (ascii "rhs", .int32 1)], .int32 2⟩]
  rpcNotify := [⟨ascii "hello", .object []⟩]

theorem arith_plain : PlainNames arith := by
  refine ⟨by decide, fun r mem => ?_, fun r mem => ?_⟩
  · obtain rfl := List.mem_singleton.mp mem
    refine ⟨by decide, fun declared same => ?_⟩
    obtain rfl := Value.object.inj same
    decide
  · obtain rfl := List.mem_singleton.mp mem
    refine ⟨by decide, fun declared same => ?_⟩
    obtain rfl := Value.object.inj same
    decide

/-- A service that is named `[serviceName]`, and has no entries. -/
def selfNamed : Value :=
  .object [(ascii "name", .string (ascii "[serviceName]")), (ascii "rpc", .array [])]

theorem selfNamed_stuck :
    ∃ info, StubGenerator.parseProto selfNamed = .ok info ∧ AllTyped info ∧
      ∀ fuel, Service.getStub (sequential fuel) info = .error .running := by
  let info : ServiceInfo := ⟨ascii "[serviceName]", [], []⟩
  have typed : AllTyped info := ⟨nofun, nofun⟩
  refine ⟨info, rfl, typed, fun fuel => ?_⟩
  by_contra ended
  obtain ⟨str, ok⟩ := text_of_ended ended (Service.getStub_ne (silent_sequential fuel) typed)
  have lacks := (Service.lacks_getStub ok).1 .serviceName (by decide)
  exact lacks List.infix_rfl

theorem selfNamed_never_ends :
    ∃ info, StubGenerator.parseProto selfNamed = .ok info ∧ AllTyped info ∧ ¬ Ends info := by
  obtain ⟨info, parsed, typed, never⟩ := selfNamed_stuck
  exact ⟨info, parsed, typed, fun ⟨fuel, server, _⟩ => server (never fuel)⟩

end LaliRpc.Zrpc.StubText
