/-
# Zrpc.StubRendering — the text is the code, written down

The generated files are modelled twice: as the statements that the generated C++
runs (`ServiceStub`, `ClientStub`), and as the text that the templates become
(`StubText`). Here every statement gets its text. What a generator writes is the
text of the code that the other model has for the description
(`renders_server`, `renders_client`), and for clear names the loops write no other
(`written_server`, `written_client`).
-/
import LaliRpc.Zrpc.StubEnds

namespace LaliRpc.Zrpc

open LaliRpc.Jackson LaliRpc.Theory LaliRpc.Theory.Substitution StubTemplate
open StubText (asSpelled sequential quoted newline comma toupper)

set_option autoImplicit false

theorem renders_getObject (params : Value) :
    Renders id (StubText.getObject params) params.getObject := by
  cases params with
  | object members => exact renders_ok members
  | null | bool _ | int32 _ | int64 _ | double _ | string _ | array _ => exact renders_error _ _

/-- Texts rendered one by one, and put behind each other. -/
theorem renders_each {α γ : Type} {as : List α} {f : α → Except StubText.Stop Bytes}
    {g : α → Except Thrown γ} {render : γ → Bytes} (each : ∀ a, Renders render (f a) (g a)) :
    Renders (fun cs => (cs.map render).flatten) (as.mapM f >>= fun bs => pure bs.flatten)
      (as.mapM g) :=
  (renders_mapM fun a _ => each a).map List.flatten

/-- A template with its arguments, as far as the spelling goes. -/
def written (T : StubTemplate) (rs : List (Placeholder × Bytes)) : Bytes :=
  fill (subst rs Placeholder.spelling) T

/-! ## The server -/

namespace ServiceStubGenerator

def Getter.text : Getter → Bytes
  | .getBool => ascii ".getBool()"
  | .getInt32 => ascii ".getInt32()"
  | .getInt64 => ascii ".getInt64()"
  | .getDouble => ascii ".getDouble()"
  | .getString => ascii ".getString()"
  | .value => []

def Index.text : Index → Bytes
  | .element index => toDecimal index
  | .member name => quoted name

def ArgsDefine.text (d : ArgsDefine) : Bytes :=
  written argsDefine [(.arg, d.arg), (.index, d.index.text), (.method, d.method.text)]

/-- The name of a type; the null type has none. -/
def typeText : ValueType → Bytes
  | .bool => ascii "json::TYPE_BOOL"
  | .int32 => ascii "json::TYPE_INT32"
  | .int64 => ascii "json::TYPE_INT64"
  | .double => ascii "json::TYPE_DOUBLE"
  | .string => ascii "json::TYPE_STRING"
  | .object => ascii "json::TYPE_OBJECT"
  | .array => ascii "json::TYPE_ARRAY"
  | .null => []

def paramText (p : Param) : Bytes :=
  comma ++ newline ++ quoted p.paramName ++ comma ++ typeText p.paramType

def paramsText (params : List Param) : Bytes := (params.map paramText).flatten

def accessorsText (accessors : List ArgsDefine) : Bytes :=
  (accessors.map fun d => d.text ++ newline).flatten

def argsText (args : List Bytes) : Bytes := (args.map (· ++ comma)).flatten

/-- As `service->addProcedureReturn(…)`. -/
def Binding.procedureText (stubClassName : Bytes) (b : Binding) : Bytes :=
  written stubProcedureBind [(.procedureName, b.name), (.stubClassName, stubClassName),
    (.stubProcedureName, b.stubName), (.procedureParams, paramsText b.params)] ++ newline

/-- As `service->addProcedureNotify(…)`. -/
def Binding.notifyText (stubClassName : Bytes) (b : Binding) : Bytes :=
  written stubNotifyBind [(.notifyName, b.name), (.stubClassName, stubClassName),
    (.stubNotifyName, b.stubName), (.notifyParams, paramsText b.params)] ++ newline

def ProcedureDefine.text (d : ProcedureDefine) : Bytes :=
  match d.body with
  | .direct =>
      written stubProcedureDefineDirect
        [(.stubProcedureName, d.stubName), (.procedureName, d.procedureName)] ++ newline
  | .fromJson fromArray fromObject args =>
      written stubProcedureDefine [(.paramsFromJsonArray, accessorsText fromArray),
        (.paramsFromJsonObject, accessorsText fromObject), (.stubProcedureName, d.stubName),
        (.procedureName, d.procedureName), (.procedureArgs, argsText args)] ++ newline

/-- The name stands in the hole that is spelled `[NotifyName]`. -/
def NotifyDefine.text (d : NotifyDefine) : Bytes :=
  match d.body with
  | .direct =>
      written stubNotifyDefineDirect
        [(.stubNotifyName, d.stubName), (.notifyName, d.notifyName)] ++ newline
  | .fromJson fromArray fromObject args =>
      written stubNotifyDefine [(.NotifyName, d.notifyName), (.stubNotifyName, d.stubName),
        (.notifyArgs, argsText args), (.paramsFromJsonArray, accessorsText fromArray),
        (.paramsFromJsonObject, accessorsText fromObject)] ++ newline

def Code.text (code : Code) : Bytes :=
  written servicesStub [(.macroName, code.serviceName.map toupper ++ ascii "SERVICESTUB"),
    (.userClassName, code.userClassName), (.stubClassName, code.stubClassName),
    (.serviceName, code.serviceName),
    (.stubProcedureBindings,
      (code.procedureBindings.map (·.procedureText code.stubClassName)).flatten ++
        (code.notifyBindings.map (·.notifyText code.stubClassName)).flatten),
    (.stubProcedureDefinitions, (code.procedureDefinitions.map ProcedureDefine.text).flatten ++
      (code.notifyDefinitions.map NotifyDefine.text).flatten)]

theorem renders_getterText (type : ValueType) :
    Renders Getter.text (StubText.Service.getterText type) (getter type) := by
  cases type with
  | null => exact renders_error _ _
  | bool => exact renders_ok Getter.getBool
  | int32 => exact renders_ok Getter.getInt32
  | int64 => exact renders_ok Getter.getInt64
  | double => exact renders_ok Getter.getDouble
  | string => exact renders_ok Getter.getString
  | object | array => exact renders_ok Getter.value

theorem renders_accessor (arg : Bytes) (index : Index) (type : ValueType) :
    Renders ArgsDefine.text (StubText.Service.argsDefineTemplate asSpelled arg index.text type)
      (argsDefineTemplate arg index type) :=
  (renders_getterText type).bind fun method => renders_ok (ArgsDefine.mk arg index method)

theorem renders_getGenericParams (params : Value) :
    Renders paramsText (StubText.Service.getGenericParams params) (getGenericParams params) := by
  refine (renders_getObject params).bind fun declared => ?_
  refine (renders_mapM fun m _ => ?_).map List.flatten
  cases m.2.getType with
  | null => exact renders_error _ _
  | bool => exact renders_ok (Param.mk m.1 .bool)
  | int32 => exact renders_ok (Param.mk m.1 .int32)
  | int64 => exact renders_ok (Param.mk m.1 .int64)
  | double => exact renders_ok (Param.mk m.1 .double)
  | string => exact renders_ok (Param.mk m.1 .string)
  | object => exact renders_ok (Param.mk m.1 .object)
  | array => exact renders_ok (Param.mk m.1 .array)

theorem renders_getGenericArgs (params : Value) :
    Renders argsText (StubText.Service.getGenericArgs params) (getGenericArgs params) := by
  refine (renders_getObject params).bind fun declared => ?_
  have same : ((id declared).map fun m => m.1 ++ comma).flatten =
      argsText (declared.map Prod.fst) := by
    rw [argsText, List.map_map]
    rfl
  rw [same]
  exact renders_ok (declared.map Prod.fst)

theorem renders_getParamsFromJsonArray (params : Value) :
    Renders accessorsText (StubText.Service.getParamsFromJsonArray asSpelled params)
      (getParamsFromJsonArray params) := by
  refine (renders_getObject params).bind fun declared => ?_
  refine (renders_mapM fun m _ => ?_).map List.flatten
  exact (renders_accessor m.1.1 (.element m.2) m.1.2.getType).map (· ++ newline)

theorem renders_getParamsFromJsonObject (params : Value) :
    Renders accessorsText (StubText.Service.getParamsFromJsonObject asSpelled params)
      (getParamsFromJsonObject params) := by
  refine (renders_getObject params).bind fun declared => ?_
  refine (renders_mapM fun m _ => ?_).map List.flatten
  exact (renders_accessor m.1 (.member m.1) m.2.getType).map (· ++ newline)

theorem renders_procedureBinding (info : ServiceInfo) (r : RpcReturn) :
    Renders (Binding.procedureText (StubText.Service.getStubClassName info))
      (StubText.Service.procedureBinding asSpelled info r) (binding r.name r.params) :=
  (renders_getGenericParams r.params).bind fun params =>
    renders_ok (Binding.mk r.name (getStubGenericName r.name) params)

theorem renders_notifyBinding (info : ServiceInfo) (r : RpcNotify) :
    Renders (Binding.notifyText (StubText.Service.getStubClassName info))
      (StubText.Service.notifyBinding asSpelled info r) (binding r.name r.params) :=
  (renders_getGenericParams r.params).bind fun params =>
    renders_ok (Binding.mk r.name (getStubGenericName r.name) params)

theorem renders_procedureDefine (r : RpcReturn) :
    Renders ProcedureDefine.text (StubText.Service.procedureDefinition asSpelled r)
      (procedureDefine r) := by
  unfold StubText.Service.procedureDefinition procedureDefine stubBody
  by_cases some : r.params.getSize > 0
  · simp only [if_pos some, StubText.Service.procedureFromJson, bind_assoc, pure_bind]
    refine (renders_getParamsFromJsonArray r.params).bind fun fromArray => ?_
    refine (renders_getParamsFromJsonObject r.params).bind fun fromObject => ?_
    refine (renders_getGenericArgs r.params).bind fun args => ?_
    exact renders_ok (ProcedureDefine.mk (getStubGenericName r.name) r.name
      (.fromJson fromArray fromObject args))
  · simp only [if_neg some]
    exact renders_ok (ProcedureDefine.mk (getStubGenericName r.name) r.name .direct)

theorem spelling_misspelled : Placeholder.NotifyName.spelling = ascii "[NotifyName]" := by
  rw [Placeholder.spelling, Placeholder.name, ascii_ofList rfl, ascii_ofList rfl]
  rfl

/-- The name that the loops look for is not in the template; in the hole that is,
`[NotifyName]` stays. -/
theorem written_stubNotifyDefine (name stubName args array object : Bytes) :
    written stubNotifyDefine [(.notifyName, name), (.stubNotifyName, stubName), (.notifyArgs, args),
        (.paramsFromJsonArray, array), (.paramsFromJsonObject, object)] =
      written stubNotifyDefine [(.NotifyName, ascii "[NotifyName]"), (.stubNotifyName, stubName),
        (.notifyArgs, args), (.paramsFromJsonArray, array), (.paramsFromJsonObject, object)] := by
  refine fill_congr fun h inside => ?_
  have listed := StubText.mem_holes inside
  cases h with
  | NotifyName => exact spelling_misspelled
  | notifyName => exact absurd listed (by decide)
  | _ => rfl

theorem renders_notifyDefine (r : RpcNotify) :
    Renders NotifyDefine.text (StubText.Service.notifyDefinition asSpelled r) (notifyDefine r) := by
  unfold StubText.Service.notifyDefinition notifyDefine stubBody
  by_cases some : r.params.getSize > 0
  · simp only [if_pos some, StubText.Service.notifyFromJson, bind_assoc, pure_bind]
    refine (renders_getParamsFromJsonArray r.params).bind fun fromArray => ?_
    refine (renders_getParamsFromJsonObject r.params).bind fun fromObject => ?_
    refine (renders_getGenericArgs r.params).bind fun args => ?_
    show Renders NotifyDefine.text (.ok (written stubNotifyDefine [(.notifyName, r.name),
      (.stubNotifyName, getStubGenericName r.name), (.notifyArgs, argsText args),
      (.paramsFromJsonArray, accessorsText fromArray),
      (.paramsFromJsonObject, accessorsText fromObject)] ++ newline)) _
    rw [written_stubNotifyDefine]
    exact renders_ok (NotifyDefine.mk (getStubGenericName r.name) (ascii "[NotifyName]")
      (.fromJson fromArray fromObject args))
  · simp only [if_neg some]
    exact renders_ok (NotifyDefine.mk (getStubGenericName r.name) r.name .direct)

/-- **The text of the server is that of its code.** -/
theorem renders_server (info : ServiceInfo) :
    Renders Code.text (StubText.Service.getStub asSpelled info) (getStub info) := by
  refine (renders_each (renders_procedureBinding info)).bind fun procedureBindings => ?_
  refine (renders_each (renders_notifyBinding info)).bind fun notifyBindings => ?_
  refine (renders_each renders_procedureDefine).bind fun procedureDefinitions => ?_
  refine (renders_each renders_notifyDefine).bind fun notifyDefinitions => ?_
  exact renders_ok (Code.mk (info.name ++ ascii "Service") (info.name ++ ascii "ServiceStub")
    info.name procedureBindings notifyBindings procedureDefinitions notifyDefinitions)

end ServiceStubGenerator

/-! ## The client -/

theorem written_append (T U : StubTemplate) (rs : List (Placeholder × Bytes)) :
    written (T ++ U) rs = written T rs ++ written U rs := List.flatMap_append

namespace ClientStub

def cppText : CppType → Bytes
  | .int32 => ascii "int32_t"
  | .int64 => ascii "int64_t"
  | .double => ascii "double"
  | .bool => ascii "bool"
  | .string => ascii "std::string"
  | .json => ascii "json::Value"

def Arg.text (a : Arg) : Bytes :=
  written StubTemplate.arg [(.argType, cppText a.argType), (.argName, a.argName)]

/-- As `getGenericArgs` puts them together. -/
def joined (append : Bool) (ones : List Bytes) : Bytes :=
  if append ∧ ones ≠ [] then comma.intercalate ones ++ [chr ','] else comma.intercalate ones

def argsText (append : Bool) (args : List Arg) : Bytes := joined append (args.map Arg.text)

def membersText (names : List Bytes) : Bytes :=
  (names.map fun name => written paramMember [(.paramName, name)]).flatten

/-- `procedureDefine`, up to the name of the method. -/
def procedureHead : StubTemplate :=
  [text "\nvoid ", hole .procedureName, text "(", hole .procedureArgs,
    text " const ResponseCallback& cb)\n\x7b\n    json::Value params(json::TYPE_OBJECT);\n    ",
    hole .paramMembers, text "\n\n    json::Value call(json::TYPE_OBJECT);\n",
    text "    call.addMember(\"jsonrpc\", \"2.0\");\n    call.addMember(\"method\", \""]

/-- And from there on. -/
def procedureTail : StubTemplate :=
  [text "\");\n",
    text "    call.addMember(\"params\", params);\n\n    assert(conn_ != nullptr);\n",
    text "    client_.sendCall(conn_, call, cb);\n\x7d\n"]

def ProcedureDefine.text (d : ProcedureDefine) : Bytes :=
  written procedureHead [(.procedureName, d.procedureName),
    (.procedureArgs, argsText true d.procedureArgs), (.paramMembers, membersText d.paramMembers)] ++
    d.method ++ written procedureTail []

def notifyHead : StubTemplate :=
  [text "\nvoid ", hole .notifyName, text "(", hole .notifyArgs,
    text ")\n\x7b\n    json::Value params(json::TYPE_OBJECT);\n    ", hole .paramMembers,
    text "\n\n    json::Value notify(json::TYPE_OBJECT);\n",
    text "    notify.addMember(\"jsonrpc\", \"2.0\");\n",
    text "    notify.addMember(\"method\", \""]

def notifyTail : StubTemplate :=
  [text "\");\n\n",
    text "    assert(conn_ != nullptr);\n    client_.sendNotify(conn_, notify);\n\x7d\n"]

def NotifyDefine.text (d : NotifyDefine) : Bytes :=
  written notifyHead [(.notifyName, d.notifyName), (.notifyArgs, argsText false d.notifyArgs),
    (.paramMembers, membersText d.paramMembers)] ++ d.method ++ written notifyTail []

/-- The macro is named as the class, in capitals. -/
def Code.text (code : Code) : Bytes :=
  written clientStub [(.macroName, code.stubClassName.map toupper),
    (.stubClassName, code.stubClassName),
    (.procedureDefinitions, (code.procedureDefinitions.map ProcedureDefine.text).flatten),
    (.notifyDefinitions, (code.notifyDefinitions.map NotifyDefine.text).flatten)]

theorem renders_arg (argName : Bytes) (argType : ValueType) :
    Renders Arg.text (StubText.Client.argTemplate asSpelled argName argType)
      (argTemplate argName argType) := by
  cases argType with
  | null => exact renders_error _ _
  | bool => exact renders_ok (Arg.mk .bool argName)
  | int32 => exact renders_ok (Arg.mk .int32 argName)
  | int64 => exact renders_ok (Arg.mk .int64 argName)
  | double => exact renders_ok (Arg.mk .double argName)
  | string => exact renders_ok (Arg.mk .string argName)
  | object | array => exact renders_ok (Arg.mk .json argName)

theorem renders_getGenericParamMembers (params : Value) :
    Renders membersText (StubText.Client.getGenericParamMembers asSpelled params)
      (getGenericParamMembers params) := by
  refine (renders_getObject params).bind fun declared => ?_
  have each : (id declared).mapM (fun p => asSpelled paramMember [(.paramName, p.1)]) =
      .ok (declared.map fun p => written paramMember [(.paramName, p.1)]) := List.mapM_pure
  have names : (declared.map fun p => written paramMember [(.paramName, p.1)]).flatten =
      membersText (declared.map Prod.fst) := by
    rw [membersText, List.map_map]
    rfl
  rw [each]
  show Renders membersText (.ok _) _
  rw [names]
  exact renders_ok (declared.map Prod.fst)

theorem renders_getGenericArgs (params : Value) (append : Bool) :
    Renders (argsText append) (StubText.Client.getGenericArgs asSpelled params append)
      (getGenericArgs params) := by
  refine (renders_getObject params).bind fun declared => ?_
  exact (renders_mapM fun p _ => renders_arg p.1 p.2.getType).map (joined append)

/-- The name of the method, as the template has it. -/
theorem written_procedureDefine (service name args members : Bytes) :
    written StubTemplate.procedureDefine [(.serviceName, service), (.procedureName, name),
        (.procedureArgs, args), (.paramMembers, members)] =
      written procedureHead [(.procedureName, name), (.procedureArgs, args),
        (.paramMembers, members)] ++ (service ++ chr '.' :: name) ++ written procedureTail [] := by
  have parts : StubTemplate.procedureDefine =
      procedureHead ++ ([hole .serviceName, text ".", hole .procedureName] ++ procedureTail) := rfl
  have dot : ascii "." = [chr '.'] := ascii_ofList rfl
  have middle : service ++ (ascii "." ++ (name ++ [])) = service ++ chr '.' :: name := by
    rw [dot, List.append_nil]
    rfl
  rw [parts, written_append, written_append, List.append_assoc, ← middle]
  rfl

theorem written_notifyDefine (service name args members : Bytes) :
    written StubTemplate.notifyDefine [(.serviceName, service), (.notifyName, name),
        (.notifyArgs, args), (.paramMembers, members)] =
      written notifyHead [(.notifyName, name), (.notifyArgs, args), (.paramMembers, members)] ++
        ascii "Hello.Goodbye" ++ written notifyTail [] := by
  have spelledOut : ascii "    notify.addMember(\"method\", \"Hello.Goodbye\");\n\n" =
      ascii "    notify.addMember(\"method\", \"" ++ (ascii "Hello.Goodbye" ++
        ascii "\");\n\n") := by
    rw [ascii_ofList rfl, ascii_ofList rfl, ascii_ofList rfl, ascii_ofList rfl]
    rfl
  simp only [written, StubTemplate.notifyDefine, notifyHead, notifyTail, text, hole, fill_text,
    fill_hole, fill_nil, spelledOut, List.append_assoc, List.append_nil]
  rfl

theorem renders_procedureDefine (info : ServiceInfo) (r : RpcReturn) :
    Renders ProcedureDefine.text (StubText.Client.procedureDefinition asSpelled info r)
      (procedureDefine info.name r) := by
  refine (renders_getGenericArgs r.params true).bind fun args => ?_
  refine (renders_getGenericParamMembers r.params).bind fun members => ?_
  show Renders ProcedureDefine.text (.ok (written StubTemplate.procedureDefine
    [(.serviceName, info.name), (.procedureName, r.name), (.procedureArgs, argsText true args),
      (.paramMembers, membersText members)])) _
  rw [written_procedureDefine]
  exact renders_ok (ProcedureDefine.mk r.name args members (info.name ++ chr '.' :: r.name))

theorem renders_notifyDefine (info : ServiceInfo) (r : RpcNotify) :
    Renders NotifyDefine.text (StubText.Client.notifyDefinition asSpelled info r)
      (notifyDefine r) := by
  refine (renders_getGenericArgs r.params false).bind fun args => ?_
  refine (renders_getGenericParamMembers r.params).bind fun members => ?_
  show Renders NotifyDefine.text (.ok (written StubTemplate.notifyDefine
    [(.serviceName, info.name), (.notifyName, r.name), (.notifyArgs, argsText false args),
      (.paramMembers, membersText members)])) _
  rw [written_notifyDefine]
  exact renders_ok (NotifyDefine.mk r.name args members (ascii "Hello.Goodbye"))

theorem macroName_eq (info : ServiceInfo) :
    StubText.Client.getMacroName info = (info.name ++ ascii "ClientStub").map toupper := by
  have capitals : (ascii "ClientStub").map toupper = ascii "CLIENTSTUB" := by
    rw [ascii_ofList rfl, ascii_ofList rfl]
    decide
  rw [List.map_append, capitals]
  rfl

/-- **The text of the client is that of its code.** -/
theorem renders_client (info : ServiceInfo) :
    Renders Code.text (StubText.Client.getStub asSpelled info) (getStub info) := by
  refine (renders_each (renders_procedureDefine info)).bind fun definitions => ?_
  refine (renders_each (renders_notifyDefine info)).bind fun notifyDefinitions => ?_
  rw [macroName_eq]
  exact renders_ok (Code.mk (info.name ++ ascii "ClientStub") definitions notifyDefinitions)

end ClientStub

/-! ## What the loops write -/

variable {info : ServiceInfo}

/-- For clear names the loops write the text of the server's code, and nothing if
there is none. -/
theorem written_server (clear : StubText.ClearNames info) :
    ∃ N, ∀ fuel, N ≤ fuel → Renders ServiceStubGenerator.Code.text
      (StubText.Service.getStub (sequential fuel) info) (ServiceStubGenerator.getStub info) := by
  obtain ⟨N, same⟩ := (StubText.Service.settles_of_clear clear).same
  refine ⟨N, fun fuel enough => ?_⟩
  rw [same fuel enough]
  exact ServiceStubGenerator.renders_server info

theorem written_client (clear : StubText.ClearNames info) :
    ∃ N, ∀ fuel, N ≤ fuel → Renders ClientStub.Code.text
      (StubText.Client.getStub (sequential fuel) info) (ClientStub.getStub info) := by
  obtain ⟨N, same⟩ := (StubText.Client.settles_of_clear clear).same
  refine ⟨N, fun fuel enough => ?_⟩
  rw [same fuel enough]
  exact ClientStub.renders_client info

end LaliRpc.Zrpc
