/-
# Zrpc.StubText — the text of the generated files

The generators of `ServiceStub.cpp` and `ClientStub.cpp`, down to the text. Every
template function fills its template the same way: one `replaceAll` for each of
its arguments. What that is, is a parameter here (`Engine`), for the two sides of
the comparison:

* `sequential` is `StubGenerator.h`: the loops run on the spelled out template,
  each at most so many times;
* `simultaneous` puts the arguments in all at once.

`asSpelled` is between them: all at once, but only where the name of a placeholder
is spelled as the loops have it.
-/
import LaliRpc.Theory.Traverse
import LaliRpc.Zrpc.StubGenerator
import LaliRpc.Zrpc.StubTemplates

namespace LaliRpc.Zrpc.StubText

open LaliRpc.Jackson LaliRpc.Theory LaliRpc.Theory.Substitution StubTemplate

set_option autoImplicit false

/-- Why there is no text. -/
inductive Stop where
  /-- a loop is still running -/
  | running
  | assertion
  deriving DecidableEq, Repr

/-- How a template function fills its template. -/
abbrev Engine := StubTemplate → List (Placeholder × Bytes) → Except Stop Bytes

/-- `std::string str = R"(…)"; replaceAll(str, …); …` -/
def sequential (fuel : Nat) : Engine := fun T rs =>
  match Placeholder.words.replaceEach rs fuel (fill Placeholder.spelling T) with
  | none => .error .running
  | some str => .ok str

def asSpelled : Engine := fun T rs => .ok (fill (subst rs Placeholder.spelling) T)

def simultaneous : Engine := fun T rs =>
  .ok (fill (fun p => subst rs Placeholder.spelling p.meaning) T)

/-! ## The generators -/

def toupper (c : UInt8) : UInt8 := if 97 ≤ c ∧ c ≤ 122 then c - 32 else c

def getObject : Value → Except Stop (List (Bytes × Value))
  | .object members => .ok members
  | _ => .error .assertion

def quoted (s : Bytes) : Bytes := chr '"' :: s ++ [chr '"']

def newline : Bytes := [chr '\n']

def comma : Bytes := [chr ',', chr ' ']

section

variable (engine : Engine)

namespace Service

/-- The name of a type in the generated code. -/
def typeName : ValueType → Except Stop Bytes
  | .bool => .ok (ascii "json::TYPE_BOOL")
  | .int32 => .ok (ascii "json::TYPE_INT32")
  | .int64 => .ok (ascii "json::TYPE_INT64")
  | .double => .ok (ascii "json::TYPE_DOUBLE")
  | .string => .ok (ascii "json::TYPE_STRING")
  | .object => .ok (ascii "json::TYPE_OBJECT")
  | .array => .ok (ascii "json::TYPE_ARRAY")
  | .null => .error .assertion

def getterText : ValueType → Except Stop Bytes
  | .bool => .ok (ascii ".getBool()")
  | .int32 => .ok (ascii ".getInt32()")
  | .int64 => .ok (ascii ".getInt64()")
  | .double => .ok (ascii ".getDouble()")
  | .string => .ok (ascii ".getString()")
  | .object | .array => .ok []
  | .null => .error .assertion

def argsDefineTemplate (arg index : Bytes) (type : ValueType) : Except Stop Bytes := do
  let method ← getterText type
  engine argsDefine [(.arg, arg), (.index, index), (.method, method)]

def getMacroName (serviceInfo : ServiceInfo) : Bytes :=
  serviceInfo.name.map toupper ++ ascii "SERVICESTUB"

def getUserClassName (serviceInfo : ServiceInfo) : Bytes := serviceInfo.name ++ ascii "Service"

def getStubClassName (serviceInfo : ServiceInfo) : Bytes := serviceInfo.name ++ ascii "ServiceStub"

def getStubGenericName (name : Bytes) : Bytes := name ++ ascii "Stub"

def getGenericParams (params : Value) : Except Stop Bytes := do
  let fields ← (← getObject params).mapM fun m => do
    return comma ++ newline ++ quoted m.1 ++ comma ++ (← typeName m.2.getType)
  return fields.flatten

def getGenericArgs (params : Value) : Except Stop Bytes := do
  return ((← getObject params).map fun m => m.1 ++ comma).flatten

def getParamsFromJsonArray (params : Value) : Except Stop Bytes := do
  let lines ← (← getObject params).zipIdx.mapM fun m => do
    return (← argsDefineTemplate engine m.1.1 (toDecimal m.2) m.1.2.getType) ++ newline
  return lines.flatten

def getParamsFromJsonObject (params : Value) : Except Stop Bytes := do
  let lines ← (← getObject params).mapM fun m => do
    return (← argsDefineTemplate engine m.1 (quoted m.1) m.2.getType) ++ newline
  return lines.flatten

/-- One round of the loop of `getStubProcedureBindings`. -/
def procedureBinding (serviceInfo : ServiceInfo) (p : RpcReturn) : Except Stop Bytes := do
  let procedureParams ← getGenericParams p.params
  let binding ← engine stubProcedureBind [(.procedureName, p.name),
    (.stubClassName, getStubClassName serviceInfo),
    (.stubProcedureName, getStubGenericName p.name), (.procedureParams, procedureParams)]
  return binding ++ newline

def getStubProcedureBindings (serviceInfo : ServiceInfo) : Except Stop Bytes := do
  return (← serviceInfo.rpcReturn.mapM (procedureBinding engine serviceInfo)).flatten

def notifyBinding (serviceInfo : ServiceInfo) (p : RpcNotify) : Except Stop Bytes := do
  let notifyParams ← getGenericParams p.params
  let binding ← engine stubNotifyBind [(.notifyName, p.name),
    (.stubClassName, getStubClassName serviceInfo),
    (.stubNotifyName, getStubGenericName p.name), (.notifyParams, notifyParams)]
  return binding ++ newline

def getStubNotifyBindings (serviceInfo : ServiceInfo) : Except Stop Bytes := do
  return (← serviceInfo.rpcNotify.mapM (notifyBinding engine serviceInfo)).flatten

/-- The definition of a stub function with parameters. -/
def procedureFromJson (r : RpcReturn) : Except Stop Bytes := do
  let paramsFromJsonArray ← getParamsFromJsonArray engine r.params
  let paramsFromJsonObject ← getParamsFromJsonObject engine r.params
  let procedureArgs ← getGenericArgs r.params
  engine stubProcedureDefine [(.paramsFromJsonArray, paramsFromJsonArray),
    (.paramsFromJsonObject, paramsFromJsonObject),
    (.stubProcedureName, getStubGenericName r.name), (.procedureName, r.name),
    (.procedureArgs, procedureArgs)]

def procedureDirect (r : RpcReturn) : Except Stop Bytes :=
  engine stubProcedureDefineDirect
    [(.stubProcedureName, getStubGenericName r.name), (.procedureName, r.name)]

def procedureDefinition (r : RpcReturn) : Except Stop Bytes := do
  let define ← if r.params.getSize > 0 then procedureFromJson engine r
    else procedureDirect engine r
  return define ++ newline

def getStubProcedureDefinitions (serviceInfo : ServiceInfo) : Except Stop Bytes := do
  return (← serviceInfo.rpcReturn.mapM (procedureDefinition engine)).flatten

/-- The first of the loops looks for `[notifyName]`, which the template does not
have. -/
def notifyFromJson (r : RpcNotify) : Except Stop Bytes := do
  let paramsFromJsonArray ← getParamsFromJsonArray engine r.params
  let paramsFromJsonObject ← getParamsFromJsonObject engine r.params
  let notifyArgs ← getGenericArgs r.params
  engine stubNotifyDefine [(.notifyName, r.name), (.stubNotifyName, getStubGenericName r.name),
    (.notifyArgs, notifyArgs), (.paramsFromJsonArray, paramsFromJsonArray),
    (.paramsFromJsonObject, paramsFromJsonObject)]

def notifyDirect (r : RpcNotify) : Except Stop Bytes :=
  engine stubNotifyDefineDirect
    [(.stubNotifyName, getStubGenericName r.name), (.notifyName, r.name)]

def notifyDefinition (r : RpcNotify) : Except Stop Bytes := do
  let define ← if r.params.getSize > 0 then notifyFromJson engine r else notifyDirect engine r
  return define ++ newline

def getStubNotifyDefinitions (serviceInfo : ServiceInfo) : Except Stop Bytes := do
  return (← serviceInfo.rpcNotify.mapM (notifyDefinition engine)).flatten

/-- `ServiceStubGenerator::getStub` -/
def getStub (serviceInfo : ServiceInfo) : Except Stop Bytes := do
  let procedureBindings ← getStubProcedureBindings engine serviceInfo
  let notifyBindings ← getStubNotifyBindings engine serviceInfo
  let procedureDefinitions ← getStubProcedureDefinitions engine serviceInfo
  let notifyDefinitions ← getStubNotifyDefinitions engine serviceInfo
  engine servicesStub [(.macroName, getMacroName serviceInfo),
    (.userClassName, getUserClassName serviceInfo),
    (.stubClassName, getStubClassName serviceInfo), (.serviceName, serviceInfo.name),
    (.stubProcedureBindings, procedureBindings ++ notifyBindings),
    (.stubProcedureDefinitions, procedureDefinitions ++ notifyDefinitions)]

end Service

namespace Client

def argTypeText : ValueType → Except Stop Bytes
  | .int32 => .ok (ascii "int32_t")
  | .int64 => .ok (ascii "int64_t")
  | .double => .ok (ascii "double")
  | .bool => .ok (ascii "bool")
  | .string => .ok (ascii "std::string")
  | .object | .array => .ok (ascii "json::Value")
  | .null => .error .assertion

def argTemplate (argName : Bytes) (argType : ValueType) : Except Stop Bytes := do
  let typeStr ← argTypeText argType
  engine StubTemplate.arg [(.argType, typeStr), (.argName, argName)]

def getMacroName (serviceInfo : ServiceInfo) : Bytes :=
  serviceInfo.name.map toupper ++ ascii "CLIENTSTUB"

def getStubClassName (serviceInfo : ServiceInfo) : Bytes := serviceInfo.name ++ ascii "ClientStub"

/-- The arguments with commas between them, and with `append` one behind the last. -/
def getGenericArgs (params : Value) (append : Bool) : Except Stop Bytes := do
  let ones ← (← getObject params).mapM fun p => argTemplate engine p.1 p.2.getType
  let result := comma.intercalate ones
  return if append ∧ ones ≠ [] then result ++ [chr ','] else result

def getGenericParamMembers (params : Value) : Except Stop Bytes := do
  let ones ← (← getObject params).mapM fun p => engine paramMember [(.paramName, p.1)]
  return ones.flatten

def procedureDefinition (serviceInfo : ServiceInfo) (r : RpcReturn) : Except Stop Bytes := do
  let procedureArgs ← getGenericArgs engine r.params true
  let paramMembers ← getGenericParamMembers engine r.params
  engine procedureDefine [(.serviceName, serviceInfo.name), (.procedureName, r.name),
    (.procedureArgs, procedureArgs), (.paramMembers, paramMembers)]

def getProcedureDefinitions (serviceInfo : ServiceInfo) : Except Stop Bytes := do
  return (← serviceInfo.rpcReturn.mapM (procedureDefinition engine serviceInfo)).flatten

/-- The template has no `[serviceName]`. -/
def notifyDefinition (serviceInfo : ServiceInfo) (r : RpcNotify) : Except Stop Bytes := do
  let notifyArgs ← getGenericArgs engine r.params false
  let paramMembers ← getGenericParamMembers engine r.params
  engine notifyDefine [(.serviceName, serviceInfo.name), (.notifyName, r.name),
    (.notifyArgs, notifyArgs), (.paramMembers, paramMembers)]

def getNotifyDefinitions (serviceInfo : ServiceInfo) : Except Stop Bytes := do
  return (← serviceInfo.rpcNotify.mapM (notifyDefinition engine serviceInfo)).flatten

/-- `ClientStub::getStub` -/
def getStub (serviceInfo : ServiceInfo) : Except Stop Bytes := do
  let procedureDefinitions ← getProcedureDefinitions engine serviceInfo
  let notifyDefinitions ← getNotifyDefinitions engine serviceInfo
  engine clientStub [(.macroName, getMacroName serviceInfo),
    (.stubClassName, getStubClassName serviceInfo),
    (.procedureDefinitions, procedureDefinitions), (.notifyDefinitions, notifyDefinitions)]

end Client

end

end LaliRpc.Zrpc.StubText
