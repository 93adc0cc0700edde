/-
# Zrpc.ServiceStub — the generated server

`ServiceStub.cpp`. As for the client, the generated C++ is given as what its
statements do. The constructor registers one procedure for each binding
(`construct`), with the stub function of that name as its callback; a stub
function takes the arguments out of the request and calls the user's method
(`ProcedureDefine.call`).
-/
import LaliRpc.Zrpc.RpcServer
import LaliRpc.Zrpc.StubGenerator

namespace LaliRpc.Zrpc

open LaliRpc.Jackson LaliRpc.Theory

set_option autoImplicit false

/-- A call of the user's method. -/
structure UserCall where
  procedureName : Bytes
  args : List CppValue
  done : UserDoneCallback

namespace ServiceStubGenerator

/-! ## The generated code -/

inductive Index where
  /-- `params[0]` -/
  | element (index : Nat)
  /-- `params["name"]` -/
  | member (name : Bytes)

inductive Getter where
  | getBool | getInt32 | getInt64 | getDouble | getString
  /-- no getter: the value itself -/
  | value

/-- `auto [arg] = params[[index]][method];` -/
structure ArgsDefine where
  arg : Bytes
  index : Index
  method : Getter

/-- The getter for a type, as `argsDefineTemplate` picks it. -/
def getter : ValueType → Except Thrown Getter
  | .bool => .ok .getBool
  | .int32 => .ok .getInt32
  | .int64 => .ok .getInt64
  | .double => .ok .getDouble
  | .string => .ok .getString
  | .object | .array => .ok .value
  | .null => .error .assertion

def argsDefineTemplate (arg : Bytes) (index : Index) (type : ValueType) :
    Except Thrown ArgsDefine := do
  return ⟨arg, index, ← getter type⟩

def getStubGenericName (name : Bytes) : Bytes := name ++ ascii "Stub"

/-- The parameter list of a binding. -/
def getGenericParams (params : Value) : Except Thrown (List Param) := do
  (← params.getObject).mapM fun m =>
    match m.2.getType with
    | .null => .error .assertion
    | type => .ok ⟨m.1, type⟩

def getGenericArgs (params : Value) : Except Thrown (List Bytes) := do
  return (← params.getObject).map Prod.fst

def getParamsFromJsonArray (params : Value) : Except Thrown (List ArgsDefine) := do
  (← params.getObject).zipIdx.mapM fun m =>
    argsDefineTemplate m.1.1 (.element m.2) m.1.2.getType

def getParamsFromJsonObject (params : Value) : Except Thrown (List ArgsDefine) := do
  (← params.getObject).mapM fun m => argsDefineTemplate m.1 (.member m.1) m.2.getType

/-- The body of a stub function, up to the call of the user's method. -/
inductive StubBody where
  /-- without parameters: the request is not looked into -/
  | direct
  | fromJson (fromArray fromObject : List ArgsDefine) (args : List Bytes)

def stubBody (params : Value) : Except Thrown StubBody := do
  if params.getSize > 0 then
    let fromArray ← getParamsFromJsonArray params
    let fromObject ← getParamsFromJsonObject params
    let args ← getGenericArgs params
    return .fromJson fromArray fromObject args
  else return .direct

/-- `service->addProcedureReturn(…)` or `service->addProcedureNotify(…)`. -/
structure Binding where
  name : Bytes
  stubName : Bytes
  params : List Param

structure ProcedureDefine where
  stubName : Bytes
  procedureName : Bytes
  body : StubBody

/-- A stub function of a notification calls `convert().[notifyName]`. In the
template for parameters the placeholder is spelled otherwise, and stays. -/
structure NotifyDefine where
  stubName : Bytes
  notifyName : Bytes
  body : StubBody

structure Code where
  userClassName : Bytes
  stubClassName : Bytes
  serviceName : Bytes
  procedureBindings : List Binding
  notifyBindings : List Binding
  procedureDefinitions : List ProcedureDefine
  notifyDefinitions : List NotifyDefine

def binding (name : Bytes) (params : Value) : Except Thrown Binding := do
  return ⟨name, getStubGenericName name, ← getGenericParams params⟩

def procedureDefine (r : RpcReturn) : Except Thrown ProcedureDefine := do
  return ⟨getStubGenericName r.name, r.name, ← stubBody r.params⟩

def notifyDefine (r : RpcNotify) : Except Thrown NotifyDefine := do
  match ← stubBody r.params with
  | .direct => return ⟨getStubGenericName r.name, r.name, .direct⟩
  | body => return ⟨getStubGenericName r.name, ascii "[NotifyName]", body⟩

def getStub (serviceInfo : ServiceInfo) : Except Thrown Code := do
  let procedureBindings ← serviceInfo.rpcReturn.mapM fun r => binding r.name r.params
  let notifyBindings ← serviceInfo.rpcNotify.mapM fun r => binding r.name r.params
  let procedureDefinitions ← serviceInfo.rpcReturn.mapM procedureDefine
  let notifyDefinitions ← serviceInfo.rpcNotify.mapM notifyDefine
  return {
    userClassName := serviceInfo.name ++ ascii "Service"
    stubClassName := serviceInfo.name ++ ascii "ServiceStub"
    serviceName := serviceInfo.name
    procedureBindings, notifyBindings, procedureDefinitions, notifyDefinitions }

/-! ## What it does -/

def Getter.read : Getter → Value → Except Thrown CppValue
  | .getBool, v => return .bool (← v.getBool)
  | .getInt32, v => return .int32 (← v.getInt32)
  | .getInt64, v => return .int64 (← v.getInt64)
  | .getDouble, v => return .double (← v.getDouble)
  | .getString, v => return .string (← v.getStringView)
  | .value, v => return .json v

/-- `params[index]` -/
def Index.read : Index → Value → Except Thrown Value
  | .element index, params => params.element index
  | .member name, params => params.member name

/-- The variable that the statement declares. `params` are those of the request, in code
that compiles: a variable of that name would be read in its own initializer. -/
def ArgsDefine.run (params : Value) (d : ArgsDefine) : Except Thrown (Bytes × CppValue) := do
  return (d.arg, ← d.method.read (← d.index.read params))

/-- The arguments for the user's method. -/
def StubBody.args (request : Value) : StubBody → Except Thrown (List CppValue)
  | .direct => .ok []
  | .fromJson fromArray fromObject args => do
      let params ← request.member (ascii "params")
      let locals ← (if params.isArray then fromArray else fromObject).mapM (ArgsDefine.run params)
      args.mapM (readLocal locals)

/-- The stub function, up to the call of the user's method. -/
def ProcedureDefine.call (d : ProcedureDefine) (request : Value) (done : RpcDoneCallback) :
    Except Thrown UserCall := do
  return ⟨d.procedureName, ← d.body.args request, ⟨request, done⟩⟩

namespace Code

/-- `std::bind` of the stub function that the binding names. -/
def procedure (code : Code) (b : Binding) : Option (Bytes × Procedure ProcedureDefine) :=
  ((code.procedureDefinitions.map fun d => (d.stubName, d)).lookup b.stubName).map fun d =>
    (b.name, ⟨d, b.params⟩)

def notify (code : Code) (b : Binding) : Option (Bytes × Procedure NotifyDefine) :=
  ((code.notifyDefinitions.map fun d => (d.stubName, d)).lookup b.stubName).map fun d =>
    (b.name, ⟨d, b.params⟩)

/-- The constructor of the generated class. -/
def construct (code : Code) (server : RpcServer ProcedureDefine NotifyDefine) :
    Except Thrown (RpcServer ProcedureDefine NotifyDefine) := do
  let service ← (code.procedureBindings.filterMap code.procedure).foldlM
    (fun service e => service.addProcedureReturn e.1 e.2) RpcService.empty
  let service ← (code.notifyBindings.filterMap code.notify).foldlM
    (fun service e => service.addProcedureNotify e.1 e.2) service
  server.addService code.serviceName service

end Code

/-! ## Calls of the stub functions -/

theorem getGenericParams_ok {declared : List (Bytes × Value)} {params : List Param}
    (ok : getGenericParams (.object declared) = .ok params) :
    params = declared.map fun m => ⟨m.1, m.2.getType⟩ := by
  have same := mapM_map_eq (f := fun m : Bytes × Value =>
    match m.2.getType with
    | .null => Except.error Thrown.assertion
    | type => .ok (⟨m.1, type⟩ : Param)) ok (fun m => (⟨m.1, m.2.getType⟩ : Param)) id
  rw [List.map_id] at same
  apply same
  intro m param
  cases m.2.getType with
  | null => exact fun h => by cases h
  | bool | int32 | int64 | double | string | array | object => exact fun h => (Except.ok.inj h).symm

theorem names_sublist {α : Type} {f : Binding → Option (Bytes × α)}
    (kept : ∀ b e, f b = some e → e.1 = b.name) (bindings : List Binding) :
    ((bindings.filterMap f).map Prod.fst).Sublist (bindings.map Binding.name) := by
  induction bindings with
  | nil => exact .slnil
  | cons b bindings ih =>
      cases linked : f b with
      | none =>
          rw [List.filterMap_cons_none linked]
          exact ih.cons _
      | some e =>
          rw [List.filterMap_cons_some linked, List.map_cons, List.map_cons, kept b e linked]
          exact ih.cons_cons _

/-- What the parts of the generated code are made of. -/
structure Generated (info : ServiceInfo) (code : Code) : Prop where
  stubClassName : code.stubClassName = info.name ++ ascii "ServiceStub"
  serviceName : code.serviceName = info.name
  procedureBindings :
    info.rpcReturn.mapM (fun r => binding r.name r.params) = .ok code.procedureBindings
  notifyBindings : info.rpcNotify.mapM (fun r => binding r.name r.params) = .ok code.notifyBindings
  procedureDefinitions : info.rpcReturn.mapM procedureDefine = .ok code.procedureDefinitions
  notifyDefinitions : info.rpcNotify.mapM notifyDefine = .ok code.notifyDefinitions

theorem getStub_ok {info : ServiceInfo} {code : Code} (ok : getStub info = .ok code) :
    Generated info code := by
  obtain ⟨procedureBindings, returns, ok⟩ := except_bind_eq_ok.mp ok
  obtain ⟨notifyBindings, notifies, ok⟩ := except_bind_eq_ok.mp ok
  obtain ⟨procedureDefinitions, stubs, ok⟩ := except_bind_eq_ok.mp ok
  obtain ⟨notifyDefinitions, notifyStubs, ok⟩ := except_bind_eq_ok.mp ok
  obtain rfl := Except.ok.inj ok
  exact ⟨rfl, rfl, returns, notifies, stubs, notifyStubs⟩

theorem binding_ok {name : Bytes} {params : Value} {b : Binding}
    (ok : binding name params = .ok b) :
    b.name = name ∧ b.stubName = getStubGenericName name ∧
      getGenericParams params = .ok b.params := by
  obtain ⟨list, made, ok⟩ := except_bind_eq_ok.mp ok
  obtain rfl := Except.ok.inj ok
  exact ⟨rfl, rfl, made⟩

theorem procedureDefine_ok {r : RpcReturn} {d : ProcedureDefine} (ok : procedureDefine r = .ok d) :
    d.stubName = getStubGenericName r.name ∧ d.procedureName = r.name := by
  obtain ⟨body, -, ok⟩ := except_bind_eq_ok.mp ok
  obtain rfl := Except.ok.inj ok
  exact ⟨rfl, rfl⟩

theorem notifyDefine_ok {r : RpcNotify} {d : NotifyDefine} (ok : notifyDefine r = .ok d) :
    d.stubName = getStubGenericName r.name := by
  obtain ⟨body, -, ok⟩ := except_bind_eq_ok.mp ok
  cases body with
  | direct =>
      obtain rfl := Except.ok.inj ok
      rfl
  | fromJson fromArray fromObject args =>
      obtain rfl := Except.ok.inj ok
      rfl

/-- Every entry is bound under its own name. -/
theorem bindings_named {ρ : Type} {entries : List ρ} {name : ρ → Bytes} {params : ρ → Value}
    {bindings : List Binding}
    (bound : entries.mapM (fun r => binding (name r) (params r)) = .ok bindings) :
    bindings.map Binding.name = entries.map name :=
  mapM_map_eq bound name Binding.name fun _ _ ok => (binding_ok ok).1

/-- Stub functions of distinct names are bound under distinct names. -/
theorem bindings_distinct {ρ α : Type} {entries : List ρ} {name : ρ → Bytes} {params : ρ → Value}
    {bindings : List Binding}
    (bound : entries.mapM (fun r => binding (name r) (params r)) = .ok bindings)
    {f : Binding → Option (Bytes × α)} (kept : ∀ b e, f b = some e → e.1 = b.name)
    (distinct : (entries.map fun r => getStubGenericName (name r)).Nodup) :
    ((bindings.filterMap f).map Prod.fst).Nodup := by
  refine List.Nodup.sublist (names_sublist kept bindings) ?_
  rw [bindings_named bound]
  rw [show (entries.map fun r => getStubGenericName (name r)) =
    (entries.map name).map getStubGenericName by rw [List.map_map]; rfl] at distinct
  exact distinct.of_map

namespace Code

/-- No two stub functions of one kind have the same name. -/
structure DistinctStubs (code : Code) : Prop where
  procedures : (code.procedureDefinitions.map ProcedureDefine.stubName).Nodup
  notifies : (code.notifyDefinitions.map NotifyDefine.stubName).Nodup

variable {info : ServiceInfo} {code : Code}

theorem procedure_name (b : Binding) (e : Bytes × Procedure ProcedureDefine)
    (linked : code.procedure b = some e) : e.1 = b.name := by
  obtain ⟨d, -, rfl⟩ := Option.map_eq_some_iff.mp linked
  rfl

theorem notify_name (b : Binding) (e : Bytes × Procedure NotifyDefine)
    (linked : code.notify b = some e) : e.1 = b.name := by
  obtain ⟨d, -, rfl⟩ := Option.map_eq_some_iff.mp linked
  rfl

/-- The service that the constructor fills. -/
def service (code : Code) : RpcService ProcedureDefine NotifyDefine where
  procedureReturnList := Table.empty.emplaceAll (code.procedureBindings.filterMap code.procedure)
  procedureNotifyList := Table.empty.emplaceAll (code.notifyBindings.filterMap code.notify)

theorem procedures_distinct (generated : Generated info code) (distinct : code.DistinctStubs) :
    ((code.procedureBindings.filterMap code.procedure).map Prod.fst).Nodup := by
  apply bindings_distinct generated.procedureBindings procedure_name
  rw [← mapM_map_eq generated.procedureDefinitions _ ProcedureDefine.stubName
    fun r d ok => (procedureDefine_ok ok).1]
  exact distinct.procedures

theorem notifies_distinct (generated : Generated info code) (distinct : code.DistinctStubs) :
    ((code.notifyBindings.filterMap code.notify).map Prod.fst).Nodup := by
  apply bindings_distinct generated.notifyBindings notify_name
  rw [← mapM_map_eq generated.notifyDefinitions _ NotifyDefine.stubName
    fun r d ok => notifyDefine_ok ok]
  exact distinct.notifies

/-- The constructor gets as far as adding the service. -/
theorem construct_eq (generated : Generated info code) (distinct : code.DistinctStubs)
    (server : RpcServer ProcedureDefine NotifyDefine) :
    code.construct server = server.addService info.name code.service := by
  rw [construct, RpcService.addProcedureReturns_eq (procedures_distinct generated distinct)
      fun e _ => Table.find_empty e.1, except_ok_bind,
    RpcService.addProcedureNotifies_eq (notifies_distinct generated distinct)
      fun e _ => Table.find_empty e.1, except_ok_bind, generated.serviceName]
  rfl

end Code

end ServiceStubGenerator

end LaliRpc.Zrpc
